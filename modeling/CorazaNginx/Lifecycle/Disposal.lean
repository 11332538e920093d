/-
No transaction is lost.

`Held w`: each handle that the engine has given out is that of a context with its cleanup registered, or was given back
at once, because the pool had no room for the cleanup, and is never used again. Every handler call keeps it
(`Turn.held`), so when the pool is destroyed each transaction the engine has ever made for the request has been freed
exactly once (`Held.disposed`): logged before, in the LOG phase or by its cleanup, or given back unused.
-/
import Mathlib.Tactic
import CorazaNginx.Lifecycle.Handles

namespace CorazaNginx

open CorazaNginx.Core Prog

variable {e : Env} {w w' : World} {P : EngineCall → Prop} {a h : ℕ} {s : St} {evs : Trace}

/-- the pool has refused a cleanup, and all that was ever called on the transaction is its release -/
structure GivenBack (t : Trace) (h : ℕ) : Prop where
  calls : t.calls h = [.freeTransaction]
  refused : .call .cleanupAdd 0 ∈ t

/-- every handle is held by a registered context or was given back -/
def Held (w : World) : Prop :=
  ∀ h ∈ w.trace.handles, h ≠ 0 → (∃ a ∈ w.cleanups, w.handle a = h) ∨ GivenBack w.trace h

theorem Held.start (r : Request) (mainWaf : ℕ) : Held (World.start r mainWaf) := fun _ h => absurd h List.not_mem_nil

/-- what makes no call on a handle leaves it given back -/
theorem GivenBack.append {t : Trace} (hg : GivenBack t h) (hnone : evs.calls h = []) : GivenBack (t ++ evs) h := by
  refine ⟨?_, List.mem_append_left _ hg.refused⟩
  rw [Trace.calls_append, hg.calls, hnone, List.append_nil]

/-- a handle that was given back is that of no context -/
theorem Ledger.not_back (hl : Ledger w) (hg : GivenBack w.trace h) (h0 : h ≠ 0) (a : ℕ) : w.handle a ≠ h := by
  rintro rfl
  by_cases ha : a ∈ w.cleanups
  · refine hl.unfreed a ha ?_
    rw [World.calls, hg.calls]
    exact List.mem_singleton_self _
  · exact h0 (hl.zeroed a ha)

/-- no new handle, the registered contexts as they were, and no call on what was given back -/
theorem Held.beside (hh : Held w) (htr : w'.trace = w.trace ++ evs) (hnew : ∀ x ∈ evs.handles, x = 0)
    (hkeep : ∀ b ∈ w.cleanups, b ∈ w'.cleanups ∧ w'.handle b = w.handle b)
    (hcalls : ∀ x, x ≠ 0 → GivenBack w.trace x → evs.calls x = []) : Held w' := by
  intro x hx h0
  rw [htr, Trace.handles_append] at hx
  rcases List.mem_append.1 hx with hx | hx
  · rcases hh x hx h0 with ⟨b, hb, rfl⟩ | hg
    · exact Or.inl ⟨b, (hkeep b hb).1, (hkeep b hb).2⟩
    · rw [htr]
      exact Or.inr (hg.append (hcalls x h0 hg))
  · exact absurd (hnew x hx) h0

/-- work on one context -/
theorem Held.work (hh : Held w) (hl : Ledger w) (htr : s.trace = w.trace ++ evs)
    (hevs : ∀ ev ∈ evs, ev.Within (w.handle a) P) (htx : s.ctx.corazaTransaction = w.handle a) : Held (w.put a s) := by
  refine hh.beside htr (fun x hx => ?_) (fun b hb => ⟨hb, World.put_handle htx b⟩) fun x h0 hg => ?_
  · rw [Trace.handles_of_within hevs] at hx
    exact absurd hx List.not_mem_nil
  · exact Trace.calls_of_within hevs (hl.not_back hg h0 a).symm

theorem Held.confined (hh : Held w) (hl : Ledger w) (hc : Confined P (w.view a) s) : Held (w.put a s) := by
  obtain ⟨evs, htr, hevs⟩ := hc.trace
  exact hh.work hl htr hevs hc.tx

/-! ## Creating a context -/

/-- the new transaction is that of a registered context -/
theorem Held.opened {tx : ℕ} {behind : Trace} (hh : Held w) (hl : Ledger w) (hfresh : FreshHandles e)
    (ho : Opened e w tx evs behind w') : Held w' := by
  obtain ⟨cln, -, hev⟩ := ho.events
  obtain ⟨-, -, hhandles, hcalls, -⟩ := hev.fresh hfresh
  have hout := fun x => Opened.behind_outside cln ho.outside x
  intro x hx h0
  rw [ho.trace, Trace.handles_append, hhandles, (hout 0).1] at hx
  rcases List.mem_append.1 hx with hx | hx
  · rcases hh x hx h0 with ⟨b, hb, rfl⟩ | hg
    · refine Or.inl ⟨b, ?_, ho.toOpening.handle_other (Nat.ne_of_lt (hl.cleanups b hb))⟩
      rw [ho.cleanups]
      exact List.mem_cons_of_mem _ hb
    · rw [ho.trace]
      exact Or.inr (hg.append (by rw [hcalls, (hout x).2]))
  · rw [List.mem_singleton.1 hx]
    refine Or.inl ⟨w.ctxCount, ?_, ho.toOpening.handle_self⟩
    rw [ho.cleanups]
    exact List.mem_cons_self

/-- the new transaction is given back -/
theorem Held.abandoned {tx : ℕ} {rc : ℤ} (hh : Held w) (hl : Ledger w) (hfresh : FreshHandles e) (ho : Opening w 0 w')
    (htr : w'.trace = w.trace ++ evs)
    (hev : OpenedBy e w tx evs [.call .cleanupAdd 0, .call (.engine tx .freeTransaction) rc])
    (hcleanups : w'.cleanups = w.cleanups) : Held w' := by
  obtain ⟨h0tx, hnew, hhandles, hcalls, -⟩ := hev.fresh hfresh
  have hfree : ∀ x, evs.calls x = if tx = x then [.freeTransaction] else [] := by
    intro x
    rw [hcalls]
    by_cases hx : tx = x <;> simp [Trace.calls, hx]
  intro x hx h0
  rw [htr, Trace.handles_append, hhandles] at hx
  rcases List.mem_append.1 hx with hx | hx
  · rcases hh x hx h0 with ⟨b, hb, rfl⟩ | hg
    · refine Or.inl ⟨b, by rw [hcleanups]; exact hb, ho.handle_other (Nat.ne_of_lt (hl.cleanups b hb))⟩
    · rw [htr]
      have hne : tx ≠ x := fun heq => hnew (heq ▸ hx)
      exact Or.inr (hg.append (by rw [hfree, if_neg hne]))
  · have hxtx : x = tx := by simpa [Trace.handles] using hx
    subst hxtx
    refine Or.inr ⟨?_, ?_⟩
    · rw [htr, Trace.calls_append, (hl.unused h0 hnew).2, hfree, if_pos rfl]
      rfl
    · obtain ⟨before, waf, id, rfl, -⟩ := hev
      rw [htr]
      simp

theorem Created.held {res : Option ℕ} (hc : Created e w res w') (hh : Held w) (hl : Ledger w)
    (hfresh : FreshHandles e) :
    Held w' := by
  cases hc with
  | refused evs hevs =>
    refine hh.beside rfl (fun x hx => ?_) (fun b hb => ⟨hb, rfl⟩) fun x _ _ => ?_
    · obtain ⟨ev, hev, hx⟩ := List.mem_filterMap.1 hx
      rcases hevs ev hev with hout | ⟨waf, id, rc, rfl, hzero⟩
      · have hnone : Trace.handles [ev] = [] := Trace.handles_of_within fun y hy => by
          rw [List.mem_singleton.1 hy]
          exact hout 0
        have hin : x ∈ Trace.handles [ev] := List.mem_filterMap.2 ⟨ev, List.mem_singleton_self _, hx⟩
        rw [hnone] at hin
        exact absurd hin List.not_mem_nil
      · exact (Option.some.inj hx).symm.trans hzero
    · rw [List.eq_nil_iff_forall_not_mem]
      intro c hc
      obtain ⟨rc, hin⟩ := Trace.mem_calls.1 hc
      rcases hevs _ hin with hout | ⟨waf, id, rc', heq, -⟩
      · exact hout.not_uses rfl
      · cases heq
  | abandoned tx evs rc w' ho htr hev hcleanups => exact hh.abandoned hl hfresh ho htr hev hcleanups
  | unkept tx evs behind w' ho => exact hh.opened hl hfresh ho
  | created tx evs behind w' ho => exact hh.opened hl hfresh ho

/-! ## One call -/

/-- **One call.** Every handler call keeps what the engine has given. -/
theorem Turn.held {callback : Callback} {rc : ℤ} (ht : Turn e w callback rc w') (hh : Held w) (hl : Ledger w)
    (hfresh : FreshHandles e) : Held w' := by
  cases ht with
  | idle callback rc s evs _ htr hout =>
    refine hh.beside htr (fun x hx => ?_) (fun b hb => ⟨hb, rfl⟩) fun x _ _ => Trace.calls_of_outside hout x
    rw [Trace.handles_of_within fun ev hev => hout ev hev 0] at hx
    exact absurd hx List.not_mem_nil
  | quiet callback rc a s _ _ hc => exact hh.confined hl hc
  | preAccess rc a s _ _ hc => exact hh.confined hl hc
  | header rc a s _ _ _ hc =>
    obtain ⟨evs, htr, hevs, htx, -⟩ := hc.unlogged
    exact hh.work hl htr hevs htx
  | body inn rc a s _ _ hc => exact hh.confined hl hc
  | log rc a _ _ ret =>
    have hevs : ∀ ev ∈ [Event.call (.engine (w.handle a) .processLogging) ret], ev.Within (w.handle a)
        (fun _ => True) := by
      intro ev hev
      rw [List.mem_singleton.1 hev]
      exact ⟨rfl, trivial⟩
    exact hh.work hl rfl hevs rfl
  | denied w' _ hc => exact hc.held hh hl hfresh
  | rewrite rc w'' s _ hc hcalls =>
    obtain ⟨tx, evs, behind, ho⟩ := hc.opened
    obtain ⟨id, hctx⟩ := ho.ctx
    have hlog : (w''.ctxs w.ctxCount).logged = false := by rw [hctx]
    obtain ⟨evs, htr, hevs, htx, -⟩ := hcalls.logged hlog
    exact (hc.held hh hl hfresh).work (hc.ledger hl hfresh) htr hevs htx

/-! ## Every run -/

theorem Held.next {step : Step} (hh : Held w) (hl : Ledger w) (hfresh : step.GivesFresh) : Held (w.next step) := by
  cases step with
  | clearCtx => exact hh
  | call callback e r =>
    exact (turn_spec callback e (w.setR r)).held (w := w.setR r) hh (hl.setR r) hfresh

theorem Held.run {steps : List Step} (hh : Held w) (hl : Ledger w) (hfresh : ∀ step ∈ steps, step.GivesFresh) :
    Held (w.run steps) := by
  induction steps generalizing w with
  | nil => exact hh
  | cons step steps ih =>
    obtain ⟨hstep, hsteps⟩ := List.forall_mem_cons.1 hfresh
    exact ih (hh.next hl hstep) (hl.next hstep) hsteps

/-! ## The end of the request -/

/-- logged once, and then freed, which is the last call -/
def Finished (calls : List EngineCall) : Prop :=
  ∃ x, calls = x ++ [.freeTransaction] ∧ x.count .processLogging = 1 ∧ .freeTransaction ∉ x

/-- how a transaction ends: logged once and then freed, or given back unused -/
def Disposed (t : Trace) (h : ℕ) : Prop := Finished (t.calls h) ∨ GivenBack t h

theorem Disposed.freed_once {t : Trace} (hd : Disposed t h) : (t.calls h).count .freeTransaction = 1 := by
  rcases hd with ⟨x, hx, -, hfree⟩ | hback
  · rw [hx, List.count_append, List.count_eq_zero_of_not_mem hfree]
    rfl
  · rw [hback.calls]
    rfl

/-- the calls on a registered transaction, up to its end -/
theorem Ledger.finished (hl : Ledger w) (e : Env) (ha : a ∈ w.cleanups) : Finished ((w.destroyed e).calls a) := by
  have hlogged := hl.logged a ha
  have hfree := hl.unfreed a ha
  rw [hl.closing e ha, Ctx.closing]
  cases hlog : (w.ctxs a).logged with
  | true =>
    rw [hlog, if_pos rfl] at hlogged
    exact ⟨w.calls a, rfl, hlogged, hfree⟩
  | false =>
    rw [hlog, if_neg (by decide)] at hlogged
    refine ⟨w.calls a ++ [.processLogging], by simp, ?_, by simpa using hfree⟩
    rw [List.count_append, hlogged]
    rfl

/-- the cleanups make no transaction -/
theorem Closed.handles {l : List ℕ} (hc : Closed w l evs) : evs.handles = [] := by
  induction hc with
  | nil => rfl
  | frees a l rc rest _ _ ih => exact ih
  | logs a l lrc rc rest _ _ ih => exact ih

/-- **The end of the request.** Every transaction that was made for it has been disposed of. -/
theorem Held.disposed (hh : Held w) (hl : Ledger w) (e : Env) :
    ∀ x ∈ (w.destroyed e).trace.handles, x ≠ 0 → Disposed (w.destroyed e).trace x := by
  obtain ⟨hhandle, evs, htr, hclosed⟩ := destroyed_closed hl.nodup e
  intro x hx h0
  rw [htr, Trace.handles_append, hclosed.handles, List.append_nil] at hx
  rcases hh x hx h0 with ⟨a, ha, rfl⟩ | hg
  · have hfinished := hl.finished e ha
    rw [World.calls, hhandle] at hfinished
    exact Or.inl hfinished
  · rw [htr]
    exact Or.inr (hg.append (hclosed.calls_other fun b _ => hl.not_back hg h0 b))

end CorazaNginx
