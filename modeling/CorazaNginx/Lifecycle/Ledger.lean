/-
Who owns which transaction.

`Ledger w`: every context is registered for cleanup or has its handle zeroed; the handles of the registered ones are
distinct, given out by the engine, not freed, and logged as often as their context says, once or not at all. A handler
call works on one transaction (`Ledger.work`), opens a context (`Ledger.opened`) or leaves the registered contexts alone
(`Ledger.beside`), so each keeps the ledger (`Turn.ledger`), and it holds of every run (`Ledger.run`).
-/
import Mathlib.Tactic
import CorazaNginx.Core.History
import CorazaNginx.Lifecycle.Turns

namespace CorazaNginx

open CorazaNginx.Core Prog

variable {e : Env} {w w' : World} {P : EngineCall → Prop} {a b tx : ℕ} {s : St} {evs : Trace}

/-- the handle of the context at `a` -/
def World.handle (w : World) (a : ℕ) : ℕ := (w.ctxs a).corazaTransaction

/-- the engine calls made so far on the transaction of the context at `a` -/
def World.calls (w : World) (a : ℕ) : List EngineCall := w.trace.calls (w.handle a)

structure Ledger (w : World) : Prop where
  installed : ∀ a, w.installed = some a → a < w.ctxCount
  cleanups : ∀ a ∈ w.cleanups, a < w.ctxCount
  nodup : w.cleanups.Nodup
  zeroed : ∀ a, a ∉ w.cleanups → w.handle a = 0
  given : ∀ a ∈ w.cleanups, w.handle a ≠ 0 ∧ w.handle a ∈ w.trace.handles
  distinct : ∀ a ∈ w.cleanups, ∀ b ∈ w.cleanups, w.handle a = w.handle b → a = b
  known : ∀ ev ∈ w.trace, ∀ h, ev.Uses h → h = 0 ∨ h ∈ w.trace.handles
  logged : ∀ a ∈ w.cleanups, (w.calls a).count .processLogging = if (w.ctxs a).logged then 1 else 0
  unfreed : ∀ a ∈ w.cleanups, .freeTransaction ∉ w.calls a

theorem Ledger.start (r : Request) (mainWaf : ℕ) : Ledger (World.start r mainWaf) where
  installed := fun _ h => absurd h (by simp [World.start])
  cleanups := fun _ h => absurd h List.not_mem_nil
  nodup := List.nodup_nil
  zeroed := fun _ _ => rfl
  given := fun _ h => absurd h List.not_mem_nil
  distinct := fun _ h => absurd h List.not_mem_nil
  known := fun _ h => absurd h List.not_mem_nil
  logged := fun _ h => absurd h List.not_mem_nil
  unfreed := fun _ h => absurd h List.not_mem_nil

/-! ## Work on one context -/

@[simp] theorem World.put_self (w : World) (a : ℕ) (s : St) : (w.put a s).ctxs a = s.ctx := Function.update_self _ _ _

theorem World.put_other (w : World) (s : St) (hb : b ≠ a) : (w.put a s).ctxs b = w.ctxs b :=
  Function.update_of_ne hb _ _

theorem World.put_handle (htx : s.ctx.corazaTransaction = w.handle a) (b : ℕ) : (w.put a s).handle b = w.handle b := by
  by_cases hb : b = a
  · subst hb
    rw [World.handle, World.put_self, htx]
  · rw [World.handle, World.put_other w s hb, World.handle]

/-- the transactions of two contexts are different, unless both are zeroed -/
theorem Ledger.handle_ne (h : Ledger w) (hb : b ∈ w.cleanups) (hne : b ≠ a) : w.handle b ≠ w.handle a := by
  intro heq
  by_cases ha : a ∈ w.cleanups
  · exact hne (h.distinct b hb a ha heq)
  · exact (h.given b hb).1 (heq.trans (h.zeroed a ha))

/-- **Work on one context.** Calls on its own transaction, logged in the trace as in the context, keep the ledger. -/
theorem Ledger.work (h : Ledger w) (htr : s.trace = w.trace ++ evs) (hwithin : ∀ ev ∈ evs, ev.Within (w.handle a) P)
    (hfree : ¬ P .freeTransaction) (htx : s.ctx.corazaTransaction = w.handle a)
    (hlog : (evs.calls (w.handle a)).count .processLogging + (if (w.ctxs a).logged then 1 else 0) =
      if s.ctx.logged then 1 else 0) : Ledger (w.put a s) := by
  have htr' : (w.put a s).trace = w.trace ++ evs := htr
  have hhandles : (w.put a s).trace.handles = w.trace.handles := by
    rw [htr', Trace.handles_append, Trace.handles_of_within hwithin, List.append_nil]
  have hcalls : ∀ b, (w.put a s).calls b = w.calls b ++ evs.calls (w.handle b) := by
    intro b
    rw [World.calls, World.put_handle htx, htr', Trace.calls_append]
    rfl
  have hother : ∀ b ∈ w.cleanups, b ≠ a → (w.put a s).calls b = w.calls b := by
    intro b hb hne
    rw [hcalls, Trace.calls_of_within hwithin (h.handle_ne hb hne), List.append_nil]
  refine ⟨h.installed, h.cleanups, h.nodup, fun b hb => ?_, fun b hb => ?_, fun b hb c hc heq => ?_,
    fun ev hev x hx => ?_, fun b hb => ?_, fun b hb => ?_⟩
  · rw [World.put_handle htx]
    exact h.zeroed b hb
  · rw [World.put_handle htx, hhandles]
    exact h.given b hb
  · rw [World.put_handle htx, World.put_handle htx] at heq
    exact h.distinct b hb c hc heq
  · rw [hhandles]
    rw [htr'] at hev
    rcases List.mem_append.1 hev with hev | hev
    · exact h.known ev hev x hx
    · rw [(hwithin ev hev).uses hx]
      by_cases ha : a ∈ w.cleanups
      · exact Or.inr (h.given a ha).2
      · exact Or.inl (h.zeroed a ha)
  · by_cases hne : b = a
    · subst hne
      rw [hcalls, List.count_append, h.logged b hb, Nat.add_comm, hlog, World.put_self]
    · rw [hother b hb hne, h.logged b hb, World.put_other w s hne]
  · by_cases hne : b = a
    · subst hne
      rw [hcalls]
      intro hmem
      rcases List.mem_append.1 hmem with hmem | hmem
      · exact h.unfreed b hb hmem
      · exact hfree (Trace.forall_calls_of_within hwithin _ hmem)
    · rw [hother b hb hne]
      exact h.unfreed b hb

/-- calls none of which logs or frees -/
theorem Ledger.confined (h : Ledger w) (hc : Confined P (w.view a) s) (hlog : ¬ P .processLogging)
    (hfree : ¬ P .freeTransaction) : Ledger (w.put a s) := by
  obtain ⟨evs, htr, hevs⟩ := hc.trace
  refine h.work htr hevs hfree hc.tx ?_
  have hzero : (evs.calls (w.handle a)).count .processLogging = 0 :=
    List.count_eq_zero_of_not_mem fun hmem => hlog (Trace.forall_calls_of_within hevs _ hmem)
  rw [hzero, Nat.zero_add, hc.logged]
  rfl

/-! ## Opening a context -/

/-- a handle that the engine has not given out has not been used -/
theorem Ledger.unused (h : Ledger w) (htx : tx ≠ 0) (hnew : tx ∉ w.trace.handles) :
    (∀ ev ∈ w.trace, ¬ ev.Uses tx) ∧ w.trace.calls tx = [] := by
  have hno : ∀ ev ∈ w.trace, ¬ ev.Uses tx := by
    intro ev hev hu
    rcases h.known ev hev tx hu with h0 | hin
    · exact htx h0
    · exact hnew hin
  refine ⟨hno, List.eq_nil_iff_forall_not_mem.2 fun c hc => ?_⟩
  obtain ⟨rc, hin⟩ := Trace.mem_calls.1 hc
  exact hno _ hin rfl

/-- what a creation adds to the trace: one handle, which is new -/
theorem OpenedBy.fresh {behind : Trace} (h : OpenedBy e w tx evs behind) (hfresh : FreshHandles e) :
    tx ≠ 0 ∧ tx ∉ w.trace.handles ∧ evs.handles = tx :: behind.handles ∧
      (∀ x, evs.calls x = behind.calls x) ∧ ∀ ev ∈ evs, ∀ x, ev.Uses x → ev ∈ behind := by
  obtain ⟨before, waf, id, rfl, rfl, h0, hbefore⟩ := h
  have hnone : before.handles = [] := Trace.handles_of_within fun ev hev => hbefore ev hev 0
  refine ⟨h0, ?_, ?_, fun x => ?_, fun ev hev x hx => ?_⟩
  · intro hin
    apply hfresh (w.trace ++ before) waf id h0
    rw [Trace.handles_append]
    exact List.mem_append_left _ hin
  · rw [Trace.handles_append, hnone, List.nil_append]
    rfl
  · rw [Trace.calls_append, Trace.calls_of_outside hbefore, List.nil_append]
    rfl
  · rcases List.mem_append.1 hev with hev | hev
    · exact absurd hx (hbefore ev hev).not_uses
    · rcases List.mem_cons.1 hev with rfl | hev
      · exact hx.elim
      · exact hev

/-- a cleanup that is registered has to do with no transaction -/
theorem Opened.behind_outside {behind : Trace} (cln : ℤ) (h : ∀ ev ∈ behind, ev.Outside) (x : ℕ) :
    Trace.handles (.call .cleanupAdd cln :: behind) = [] ∧ Trace.calls x (.call .cleanupAdd cln :: behind) = [] := by
  refine ⟨?_, Trace.calls_of_outside h x⟩
  have hnone : behind.handles = [] := Trace.handles_of_within fun ev hev => h ev hev 0
  exact hnone

theorem Opening.handle_other (h : Opening w tx w') (hb : b ≠ w.ctxCount) : w'.handle b = w.handle b := by
  rw [World.handle, h.others b hb, World.handle]

theorem Opening.handle_self (h : Opening w tx w') : w'.handle w.ctxCount = tx := by
  obtain ⟨id, hctx⟩ := h.ctx
  rw [World.handle, hctx]

/-- a creation makes no engine call -/
theorem Opened.calls_eq {behind : Trace} (ho : Opened e w tx evs behind w') (hfresh : FreshHandles e) (x : ℕ) :
    w'.trace.calls x = w.trace.calls x := by
  obtain ⟨cln, -, hev⟩ := ho.events
  obtain ⟨-, -, -, hcalls, -⟩ := hev.fresh hfresh
  rw [ho.trace, Trace.calls_append, hcalls, (Opened.behind_outside cln ho.outside x).2, List.append_nil]

/-- a context with its cleanup registered -/
theorem Ledger.opened {behind : Trace} (h : Ledger w) (hfresh : FreshHandles e) (ho : Opened e w tx evs behind w') :
    Ledger w' := by
  obtain ⟨cln, -, hev⟩ := ho.events
  obtain ⟨h0, hnew, hhandles, hcalls, huses⟩ := hev.fresh hfresh
  have hout := fun x => Opened.behind_outside cln ho.outside x
  have hnot : w.ctxCount ∉ w.cleanups := fun hin => Nat.lt_irrefl _ (h.cleanups _ hin)
  have hne : ∀ b ∈ w.cleanups, b ≠ w.ctxCount := fun b hb => Nat.ne_of_lt (h.cleanups b hb)
  have hgiven : w'.trace.handles = w.trace.handles ++ [tx] := by
    rw [ho.trace, Trace.handles_append, hhandles, (hout 0).1]
  have hsame := ho.calls_eq hfresh
  have hself := ho.toOpening.handle_self
  obtain ⟨id, hctx⟩ := ho.ctx
  refine ⟨fun a ha => ?_, fun a ha => ?_, ?_, fun a ha => ?_, fun a ha => ?_, fun a ha b hb heq => ?_,
    fun ev hev' x hx => ?_, fun a ha => ?_, fun a ha => ?_⟩
  · rw [ho.installed] at ha
    rw [ho.ctxCount]
    cases ha
    exact Nat.lt_succ_self _
  · rw [ho.cleanups] at ha
    rw [ho.ctxCount]
    rcases List.mem_cons.1 ha with rfl | ha
    · exact Nat.lt_succ_self _
    · exact Nat.lt_succ_of_lt (h.cleanups a ha)
  · rw [ho.cleanups]
    exact List.nodup_cons.2 ⟨hnot, h.nodup⟩
  · rw [ho.cleanups, List.mem_cons, not_or] at ha
    rw [ho.toOpening.handle_other ha.1]
    exact h.zeroed a ha.2
  · rw [hgiven]
    rw [ho.cleanups] at ha
    rcases List.mem_cons.1 ha with rfl | ha
    · rw [hself]
      exact ⟨h0, List.mem_append_right _ (List.mem_singleton_self _)⟩
    · rw [ho.toOpening.handle_other (hne a ha)]
      exact ⟨(h.given a ha).1, List.mem_append_left _ (h.given a ha).2⟩
  · -- the new handle is none of the old ones
    have hdiff : ∀ c ∈ w.cleanups, w'.handle c ≠ tx := by
      intro c hc heq
      rw [ho.toOpening.handle_other (hne c hc)] at heq
      exact hnew (heq ▸ (h.given c hc).2)
    rw [ho.cleanups] at ha hb
    rcases List.mem_cons.1 ha with rfl | ha
    · rcases List.mem_cons.1 hb with rfl | hb
      · rfl
      · exact absurd (heq.symm.trans hself) (hdiff b hb)
    · rcases List.mem_cons.1 hb with rfl | hb
      · exact absurd (heq.trans hself) (hdiff a ha)
      · rw [ho.toOpening.handle_other (hne a ha), ho.toOpening.handle_other (hne b hb)] at heq
        exact h.distinct a ha b hb heq
  · rw [hgiven]
    rw [ho.trace] at hev'
    rcases List.mem_append.1 hev' with hev' | hev'
    · rcases h.known ev hev' x hx with h0 | hin
      · exact Or.inl h0
      · exact Or.inr (List.mem_append_left _ hin)
    · rcases List.mem_cons.1 (huses ev hev' x hx) with rfl | hbehind
      · exact hx.elim
      · exact absurd hx (ho.outside ev hbehind).not_uses
  · rw [ho.cleanups] at ha
    rcases List.mem_cons.1 ha with rfl | ha
    · rw [World.calls, hself, hsame, (h.unused h0 hnew).2, hctx]
      rfl
    · rw [World.calls, ho.toOpening.handle_other (hne a ha), hsame, ho.others a (hne a ha)]
      exact h.logged a ha
  · rw [ho.cleanups] at ha
    rcases List.mem_cons.1 ha with rfl | ha
    · rw [World.calls, hself, hsame, (h.unused h0 hnew).2]
      exact List.not_mem_nil
    · rw [World.calls, ho.toOpening.handle_other (hne a ha), hsame]
      exact h.unfreed a ha

/-! ## Beside the ledger -/

/-- **Beside the ledger.** What touches no registered context, and calls nothing on its transaction, keeps the
ledger. -/
theorem Ledger.beside (h : Ledger w) (hinst : ∀ a, w'.installed = some a → a < w'.ctxCount)
    (hcount : w.ctxCount ≤ w'.ctxCount) (hcleanups : w'.cleanups = w.cleanups)
    (hctxs : ∀ b ∈ w.cleanups, w'.ctxs b = w.ctxs b) (hzeroed : ∀ b, b ∉ w.cleanups → w'.handle b = 0)
    (htr : w'.trace = w.trace ++ evs) (hcalls : ∀ b ∈ w.cleanups, evs.calls (w.handle b) = [])
    (hknown : ∀ ev ∈ evs, ∀ x, ev.Uses x → x = 0 ∨ x ∈ w'.trace.handles) : Ledger w' := by
  have hhandle : ∀ b ∈ w.cleanups, w'.handle b = w.handle b := by
    intro b hb
    rw [World.handle, hctxs b hb, World.handle]
  have hsame : ∀ b ∈ w.cleanups, w'.calls b = w.calls b := by
    intro b hb
    rw [World.calls, hhandle b hb, htr, Trace.calls_append, hcalls b hb, List.append_nil, World.calls]
  have hkept : ∀ x ∈ w.trace.handles, x ∈ w'.trace.handles := by
    intro x hx
    rw [htr, Trace.handles_append]
    exact List.mem_append_left _ hx
  refine ⟨hinst, ?_, ?_, ?_, ?_, ?_, ?_, ?_, ?_⟩ <;> try rw [hcleanups]
  · intro a ha
    exact Nat.lt_of_lt_of_le (h.cleanups a ha) hcount
  · exact h.nodup
  · exact hzeroed
  · intro a ha
    rw [hhandle a ha]
    exact ⟨(h.given a ha).1, hkept _ (h.given a ha).2⟩
  · intro a ha b hb heq
    rw [hhandle a ha, hhandle b hb] at heq
    exact h.distinct a ha b hb heq
  · intro ev hev x hx
    rw [htr] at hev
    rcases List.mem_append.1 hev with hev | hev
    · exact (h.known ev hev x hx).imp_right (hkept x)
    · exact hknown ev hev x hx
  · intro a ha
    rw [hsame a ha, h.logged a ha, hctxs a ha]
  · intro a ha
    rw [hsame a ha]
    exact h.unfreed a ha

/-- events that have to do with no transaction -/
theorem Ledger.outside (h : Ledger w) (hinst : w'.installed = w.installed) (hcount : w'.ctxCount = w.ctxCount)
    (hcleanups : w'.cleanups = w.cleanups) (hctxs : w'.ctxs = w.ctxs) (htr : w'.trace = w.trace ++ evs)
    (hevs : ∀ ev ∈ evs, (∀ x, ¬ ev.Uses x)) : Ledger w' := by
  have hnone : ∀ x, evs.calls x = [] := by
    intro x
    refine List.eq_nil_iff_forall_not_mem.2 fun c hc => ?_
    obtain ⟨rc, hin⟩ := Trace.mem_calls.1 hc
    exact hevs _ hin x rfl
  refine h.beside ?_ (Nat.le_of_eq hcount.symm) hcleanups ?_ ?_ htr (fun b _ => hnone _)
    fun ev hev x hx => absurd hx (hevs ev hev x)
  · rw [hinst, hcount]
    exact h.installed
  · rw [hctxs]
    exact fun _ _ => rfl
  · intro b hb
    rw [World.handle, hctxs]
    exact h.zeroed b hb

/-- the cleanup could not be registered -/
theorem Ledger.abandoned {rc : ℤ} (h : Ledger w) (hfresh : FreshHandles e) (ho : Opening w 0 w')
    (htr : w'.trace = w.trace ++ evs)
    (hev : OpenedBy e w tx evs [.call .cleanupAdd 0, .call (.engine tx .freeTransaction) rc])
    (hcleanups : w'.cleanups = w.cleanups) : Ledger w' := by
  obtain ⟨-, hnew, hhandles, hcalls, huses⟩ := hev.fresh hfresh
  have hne : ∀ b ∈ w.cleanups, b ≠ w.ctxCount := fun b hb => Nat.ne_of_lt (h.cleanups b hb)
  refine h.beside ?_ ?_ hcleanups ?_ ?_ htr ?_ ?_
  · intro a ha
    rw [ho.installed] at ha
    rw [ho.ctxCount]
    cases ha
    exact Nat.lt_succ_self _
  · rw [ho.ctxCount]
    exact Nat.le_succ _
  · exact fun b hb => ho.others b (hne b hb)
  · intro b hb
    by_cases heq : b = w.ctxCount
    · subst heq
      exact ho.handle_self
    · rw [ho.handle_other heq]
      exact h.zeroed b hb
  · intro b hb
    rw [hcalls]
    have hdiff : tx ≠ w.handle b := fun heq => hnew (heq ▸ (h.given b hb).2)
    simp [Trace.calls, hdiff]
  · intro ev hev' x hx
    rw [htr, Trace.handles_append, hhandles]
    have hx' : x = tx := by
      rcases List.mem_cons.1 (huses ev hev' x hx) with rfl | hin
      · exact hx.elim
      · rw [List.mem_singleton.1 hin] at hx
        exact hx.symm
    rw [hx']
    exact Or.inr (List.mem_append_right _ List.mem_cons_self)

/-- **Creating a context keeps the ledger.** -/
theorem Created.ledger {res : Option ℕ} (hc : Created e w res w') (h : Ledger w) (hfresh : FreshHandles e) :
    Ledger w' := by
  cases hc with
  | refused evs hevs =>
    refine h.outside rfl rfl rfl rfl rfl fun ev hev x => ?_
    rcases hevs ev hev with hout | ⟨waf, id, rc, rfl, -⟩
    · exact hout.not_uses
    · exact not_false
  | abandoned tx evs rc w' opening trace events cleanups => exact h.abandoned hfresh opening trace events cleanups
  | unkept tx evs behind w' opened => exact h.opened hfresh opened
  | created tx evs behind w' opened => exact h.opened hfresh opened

/-! ## One call -/

/-- the calls of the rewrite handler on the context it has created: nothing is freed, and the log is as the context
says -/
theorem RewriteCalls.logged {t : St} (hc : RewriteCalls s t) (hlog : s.ctx.logged = false) :
    ∃ evs, t.trace = s.trace ++ evs ∧ (∀ ev ∈ evs, ev.Within s.ctx.corazaTransaction (· ≠ .freeTransaction)) ∧
      t.ctx.corazaTransaction = s.ctx.corazaTransaction ∧
      (evs.calls s.ctx.corazaTransaction).count .processLogging = if t.ctx.logged then 1 else 0 := by
  -- a stretch in which nothing is logged
  have unlogged : ∀ {P : EngineCall → Prop} {evs : Trace}, (∀ ev ∈ evs, ev.Within s.ctx.corazaTransaction P) →
      ¬ P .processLogging → (evs.calls s.ctx.corazaTransaction).count .processLogging = 0 := by
    intro P evs hevs hP
    exact List.count_eq_zero_of_not_mem fun hmem => hP (Trace.forall_calls_of_within hevs _ hmem)
  have before : ∀ {evs : Trace}, (∀ ev ∈ evs, ev.Within s.ctx.corazaTransaction EngineCall.BeforePhase1) →
      ∀ ev ∈ evs, ev.Within s.ctx.corazaTransaction (· ≠ .freeTransaction) := by
    intro evs hevs ev hev
    exact (hevs ev hev).mono fun c hc heq => by subst heq; exact hc.elim
  cases hc with
  | stopped h =>
    obtain ⟨evs, rfl, hevs, -⟩ := h
    refine ⟨evs, rfl, ?_, rfl, ?_⟩
    · intro ev hev
      exact (hevs ev hev).mono fun c hc heq => by subst heq; exact hc.elim
    · rw [unlogged hevs id, St.logs_ctx, hlog]
      rfl
  | tooLong evs marked hevs =>
    subst marked
    refine ⟨evs, rfl, before hevs, rfl, ?_⟩
    rw [unlogged hevs id]
    change 0 = if s.ctx.logged = true then 1 else 0
    rw [hlog]
    rfl
  | evaluated evs rest pret htr hevs hb =>
    refine ⟨evs ++ .call (.engine s.ctx.corazaTransaction .processRequestHeaders) pret :: rest, ?_, ?_, hb.tx, ?_⟩
    · rw [htr, List.append_assoc]
    · refine List.forall_mem_append.2 ⟨before hevs, List.forall_mem_cons.2 ⟨⟨rfl, nofun⟩, ?_⟩⟩
      intro ev hev
      exact (hb.within ev hev).mono fun c hc heq => by subst heq; exact hc.elim
    · have hne : EngineCall.processRequestHeaders ≠ .processLogging := nofun
      have hcount : ∀ l : List EngineCall, (EngineCall.processRequestHeaders :: l).count .processLogging =
          l.count .processLogging := fun l => List.count_cons_of_ne hne
      have hcons : Trace.calls s.ctx.corazaTransaction
          (.call (.engine s.ctx.corazaTransaction .processRequestHeaders) pret :: rest) =
          .processRequestHeaders :: rest.calls s.ctx.corazaTransaction := by simp [Trace.calls]
      rw [Trace.calls_append, List.count_append, unlogged hevs id, Nat.zero_add, hcons, hcount]
      rcases hb.logging with ⟨hl, hnot⟩ | ⟨hl, ⟨status, heq⟩, -⟩
      · rw [List.count_eq_zero_of_not_mem hnot, hl]
        rfl
      · rw [heq, hl]
        rfl

/-- the calls of the header filter: nothing is freed or logged -/
theorem HeaderCalls.unlogged {rc : ℤ} {t : St} (hc : HeaderCalls s rc t) :
    ∃ evs, t.trace = s.trace ++ evs ∧
      (∀ ev ∈ evs, ev.Within s.ctx.corazaTransaction fun c => c ≠ .freeTransaction ∧ c ≠ .processLogging) ∧
      t.ctx.corazaTransaction = s.ctx.corazaTransaction ∧ t.ctx.logged = s.ctx.logged := by
  have hadd : ∀ {evs : Trace}, (∀ ev ∈ evs, ev.Within s.ctx.corazaTransaction EngineCall.AddsResponseHeader) →
      ∀ ev ∈ evs, ev.Within s.ctx.corazaTransaction fun c => c ≠ .freeTransaction ∧ c ≠ .processLogging := by
    intro evs hevs ev hev
    exact (hevs ev hev).mono fun c hc =>
      ⟨fun heq => by subst heq; exact hc.elim, fun heq => by subst heq; exact hc.elim⟩
  cases hc with
  | broke evs t htr hevs _ htx hlog => exact ⟨evs, htr, hadd hevs, htx, hlog⟩
  | evaluated evs rest status pret rc version t htr hevs hrest htx hlog =>
    refine ⟨evs ++ .call (.engine s.ctx.corazaTransaction (.processResponseHeaders status version)) pret :: rest, ?_,
      ?_, htx, hlog⟩
    · rw [htr, List.append_assoc]
    · refine List.forall_mem_append.2 ⟨hadd hevs, List.forall_mem_cons.2 ⟨⟨rfl, nofun, nofun⟩, ?_⟩⟩
      intro ev hev
      exact (hrest ev hev).mono fun c hc =>
        ⟨fun heq => by subst heq; exact hc.elim, fun heq => by subst heq; exact hc.elim⟩

/-- **One call.** Every handler call keeps the ledger. -/
theorem Turn.ledger {callback : Callback} {rc : ℤ} (ht : Turn e w callback rc w') (h : Ledger w)
    (hfresh : FreshHandles e) :
    Ledger w' := by
  cases ht with
  | idle callback rc s evs _ htr hout => exact h.outside rfl rfl rfl rfl htr fun ev hev _ => (hout ev hev).not_uses
  | quiet callback rc a s _ _ hc => exact h.confined hc id id
  | preAccess rc a s _ _ hc => exact h.confined hc id id
  | header rc a s _ _ _ hc =>
    obtain ⟨evs, htr, hevs, htx, hlog⟩ := hc.unlogged
    refine h.work htr hevs (fun hP => hP.1 rfl) htx ?_
    have hzero : (evs.calls (w.handle a)).count .processLogging = 0 :=
      List.count_eq_zero_of_not_mem fun hmem => (Trace.forall_calls_of_within hevs _ hmem).2 rfl
    rw [hzero, Nat.zero_add, hlog]
    rfl
  | body inn rc a s _ _ hc => exact h.confined hc id id
  | log rc a _ hunlogged ret =>
    have hwithin : ∀ ev ∈ [Event.call (.engine (w.handle a) .processLogging) ret],
        ev.Within (w.handle a) (· = .processLogging) := by
      intro ev hev
      rw [List.mem_singleton.1 hev]
      exact ⟨rfl, rfl⟩
    refine h.work rfl hwithin nofun rfl ?_
    simp [Trace.calls, World.handle, hunlogged]
  | denied w' _ hc => exact hc.ledger h hfresh
  | rewrite rc w'' s _ hc hcalls =>
    have hw := hc.ledger h hfresh
    obtain ⟨tx, evs, behind, ho⟩ := hc.opened
    obtain ⟨id, hctx⟩ := ho.ctx
    have hlog : (w''.ctxs w.ctxCount).logged = false := by rw [hctx]
    obtain ⟨evs, htr, hevs, htx, hcount⟩ := hcalls.logged hlog
    refine hw.work htr hevs (fun hP => hP rfl) htx ?_
    rw [hlog]
    exact hcount

/-! ## Runs -/

/-- the engine, as the step finds it, gives every transaction a handle of its own -/
def Step.GivesFresh : Step → Prop
  | .call _ e _ => FreshHandles e
  | .clearCtx => True

/-- nginx may change the request between two calls -/
theorem Ledger.setR (h : Ledger w) (r : Request) : Ledger (w.setR r) :=
  ⟨h.installed, h.cleanups, h.nodup, h.zeroed, h.given, h.distinct, h.known, h.logged, h.unfreed⟩

theorem Ledger.next {step : Step} (h : Ledger w) (hfresh : step.GivesFresh) : Ledger (w.next step) := by
  cases step with
  | clearCtx => exact ⟨nofun, h.cleanups, h.nodup, h.zeroed, h.given, h.distinct, h.known, h.logged, h.unfreed⟩
  | call callback e r =>
    have hw := (turn_spec callback e (w.setR r)).ledger (h.setR r) hfresh
    exact ⟨hw.installed, hw.cleanups, hw.nodup, hw.zeroed, hw.given, hw.distinct, hw.known, hw.logged, hw.unfreed⟩

/-- **Every run.** -/
theorem Ledger.run {steps : List Step} (h : Ledger w) (hfresh : ∀ step ∈ steps, step.GivesFresh) :
    Ledger (w.run steps) := by
  induction steps generalizing w with
  | nil => exact h
  | cons step steps ih =>
    obtain ⟨hstep, hsteps⟩ := List.forall_mem_cons.1 hfresh
    exact ih (h.next hstep) hsteps

end CorazaNginx
