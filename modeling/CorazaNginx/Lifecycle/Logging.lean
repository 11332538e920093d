/-
The end of a request: the pool is destroyed, which runs `ngx_http_coraza_cleanup` for every context registered.

`Closed w l evs`: the cleanups of the contexts `l` have made `evs`, one stretch for each context, the log first where
the context has not been logged. Each stretch is on a transaction of its own, since the ledger keeps the handles
distinct, so the calls on a registered transaction are what the run has made, and the stretch behind it.
-/
import Mathlib.Tactic
import CorazaNginx.Lifecycle.Ledger

namespace CorazaNginx

open CorazaNginx.Core Prog

variable {e : Env} {w w' : World} {a tx : ℕ} {l : List ℕ} {evs : Trace}

/-! ## The cleanups -/

/-- the events of the cleanups of the contexts `l` -/
inductive Closed (w : World) : List ℕ → Trace → Prop where
  | nil : Closed w [] []
  /-- the context has been logged -/
  | frees (a : ℕ) (l : List ℕ) (rc : ℤ) (rest : Trace) (logged : (w.ctxs a).logged = true) (h : Closed w l rest) :
      Closed w (a :: l) (.call (.engine (w.handle a) .freeTransaction) rc :: rest)
  | logs (a : ℕ) (l : List ℕ) (lrc rc : ℤ) (rest : Trace) (unlogged : (w.ctxs a).logged = false) (h : Closed w l rest) :
      Closed w (a :: l) (.call (.engine (w.handle a) .processLogging) lrc ::
        .call (.engine (w.handle a) .freeTransaction) rc :: rest)

/-- the cleanups of `l` look at the contexts in `l` only -/
theorem Closed.congr (h : Closed w' l evs) (hctxs : ∀ a ∈ l, w'.ctxs a = w.ctxs a) : Closed w l evs := by
  induction h with
  | nil => exact .nil
  | frees a l rc rest logged _ ih =>
    obtain ⟨ha, hl⟩ := List.forall_mem_cons.1 hctxs
    rw [World.handle, ha]
    rw [ha] at logged
    exact .frees a l rc rest logged (ih hl)
  | logs a l lrc rc rest unlogged _ ih =>
    obtain ⟨ha, hl⟩ := List.forall_mem_cons.1 hctxs
    rw [World.handle, ha]
    rw [ha] at unlogged
    exact .logs a l lrc rc rest unlogged (ih hl)

/-- **The cleanups, one by one.** -/
theorem cleanups_closed {ρ : Type} (l : List ℕ) (hnodup : l.Nodup) (e : Env) (w : World) :
    wp (forEach l Hook.cleanup : Hook ρ Unit)
      (fun _ w' => (∀ a, w'.handle a = w.handle a) ∧ ∃ evs, w'.trace = w.trace ++ evs ∧ Closed w l evs)
      (fun _ _ => False) e w := by
  induction l generalizing w with
  | nil => exact ⟨fun _ => rfl, [], (List.append_nil _).symm, .nil⟩
  | cons a l ih =>
    obtain ⟨hnot, hnodup⟩ := List.nodup_cons.1 hnodup
    -- the cleanups behind the first one, which has changed no context but its own
    have rest : ∀ (s : St) (head : Trace), s.trace = w.trace ++ head → s.ctx.corazaTransaction = w.handle a →
        (∀ evs, Closed w l evs → Closed w (a :: l) (head ++ evs)) →
        wp (forEach l Hook.cleanup : Hook ρ Unit)
          (fun _ w' => (∀ b, w'.handle b = w.handle b) ∧ ∃ evs, w'.trace = w.trace ++ evs ∧ Closed w (a :: l) evs)
          (fun _ _ => False) e (w.put a s) := by
      intro s head htr htx hhead
      refine wp_mono (ih hnodup (w.put a s)) (fun _ w' hw' => ?_) (fun _ _ h => h)
      obtain ⟨hhandle, evs, htr', hevs⟩ := hw'
      refine ⟨fun b => (hhandle b).trans (World.put_handle htx b), head ++ evs, ?_, ?_⟩
      · have hput : (w.put a s).trace = w.trace ++ head := htr
        rw [htr', hput, List.append_assoc]
      · apply hhead
        apply hevs.congr
        intro b hb
        exact World.put_other w s fun heq => hnot (heq ▸ hb)
    rw [forEach, wp_bind, Hook.cleanup, Hook.wp_onCtx, wp_bind, wp_get, wp_bind]
    refine (wp_when _ _).2 ⟨fun hlog => ?_, fun hlog => ?_⟩
    · rw [wp_bind, Handler.wp_engine, wp_modify, wp_bind, Handler.wp_engine, wp_pure]
      set lev :=
        Event.call (.engine (w.handle a) .processLogging) (e.ret w.trace (.engine (w.handle a) .processLogging))
        with hlev
      set fev := Event.call (.engine (w.handle a) .freeTransaction)
        (e.ret (w.trace ++ [lev]) (.engine (w.handle a) .freeTransaction)) with hfev
      have hunlogged : (w.ctxs a).logged = false := by simpa using! hlog
      exact rest _ [lev, fev] (List.append_assoc _ _ _) rfl fun evs hevs => .logs a l _ _ evs hunlogged hevs
    · rw [wp_bind, Handler.wp_engine, wp_pure]
      set fev :=
        Event.call (.engine (w.handle a) .freeTransaction) (e.ret w.trace (.engine (w.handle a) .freeTransaction))
        with hfev
      have hlogged : (w.ctxs a).logged = true := by simpa using! hlog
      exact rest _ [fev] rfl rfl fun evs hevs => .frees a l _ evs hlogged hevs

/-- **The pool is destroyed.** -/
theorem destroyed_closed (hnodup : w.cleanups.Nodup) (e : Env) :
    (∀ a, (w.destroyed e).handle a = w.handle a) ∧
      ∃ evs, (w.destroyed e).trace = w.trace ++ evs ∧ Closed w w.cleanups evs :=
  run_state (P := fun w' => (∀ a, w'.handle a = w.handle a) ∧
      ∃ evs, w'.trace = w.trace ++ evs ∧ Closed w w.cleanups evs)
    (wp_mono (cleanups_closed w.cleanups hnodup e w) (fun _ _ h => h) (fun _ _ h => h.elim))

/-! ## What a transaction gets -/

/-- the calls of a cleanup -/
def Ctx.closing (c : Ctx) : List EngineCall :=
  if c.logged then [.freeTransaction] else [.processLogging, .freeTransaction]

/-- a transaction none of the contexts has -/
theorem Closed.calls_other (h : Closed w l evs) (hne : ∀ a ∈ l, w.handle a ≠ tx) : evs.calls tx = [] := by
  induction h with
  | nil => rfl
  | frees a l rc rest _ _ ih =>
    obtain ⟨ha, hl⟩ := List.forall_mem_cons.1 hne
    simpa [Trace.calls, ha] using ih hl
  | logs a l lrc rc rest _ _ ih =>
    obtain ⟨ha, hl⟩ := List.forall_mem_cons.1 hne
    simpa [Trace.calls, ha] using ih hl

/-- the transaction of one of the contexts -/
theorem Closed.calls_own (h : Closed w l evs) (hnodup : l.Nodup)
    (hdistinct : ∀ a ∈ l, ∀ b ∈ l, w.handle a = w.handle b → a = b) (ha : a ∈ l) :
    evs.calls (w.handle a) = (w.ctxs a).closing := by
  induction h with
  | nil => exact absurd ha List.not_mem_nil
  | frees b l rc rest logged hrest ih => ?_
  | logs b l lrc rc rest unlogged hrest ih => ?_
  all_goals
    obtain ⟨hnot, hnodup⟩ := List.nodup_cons.1 hnodup
    have hothers : ∀ c ∈ l, w.handle c ≠ w.handle b := fun c hc heq =>
      hnot (hdistinct c (List.mem_cons_of_mem b hc) b List.mem_cons_self heq ▸ hc)
    rcases List.mem_cons.1 ha with rfl | ha
  · have hnone : rest.calls (w.handle a) = [] := hrest.calls_other hothers
    rw [Trace.calls] at hnone
    simp [Trace.calls, Ctx.closing, logged, hnone]
  · have htail := ih hnodup (fun c hc d hd => hdistinct c (List.mem_cons_of_mem b hc) d (List.mem_cons_of_mem b hd)) ha
    rw [Trace.calls] at htail
    simp [Trace.calls, (hothers a ha).symm, htail]
  · have hnone : rest.calls (w.handle a) = [] := hrest.calls_other hothers
    rw [Trace.calls] at hnone
    simp [Trace.calls, Ctx.closing, unlogged, hnone]
  · have htail := ih hnodup (fun c hc d hd => hdistinct c (List.mem_cons_of_mem b hc) d (List.mem_cons_of_mem b hd)) ha
    rw [Trace.calls] at htail
    simp [Trace.calls, (hothers a ha).symm, htail]

theorem Ledger.closing (h : Ledger w) (e : Env) (ha : a ∈ w.cleanups) :
    (w.destroyed e).calls a = w.calls a ++ (w.ctxs a).closing := by
  obtain ⟨hhandle, evs, htr, hclosed⟩ := destroyed_closed h.nodup e
  rw [World.calls, hhandle, htr, Trace.calls_append, hclosed.calls_own h.nodup h.distinct ha, World.calls]

/-! ## The audit record -/

/-- logged once and freed once, the log first -/
structure LoggedThenFreed (calls : List EngineCall) : Prop where
  logged : calls.count .processLogging = 1
  freed : calls.count .freeTransaction = 1
  order : ∃ x y, calls = x ++ .processLogging :: y ++ [.freeTransaction]

/-- **Logged once, then freed.** In every run of a request every transaction whose cleanup is registered is logged
exactly once and freed exactly once, and logged before it is freed. -/
theorem logged_once_then_freed (r : Request) (mainWaf : ℕ) (steps : List Step) (e : Env)
    (hfresh : ∀ step ∈ steps, step.GivesFresh) :
    ∀ a ∈ ((World.start r mainWaf).run steps).cleanups,
      LoggedThenFreed ((((World.start r mainWaf).run steps).destroyed e).calls a) := by
  intro a ha
  have h := (Ledger.start r mainWaf).run hfresh
  set w := (World.start r mainWaf).run steps
  have hlogged := h.logged a ha
  have hfree : (w.calls a).count .freeTransaction = 0 := List.count_eq_zero_of_not_mem (h.unfreed a ha)
  rw [h.closing e ha, Ctx.closing]
  cases hl : (w.ctxs a).logged with
  | true =>
    rw [hl, if_pos rfl] at hlogged
    obtain ⟨x, y, hxy⟩ := List.append_of_mem (List.count_pos_iff.1 (by omega : 0 < (w.calls a).count .processLogging))
    refine ⟨?_, ?_, x, y, ?_⟩
    · rw [if_pos rfl, List.count_append, hlogged]
      rfl
    · rw [if_pos rfl, List.count_append, hfree]
      rfl
    · rw [if_pos rfl, hxy]
  | false =>
    rw [hl, if_neg (by decide)] at hlogged
    refine ⟨?_, ?_, w.calls a, [], ?_⟩
    · rw [if_neg (by decide), List.count_append, hlogged]
      rfl
    · rw [if_neg (by decide), List.count_append, hfree]
      rfl
    · rw [if_neg (by decide), List.append_assoc]
      rfl

/-- a request that an internal redirect takes to another location, whose context is logged in the LOG phase -/
def redirected : List Step :=
  [.call .rewrite .counting {}, .call .header .counting {}, .clearCtx, .call .rewrite .counting {},
  .call .log .counting {}]

/-- the first context is logged by its cleanup, the second in the LOG phase -/
theorem logged_once_then_freed_redirected :
    ((World.start {} 7).run redirected).cleanups = [1, 0] ∧
      ∀ a ∈ [1, 0], LoggedThenFreed ((((World.start {} 7).run redirected).destroyed .counting).calls a) := by
  have hcleanups : ((World.start {} 7).run redirected).cleanups = [1, 0] := by decide +kernel
  refine ⟨hcleanups, ?_⟩
  rw [← hcleanups]
  refine logged_once_then_freed {} 7 redirected .counting fun step hstep => ?_
  simp only [redirected, List.mem_cons, List.not_mem_nil, or_false] at hstep
  rcases hstep with rfl | rfl | rfl | rfl | rfl <;> first | exact Env.counting_fresh | exact trivial

end CorazaNginx
