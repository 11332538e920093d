/-
An intervention is final.

A handler that finds its context marked returns, or hands on what it was given (`PassesOn`, `callback_passes`); the
callback for a body that was asked for before the mark still resumes the phases, and the log handler logs what has not
been logged. What handlers do on other contexts of the request has to do with other transactions (`Turn.elsewhere`). So
once a context has been marked, it stays marked whatever nginx calls on the request, and its transaction sees no
evaluation, no append and no poll any more, only that it is logged (`intervention_final`).
-/
import Mathlib.Tactic
import CorazaNginx.Lifecycle.Ledger
import CorazaNginx.Request.Suspension

namespace CorazaNginx

open CorazaNginx.Core Prog

variable {e : Env} {w w' : World} {a : ℕ}

/-! ## On the marked context -/

/-- what a handler adds to the trace when the context `ctx` it finds is marked -/
inductive PassesOn (r : Request) (ctx : Ctx) : Callback → Trace → Prop where
  | nothing (callback : Callback) (h : callback ≠ .header) : PassesOn r ctx callback []
  | headers (rc : ℤ) : PassesOn r ctx .header [.call (.nextHeader r.headersOut r.headerOnly) rc]
  | chain (c : Content) (inn : List Buf) (rc : ℤ) :
      PassesOn r ctx (.body inn) [.call (.nextBody ((inLinks inn).map (Link.hand c inn))) rc]
  /-- the callback of a suspension resumes the phases, whether the context is marked or not -/
  | resumed (rc : ℤ) (waiting : ctx.waitingMoreBody = true) : PassesOn r ctx .requestRead [.call .runPhases rc]
  | logged (rc : ℤ) (unlogged : ctx.logged = false) :
      PassesOn r ctx .log [.call (.engine ctx.corazaTransaction .processLogging) rc]

/-- the context at `a` is marked, and stays the context of its transaction -/
structure Passed (w : World) (a : ℕ) (callback : Callback) (w' : World) : Prop where
  trace : ∃ evs, w'.trace = w.trace ++ evs ∧ PassesOn w.r (w.ctxs a) callback evs
  marked : (w'.ctxs a).interventionTriggered = true
  handle : w'.handle a = w.handle a

theorem Passed.unchanged {callback : Callback} (h : callback ≠ .header) (hm : (w.ctxs a).interventionTriggered = true) :
    Passed w a callback w := ⟨⟨[], (List.append_nil _).symm, .nothing callback h⟩, hm, rfl⟩

/-- what a handler has left on the context -/
theorem Passed.put {callback : Callback} {s : St} {evs : Trace} (htr : s.trace = w.trace ++ evs)
    (hevs : PassesOn w.r (w.ctxs a) callback evs) (hm : s.ctx.interventionTriggered = true)
    (htx : s.ctx.corazaTransaction = w.handle a) : Passed w a callback (w.put a s) where
  trace := ⟨evs, htr, hevs⟩
  marked := by rw [World.put_self, hm]
  handle := World.put_handle htx a

theorem rewrite_passes (hin : w.installed = some a) (hm : (w.ctxs a).interventionTriggered = true) :
    wp Hook.rewrite (fun _ => Passed w a .rewrite) (fun _ => Passed w a .rewrite) e w := by
  rw [Hook.rewrite, wp_bind, wp_get, wp_bind]
  refine (wp_when _ _).2 ⟨fun _ => .unchanged (by simp) hm, fun _ => ?_⟩
  rw [hin]
  exact .unchanged (by simp) hm

theorem preAccess_passes (hin : w.installed = some a) (hm : (w.ctxs a).interventionTriggered = true) :
    wp Hook.preAccess (fun _ => Passed w a .preAccess) (fun _ => Passed w a .preAccess) e w := by
  have hself : Passed w a .preAccess (w.put a (w.view a)) := by
    rw [World.put_view]
    exact .unchanged (by simp) hm
  rw [Hook.preAccess, wp_bind, wp_get, wp_bind]
  refine (wp_when _ _).2 ⟨fun _ => .unchanged (by simp) hm, fun _ => ?_⟩
  rw [hin]
  dsimp only
  rw [Hook.wp_onCtx, preAccessHandler, wp_call, wp_bind, wp_get, wp_bind]
  refine (wp_when _ _).2 ⟨fun _ => hself, fun _ => ?_⟩
  rw [wp_bind]
  exact (wp_when _ _).2 ⟨fun _ => hself, fun hno => absurd hm hno⟩

theorem requestRead_passes (hin : w.installed = some a) (hm : (w.ctxs a).interventionTriggered = true) :
    wp Hook.requestReadBack (fun _ => Passed w a .requestRead) (fun _ => Passed w a .requestRead) e w := by
  refine requestReadBack_onCtx hin ?_
  cases hw : (w.ctxs a).waitingMoreBody with
  | true =>
    refine requestRead_waiting hw fun t ht => ?_
    obtain ⟨rc, htr⟩ := ht.trace
    exact .put htr (.resumed rc hw) (by rw [ht.ctx]; exact hm) (by rw [ht.ctx]; rfl)
  | false =>
    refine requestRead_without hw fun t htr hctx _ => ?_
    refine .put (htr.trans (List.append_nil _).symm) (.nothing _ (by simp)) ?_ ?_
    · rw [hctx]
      exact hm
    · rw [hctx]
      rfl

theorem header_passes (hin : w.installed = some a) (hm : (w.ctxs a).interventionTriggered = true) :
    wp Hook.header (fun _ => Passed w a .header) (fun _ => Passed w a .header) e w := by
  rw [Hook.header, wp_bind, wp_get, hin]
  dsimp only
  rw [Hook.wp_onCtx, headerFilter, wp_call, wp_bind, wp_get, wp_bind]
  refine (wp_when _ _).2 ⟨fun _ => ?_, fun hno => absurd hm hno⟩
  simp only [nextHeaderFilter, wp_bind, wp_ask, wp_get, Handler.wp_invoke, wp_modify, wp_pure, wp_exit]
  exact .put rfl (.headers _) hm rfl

theorem body_passes (inn : List Buf) (hin : w.installed = some a) (hm : (w.ctxs a).interventionTriggered = true) :
    wp (Hook.body inn) (fun _ => Passed w a (.body inn)) (fun _ => Passed w a (.body inn)) e w := by
  rw [Hook.body, wp_bind, wp_get, hin]
  dsimp only
  rw [Hook.wp_onCtx, bodyFilter, wp_call, wp_bind, wp_modify, wp_bind]
  refine (wp_when _ _).2 ⟨fun hnull => ?_, fun _ => ?_⟩
  · subst hnull
    simp only [nextBodyFilter, wp_bind, wp_ask, wp_get, Handler.wp_invoke, wp_exit]
    exact .put rfl (.chain e.content [] _) hm rfl
  rw [wp_bind, wp_get, wp_bind]
  refine (wp_when _ _).2 ⟨fun _ => ?_, fun hno => absurd hm hno⟩
  rw [wp_bind]
  refine (wp_when _ _).2 ⟨fun _ => ?_, fun _ => ?_⟩
  · rw [wp_bind, bodyFilterConsume, wp_modify, wp_exit]
    exact .put (List.append_nil _).symm (.nothing _ (by simp)) hm rfl
  · simp only [nextBodyFilter, wp_bind, wp_ask, wp_get, Handler.wp_invoke, wp_exit]
    exact .put rfl (.chain e.content inn _) hm rfl

theorem log_passes (hin : w.installed = some a) (hm : (w.ctxs a).interventionTriggered = true) :
    wp Hook.logPhase (fun _ => Passed w a .log) (fun _ => Passed w a .log) e w := by
  have hself : Passed w a .log (w.put a (w.view a)) := by
    rw [World.put_view]
    exact .unchanged (by simp) hm
  rw [Hook.logPhase, wp_bind, wp_get, hin]
  dsimp only
  rw [Hook.wp_onCtx, logHandler, wp_call, wp_bind, wp_get, wp_bind]
  refine (wp_when _ _).2 ⟨fun _ => hself, fun _ => ?_⟩
  rw [wp_bind]
  refine (wp_when _ _).2 ⟨fun _ => hself, fun hlog => ?_⟩
  rw [wp_bind, Handler.wp_engine, wp_bind, wp_modify, wp_pure]
  exact .put rfl (.logged _ (Bool.eq_false_of_not_eq_true hlog)) hm rfl

/-- **One call on the marked context.** -/
theorem callback_passes (callback : Callback) (e : Env) (hin : w.installed = some a)
    (hm : (w.ctxs a).interventionTriggered = true) : Passed w a callback (callback.code.run e w).2 := by
  apply run_state
  cases callback with
  | rewrite => exact rewrite_passes hin hm
  | preAccess => exact preAccess_passes hin hm
  | requestRead => exact requestRead_passes hin hm
  | header => exact header_passes hin hm
  | body inn => exact body_passes inn hin hm
  | log => exact log_passes hin hm

/-! ## On the others -/

/-- the context at `a` is left alone, and so is its transaction -/
structure Elsewhere (w : World) (a : ℕ) (w' : World) : Prop where
  trace : ∃ evs, w'.trace = w.trace ++ evs ∧ ∀ ev ∈ evs, ¬ ev.Uses (w.handle a)
  ctx : w'.ctxs a = w.ctxs a

theorem Elsewhere.handle (h : Elsewhere w a w') : w'.handle a = w.handle a := congrArg Ctx.corazaTransaction h.ctx

theorem Elsewhere.trans {w'' : World} (h : Elsewhere w a w') (h' : Elsewhere w' a w'') : Elsewhere w a w'' := by
  obtain ⟨evs, htr, hevs⟩ := h.trace
  obtain ⟨evs', htr', hevs'⟩ := h'.trace
  rw [h.handle] at hevs'
  refine ⟨⟨evs ++ evs', by rw [htr', htr, List.append_assoc], List.forall_mem_append.2 ⟨hevs, hevs'⟩⟩, ?_⟩
  rw [h'.ctx, h.ctx]

/-- a handler on another context -/
theorem Elsewhere.put {b : ℕ} {s : St} {evs : Trace} {P : EngineCall → Prop} (htr : s.trace = w.trace ++ evs)
    (hevs : ∀ ev ∈ evs, ev.Within (w.handle b) P) (hne : a ≠ b) (hhandle : w.handle a ≠ w.handle b) :
    Elsewhere w a (w.put b s) where
  trace := ⟨evs, htr, fun ev hev hu => hhandle ((hevs ev hev).uses hu)⟩
  ctx := World.put_other w s hne

/-- a context that is created is for another transaction -/
theorem Created.elsewhere {res : Option ℕ} (hc : Created e w res w') (h : Ledger w) (hfresh : FreshHandles e)
    (ha : a ∈ w.cleanups) : Elsewhere w a w' := by
  have hne : a ≠ w.ctxCount := Nat.ne_of_lt (h.cleanups a ha)
  have opened : ∀ {tx evs behind}, Opened e w tx evs behind w' → Elsewhere w a w' := by
    intro tx evs behind ho
    obtain ⟨cln, -, hev⟩ := ho.events
    obtain ⟨-, -, -, -, huses⟩ := hev.fresh hfresh
    refine ⟨⟨evs, ho.trace, fun ev hev hu => ?_⟩, ho.others a hne⟩
    rcases List.mem_cons.1 (huses ev hev _ hu) with rfl | hin
    · exact hu
    · exact (ho.outside ev hin).not_uses hu
  cases hc with
  | refused evs hevs =>
    refine ⟨⟨evs, rfl, fun ev hev => ?_⟩, rfl⟩
    rcases hevs ev hev with hout | ⟨waf, id, rc, rfl, -⟩
    · exact hout.not_uses
    · exact not_false
  | abandoned tx evs rc w' ho htr hev =>
    obtain ⟨-, hnew, -, -, huses⟩ := hev.fresh hfresh
    refine ⟨⟨evs, htr, fun ev hev hu => ?_⟩, ho.others a hne⟩
    have hin := huses ev hev _ hu
    simp only [List.mem_cons, List.not_mem_nil, or_false] at hin
    rcases hin with rfl | rfl
    · exact hu
    · -- the handle that is given up is new
      have htx : tx = w.handle a := hu
      exact hnew (htx ▸ (h.given a ha).2)
  | unkept tx evs behind w' ho => exact opened ho
  | created tx evs behind w' ho => exact opened ho

/-- **One call on another context**, or on none. -/
theorem Turn.elsewhere {callback : Callback} {rc : ℤ} (ht : Turn e w callback rc w') (h : Ledger w)
    (hfresh : FreshHandles e) (ha : a ∈ w.cleanups) (hne : w.installed ≠ some a) : Elsewhere w a w' := by
  have other : ∀ {b}, w.installed = some b → a ≠ b := fun hb heq => hne (heq ▸ hb)
  have confined : ∀ {b s P}, w.installed = some b → Confined P (w.view b) s → Elsewhere w a (w.put b s) := by
    intro b s P hb hc
    obtain ⟨evs, htr, hevs⟩ := hc.trace
    exact .put htr hevs (other hb) (h.handle_ne ha (other hb))
  cases ht with
  | idle callback rc s evs _ htr hout => exact ⟨⟨evs, htr, fun ev hev => (hout ev hev).not_uses⟩, rfl⟩
  | quiet callback rc b s hb _ hc => exact confined hb hc
  | preAccess rc b s hb _ hc => exact confined hb hc
  | header rc b s hb _ _ hc =>
    obtain ⟨evs, htr, hevs, -⟩ := hc.unlogged
    exact .put htr hevs (other hb) (h.handle_ne ha (other hb))
  | body inn rc b s hb _ hc => exact confined hb hc
  | log rc b hb _ ret =>
    refine .put rfl (P := fun _ => True) (fun ev hev => ?_) (other hb) (h.handle_ne ha (other hb))
    rw [List.mem_singleton.1 hev]
    exact ⟨rfl, trivial⟩
  | denied w' _ hc => exact hc.elsewhere h hfresh ha
  | rewrite rc w'' s _ hc hcalls =>
    have hmade := hc.elsewhere h hfresh ha
    have hledger := hc.ledger h hfresh
    have hnew : a ≠ w.ctxCount := Nat.ne_of_lt (h.cleanups a ha)
    obtain ⟨tx, evs, behind, ho⟩ := hc.opened
    obtain ⟨id, hctx⟩ := ho.ctx
    obtain ⟨more, htr, hmore, -⟩ := hcalls.logged (by rw [show (w''.view w.ctxCount).ctx = _ from hctx])
    have hkept : a ∈ w''.cleanups := by
      rw [ho.cleanups]
      exact List.mem_cons_of_mem _ ha
    exact hmade.trans (.put htr hmore hnew (hledger.handle_ne hkept hnew))

/-! ## Runs -/

/-- from `w` on the transaction of the context at `a` is only logged, and the context is marked -/
structure Final (w : World) (a : ℕ) (w' : World) : Prop where
  trace : ∃ evs, w'.trace = w.trace ++ evs ∧
    ∀ ev ∈ evs, ev.Uses (w.handle a) → ∃ rc, ev = .call (.engine (w.handle a) .processLogging) rc
  marked : (w'.ctxs a).interventionTriggered = true
  handle : w'.handle a = w.handle a

theorem Final.trans {w'' : World} (h : Final w a w') (h' : Final w' a w'') : Final w a w'' := by
  obtain ⟨evs, htr, hevs⟩ := h.trace
  obtain ⟨evs', htr', hevs'⟩ := h'.trace
  rw [h.handle] at hevs'
  refine ⟨⟨evs ++ evs', by rw [htr', htr, List.append_assoc], List.forall_mem_append.2 ⟨hevs, hevs'⟩⟩, h'.marked, ?_⟩
  rw [h'.handle, h.handle]

/-- handing on uses no transaction -/
theorem PassesOn.uses {r : Request} {ctx : Ctx} {callback : Callback} {evs : Trace} (h : PassesOn r ctx callback evs) :
    ∀ ev ∈ evs, ev.Uses ctx.corazaTransaction →
      ∃ rc, ev = .call (.engine ctx.corazaTransaction .processLogging) rc := by
  intro ev hev hu
  cases h with
  | nothing => cases hev
  | headers rc =>
    rw [List.mem_singleton.1 hev] at hu
    cases hu
  | chain c inn rc =>
    rw [List.mem_singleton.1 hev] at hu
    cases hu
  | resumed rc waiting =>
    rw [List.mem_singleton.1 hev] at hu
    cases hu
  | logged rc unlogged => exact ⟨rc, List.mem_singleton.1 hev⟩

/-- one thing nginx does with the request -/
theorem Final.next (h : Ledger w) {step : Step} (hfresh : step.GivesFresh) (ha : a ∈ w.cleanups)
    (hm : (w.ctxs a).interventionTriggered = true) : Final w a (w.next step) := by
  cases step with
  | clearCtx => exact ⟨⟨[], (List.append_nil _).symm, fun _ hev => absurd hev List.not_mem_nil⟩, hm, rfl⟩
  | call callback e r =>
    by_cases hin : w.installed = some a
    · have hpass := callback_passes (w := w.setR r) callback e hin hm
      obtain ⟨evs, htr, hevs⟩ := hpass.trace
      exact ⟨⟨evs, htr, hevs.uses⟩, hpass.marked, hpass.handle⟩
    · have hother := (turn_spec callback e (w.setR r)).elsewhere (h.setR r) hfresh ha hin
      obtain ⟨evs, htr, hevs⟩ := hother.trace
      refine ⟨⟨evs, htr, fun ev hev hu => absurd hu (hevs ev hev)⟩, ?_, hother.handle⟩
      exact (congrArg Ctx.interventionTriggered hother.ctx).trans hm

theorem Final.run (h : Ledger w) {steps : List Step} (hfresh : ∀ step ∈ steps, step.GivesFresh) (ha : w.handle a ≠ 0)
    (hm : (w.ctxs a).interventionTriggered = true) : Final w a (w.run steps) := by
  induction steps generalizing w with
  | nil => exact ⟨⟨[], (List.append_nil _).symm, fun _ hev => absurd hev List.not_mem_nil⟩, hm, rfl⟩
  | cons step steps ih =>
    obtain ⟨hstep, hsteps⟩ := List.forall_mem_cons.1 hfresh
    have hin : a ∈ w.cleanups := by
      by_contra hno
      exact ha (h.zeroed a hno)
    have hnext := Final.next h hstep hin hm
    exact hnext.trans (ih (h.next hstep) hsteps (hnext.handle ▸ ha) hnext.marked)

end CorazaNginx
