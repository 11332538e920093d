/-
Suspended requests: every wake-up is accounted for.

The pre-access handler asks nginx for the request body and suspends the request when the body is not there yet; the
callback nginx then runs resumes the phases. All that ties the two together are two flags of the context. `Ctx.stand`
reads them as where the context stands, and every handler call on the request is nothing to that, or one step of
`Core.Awaiting` (`Signalled`): what the filters and the log handler do leaves the flags alone (`Beside`). The callback
acts on whatever context is installed when it comes, so it resumes one that waits or is missed (`World.missed`).
`suspensions_resumed` is what follows for all contexts a request ever gets, in any order of calls.
-/
import Mathlib.Tactic
import CorazaNginx.Core.Awaiting
import CorazaNginx.Moves
import CorazaNginx.Request.PhaseTwo

namespace CorazaNginx

open CorazaNginx.Core Prog Handler

variable {ρ α : Type} {e : Env} {s t u : St} {w w' : World}

/-! ## Where a context stands -/

def Ctx.stand (c : Ctx) : Stand :=
  if c.waitingMoreBody then .waiting else if c.bodyRequested then .settled else .idle

def Event.signal : Event → Option Signal
  | .call .readClientRequestBody rc => some (.ask (rc = ngxAgain))
  | .call .runPhases _ => some .resume
  | _ => none

/-- the requests for a body and the resumptions in a trace -/
def Trace.signals (t : Trace) : List Signal := t.filterMap Event.signal

@[simp] theorem Trace.signals_append (a b : Trace) : Trace.signals (a ++ b) = a.signals ++ b.signals :=
  List.filterMap_append

theorem Event.signal_of_awaits {c : Call} (h : c.awaits = false) (rc : ℤ) : (Event.call c rc).signal = none := by
  cases c <;> first | rfl | cases h

theorem Trace.signals_log {t : Trace} {ev : Event} (h : ev.signal = none) : Trace.signals (t ++ [ev]) = t.signals := by
  have hnone : Trace.signals [ev] = [] := List.filterMap_cons_none h
  rw [Trace.signals_append, hnone, List.append_nil]

/-! ## Everything but the request for the body -/

/-- no signal in between, and the context stands where it stood -/
structure Beside (s t : St) : Prop where
  signals : t.trace.signals = s.trace.signals
  waiting : t.ctx.waitingMoreBody = s.ctx.waitingMoreBody
  requested : t.ctx.bodyRequested = s.ctx.bodyRequested

theorem Beside.refl (s : St) : Beside s s := ⟨rfl, rfl, rfl⟩

theorem Beside.trans (s t u : St) (h : Beside s t) (h' : Beside t u) : Beside s u :=
  ⟨h'.signals.trans h.signals, h'.waiting.trans h.waiting, h'.requested.trans h.requested⟩

/-- a call that is no signal, with what it does to the request -/
theorem Beside.behind {ev : Event} (h : ev.signal = none) (htr : t.trace = s.trace ++ [ev]) (hctx : t.ctx = s.ctx) :
    Beside s t := ⟨by rw [htr, Trace.signals_log h], by rw [hctx], by rw [hctx]⟩

theorem Beside.log {ev : Event} (h : ev.signal = none) : Beside s (s.log ev) := .behind h rfl rfl

theorem phased_beside : Phased fun {_ _} => Guar Beside := by
  refine ⟨.guar Beside.refl Beside.trans, fun h _ => ?_, fun e s => .log rfl, fun h => ?_, fun iv => ?_⟩
  · exact fun e s => Beside.log (Event.signal_of_awaits h _)
  · refine Guar.modify fun s => ⟨?_, (h s).2.2.1, (h s).2.2.2⟩
    rw [(h s).2.1]
  · unfold installRedirect
    cases redirectTarget iv with
    | none => exact Guar.pure Beside.refl ()
    | some data =>
      intro e s
      simp only [installLocation, wp_bind, wp_alloc, wp_when, wp_get, wp_modify]
      have first : Beside s (s.log (.call (.alloc 1) (e.ret s.trace (.alloc 1)))) := .log rfl
      refine ⟨fun _ => ⟨fun _ => ?_, fun _ => ?_⟩, fun _ => first⟩
      · exact .trans _ _ _ first (.behind (Event.signal_of_awaits rfl _) rfl rfl)
      · exact .trans _ _ _ first (.behind (Event.signal_of_awaits rfl _) rfl rfl)

theorem filtered_beside : Filtered fun {_ _} => Guar Beside := by
  refine ⟨phased_beside, fun e s => ?_, fun out e s => ?_, fun status e s => ?_, fun _ _ => ?_, ?_⟩
  · simp only [nextHeaderFilter, wp_bind, wp_ask, wp_get, wp_invoke, wp_modify, wp_pure]
    exact .behind (Event.signal_of_awaits rfl _) rfl rfl
  · simp only [nextBodyFilter, wp_bind, wp_ask, wp_get, wp_invoke]
    exact .behind (Event.signal_of_awaits rfl _) rfl rfl
  · simp only [filterFinalizeRequest, wp_bind, wp_ask, wp_invoke, wp_modify, wp_pure]
    exact .behind (Event.signal_of_awaits rfl _) rfl rfl
  · exact Guar.modify fun _ => ⟨rfl, rfl, rfl⟩
  · exact Guar.modify fun _ => ⟨rfl, rfl, rfl⟩

/-! ## The two handlers -/

/-- the callback resumes a request that waits -/
structure Resumed (s t : St) : Prop where
  trace : ∃ rc, t.trace = s.trace ++ [.call .runPhases rc]
  ctx : t.ctx = { s.ctx with waitingMoreBody := false }

theorem requestRead_waiting (hw : s.ctx.waitingMoreBody = true) {Q : Unit → St → Prop} {E : ρ → St → Prop}
    (hQ : ∀ t, Resumed s t → Q () t) : wp (requestRead : Handler ρ Unit) Q E e s := by
  rw [requestRead, wp_bind, wp_modify, wp_bind, wp_get]
  refine (wp_when _ _).2 ⟨fun _ => ?_, fun hno => absurd hw hno⟩
  rw [wp_bind, wp_modify, wp_bind, wp_invoke]
  exact hQ _ ⟨⟨_, rfl⟩, rfl⟩

/-- and does nothing to one that does not -/
theorem requestRead_without (hw : s.ctx.waitingMoreBody = false) {Q : Unit → St → Prop} {E : ρ → St → Prop}
    (hQ : ∀ t, t.trace = s.trace → t.ctx = s.ctx → t.r.requestBody = s.r.requestBody → Q () t) :
    wp (requestRead : Handler ρ Unit) Q E e s := by
  rw [requestRead, wp_bind, wp_modify, wp_bind, wp_get]
  refine (wp_when _ _).2 ⟨fun hyes => absurd (hw.symm.trans hyes) (by decide), fun _ => hQ _ rfl rfl rfl⟩

/-- the body has been asked for, by a context that had not asked -/
structure AskedOnce (s t : St) : Prop where
  idle : s.ctx.waitingMoreBody = false ∧ s.ctx.bodyRequested = false
  requested : t.ctx.bodyRequested = true
  signals : t.trace.signals = s.trace.signals ++ [.ask t.ctx.waitingMoreBody]

theorem AskedOnce.beside (h : AskedOnce s t) (h' : Beside t u) : AskedOnce s u where
  idle := h.idle
  requested := h'.requested.trans h.requested
  signals := by rw [h'.signals, h.signals, h'.waiting]

/-- nginx calls the callback itself only with the body there, and nobody waits for it then -/
theorem readClientRequestBody_there (hw : s.ctx.waitingMoreBody = false) {Q : ℤ → St → Prop} {E : ρ → St → Prop}
    (hQ : ∀ rc t, t.trace = s.trace ++ [.call .readClientRequestBody rc] → t.ctx = s.ctx →
      t.r.requestBody = e.requestBody s.r → Q rc t) : wp (readClientRequestBody : Handler ρ ℤ) Q E e s := by
  rw [readClientRequestBody, wp_bind, wp_ask, wp_bind, wp_invoke, wp_bind, wp_modify, wp_bind]
  refine (wp_when _ _).2 ⟨fun _ => ?_, fun _ => hQ _ _ rfl rfl rfl⟩
  refine requestRead_without ?_ fun t htr hctx hbody => hQ _ t htr hctx hbody
  exact hw

theorem requestBodyAccess_signals (hw : s.ctx.waitingMoreBody = false) (hr : s.ctx.bodyRequested = false)
    {Q : Unit → St → Prop} {E : ℤ → St → Prop} (hoff : ∀ rc t, Beside s t → E rc t)
    (hleave : ∀ rc t, AskedOnce s t → E rc t) (hgo : ∀ t, AskedOnce s t → Q () t) : wp requestBodyAccess Q E e s := by
  rw [requestBodyAccess, wp_bind, wp_engine, wp_bind]
  set s1 := s.log (.call (.engine s.ctx.corazaTransaction .isRequestBodyAccessible) _) with hs1
  have h1 : Beside s s1 := .log rfl
  refine (wp_when _ _).2 ⟨fun _ => ?_, fun _ => ?_⟩
  · rw [wp_bind]
    refine wp_mono (phased_beside.processRequestBodyPhase e s1) (fun rc t ht => ?_) (fun rc t ht => ?_)
    · exact hoff rc t (.trans _ _ _ h1 ht)
    · exact hoff rc t (.trans _ _ _ h1 ht)
  · rw [wp_bind, wp_modify, wp_bind]
    refine readClientRequestBody_there ?_ fun rc t htr hctx _ => ?_
    · exact hw
    have hsig : t.trace.signals = s.trace.signals ++ [.ask (rc = ngxAgain)] := by
      rw [htr, Trace.signals_append]
      exact congrArg (· ++ [Signal.ask (rc = ngxAgain)]) h1.signals
    -- the flag is what the answer was, once the handler has looked at it
    have hasked : ∀ v : St, v.trace = t.trace → v.ctx.bodyRequested = t.ctx.bodyRequested →
        v.ctx.waitingMoreBody = decide (rc = ngxAgain) → AskedOnce s v := by
      intro v hv hreq hwait
      refine ⟨⟨hw, hr⟩, ?_, ?_⟩
      · rw [hreq, hctx]
        rfl
      · rw [hv, hsig, hwait]
    have hstay : rc ≠ ngxAgain → AskedOnce s t := fun hne =>
      hasked t rfl rfl (by rw [hctx, decide_eq_false hne]; exact hw)
    rw [wp_bind]
    refine (wp_when _ _).2 ⟨fun hbad => ?_, fun _ => ?_⟩
    · refine hleave rc t (hstay ?_)
      rintro rfl
      rcases hbad with hbad | hbad <;> revert hbad <;> decide
    · refine (wp_when _ _).2 ⟨fun hagain => ?_, fun hne => hgo t (hstay hne)⟩
      rw [wp_bind, wp_modify, wp_exit]
      exact hleave _ _ (hasked _ rfl rfl (by rw [decide_eq_true hagain]; rfl))

/-- **One entry.** The handler asks for the body, or leaves the context where it stood. -/
theorem preAccessHandler_signals {Q : ℤ → St → Prop} {E : ρ → St → Prop}
    (hQ : ∀ rc t, Beside s t ∨ AskedOnce s t → Q rc t) :
    wp (preAccessHandler : Handler ρ ℤ) Q E e s := by
  have stay : ∀ rc, Q rc s := fun rc => hQ rc s (Or.inl (.refl s))
  rw [preAccessHandler, wp_call, wp_bind, wp_get, wp_bind]
  refine (wp_when _ _).2 ⟨fun _ => stay _, fun _ => ?_⟩
  rw [wp_bind]
  refine (wp_when _ _).2 ⟨fun _ => stay _, fun _ => ?_⟩
  rw [wp_bind]
  refine (wp_when _ _).2 ⟨fun _ => stay _, fun hwait => ?_⟩
  have hw : s.ctx.waitingMoreBody = false := by simpa using hwait
  -- the submission is beside whatever it comes behind
  have submit : ∀ v, (Beside s v ∨ AskedOnce s v) → wp (do
      let s ← get
      when (!s.ctx.waitingMoreBody && !s.ctx.bodySubmitted) submitRequestBody
      return ngxDeclined : Handler ℤ ℤ) Q Q e v := by
    intro v hv
    have behind : ∀ rc t, Beside v t → Q rc t := fun rc t ht =>
      hQ rc t (hv.imp (fun h => .trans _ _ _ h ht) fun h => h.beside ht)
    rw [wp_bind, wp_get, wp_bind]
    refine wp_mono ((phased_beside.when phased_beside.submitRequestBody) e v) (fun _ t ht => behind _ t ht) behind
  rw [wp_bind]
  refine (wp_when _ _).2 ⟨fun hnew => ?_, fun _ => submit s (Or.inl (.refl s))⟩
  have hr : s.ctx.bodyRequested = false := by simpa using hnew
  refine requestBodyAccess_signals hw hr (fun rc t ht => hQ rc t (Or.inl ht)) (fun rc t ht => hQ rc t (Or.inr ht)) ?_
  exact fun t ht => submit t (Or.inr ht)

/-! ## Every handler -/

/-- where the contexts of a request stand, with the signals so far -/
def World.awaiting (w : World) : Awaiting := ⟨fun a => (w.ctxs a).stand, w.ctxCount, w.trace.signals⟩

/-- the context the handlers find is one of the request's, and only one that has asked waits -/
structure Upright (w : World) : Prop where
  installed : ∀ a, w.installed = some a → a < w.ctxCount
  asked : ∀ a < w.ctxCount, (w.ctxs a).waitingMoreBody = true → (w.ctxs a).bodyRequested = true

/-- no signal, and every context stands where it stood -/
structure Unheard (w w' : World) : Prop where
  grows : w.Grows w'
  signals : w'.trace.signals = w.trace.signals

theorem Unheard.refl (w : World) : Unheard w w := ⟨.refl w, rfl⟩

theorem Unheard.trans (w w' w'' : World) (h : Unheard w w') (h' : Unheard w' w'') : Unheard w w'' :=
  ⟨h.grows.trans h'.grows, h'.signals.trans h.signals⟩

theorem unheard : Compositional (ε := Env) fun {_ _} => Guar Unheard := .guar Unheard.refl Unheard.trans

theorem creates_unheard : Creates fun {_ _} => Guar Unheard := by
  refine ⟨unheard, fun h _ e w => ?_, fun h => Guar.modify fun w => ⟨(h w).2.2, ?_⟩⟩
  · rw [Hook.wp_invoke]
    exact ⟨⟨le_rfl, fun _ _ => ⟨rfl, rfl⟩, fun _ hle hlt => absurd hlt (not_lt.2 hle), Or.inl rfl⟩,
      Trace.signals_log (Event.signal_of_awaits h _)⟩
  · rw [(h w).2.1]

/-- a handler that is beside the request for the body -/
theorem Unheard.put {a : ℕ} (h : Beside (w.view a) s) : Unheard w (w.put a s) where
  grows :=
    { count := le_rfl
      old := by
        intro b _
        by_cases hb : b = a
        · have hself : (w.put a s).ctxs b = s.ctx := hb ▸ Function.update_self _ _ _
          rw [hself, hb]
          exact ⟨h.waiting, h.requested⟩
        · have hother : (w.put a s).ctxs b = w.ctxs b := Function.update_of_ne hb _ _
          rw [hother]
          exact ⟨rfl, rfl⟩
      new := fun _ hle hlt => absurd hlt (not_lt.2 hle)
      installed := Or.inl rfl }
  signals := h.signals

/-- the same without a context -/
theorem Unheard.putBare (h : Beside w.bare s) : Unheard w (w.putBare s) :=
  ⟨⟨le_rfl, fun _ _ => ⟨rfl, rfl⟩, fun _ hle hlt => absurd hlt (not_lt.2 hle), Or.inl rfl⟩, h.signals⟩

theorem hooked_unheard : Hooked (fun {_ _} => Guar Beside) fun {_ _} => Guar Unheard := by
  refine ⟨creates_unheard, filtered_beside, fun a m hm e w => ?_, fun m hm e w => ?_⟩
  · refine (Hook.wp_onCtx a m).2 (wp_mono (hm e (w.view a)) (fun _ _ h => .put h) fun _ _ h => .put h)
  · exact (Hook.wp_offCtx m).2 (wp_mono (hm e w.bare) (fun _ _ h => .putBare h) fun _ _ h => .putBare h)

/-- what a handler call comes to for the contexts that wait -/
inductive Signalled (w w' : World) : Callback → Prop where
  | unheard (callback : Callback) (h : Unheard w w')
      (none : callback = .requestRead → ∀ a, w.installed = some a → (w.ctxs a).waitingMoreBody = false) :
      Signalled w w' callback
  | asked (a : ℕ) (s : St) (inst : w.installed = some a) (h : AskedOnce (w.view a) s) (left : w' = w.put a s) :
      Signalled w w' .preAccess
  | resumed (a : ℕ) (s : St) (inst : w.installed = some a) (waiting : (w.ctxs a).waitingMoreBody = true)
      (h : Resumed (w.view a) s) (left : w' = w.put a s) : Signalled w w' .requestRead

/-- **One call**, of any handler. -/
theorem callback_signalled (callback : Callback) (e : Env) (w : World) :
    Signalled w (callback.code.run e w).2 callback := by
  by_cases hpre : callback = .preAccess
  · subst hpre
    refine run_state (P := fun w' => Signalled w w' .preAccess) (m := Hook.preAccess) ?_
    have stay : Signalled w w .preAccess := .unheard _ (.refl w) fun h => by cases h
    rw [Hook.preAccess, wp_bind, wp_get, wp_bind]
    refine (wp_when _ _).2 ⟨fun _ => stay, fun _ => ?_⟩
    cases hin : w.installed with
    | none => exact stay
    | some a =>
      rw [Hook.wp_onCtx]
      have put : ∀ t, Beside (w.view a) t ∨ AskedOnce (w.view a) t → Signalled w (w.put a t) .preAccess := by
        rintro t (h | h)
        · exact .unheard _ (.put h) fun h => by cases h
        · exact .asked a t hin h rfl
      exact preAccessHandler_signals fun _ t ht => put t ht
  by_cases hread : callback = .requestRead
  · subst hread
    refine run_state (P := fun w' => Signalled w w' .requestRead) (m := Hook.requestReadBack) ?_
    cases hin : w.installed with
    | none =>
      refine requestReadBack_bare hin fun rc => ?_
      have hstill : Unheard w (w.readThroughNull rc) := .putBare ⟨Trace.signals_log rfl, rfl, rfl⟩
      refine .unheard _ hstill fun _ a ha => ?_
      rw [hin] at ha
      cases ha
    | some a =>
      refine requestReadBack_onCtx hin ?_
      cases hw : (w.ctxs a).waitingMoreBody with
      | true => exact requestRead_waiting hw fun t ht => .resumed a t hin hw ht rfl
      | false =>
        refine requestRead_without hw fun t htr hctx _ => ?_
        have hbeside : Beside (w.view a) t := ⟨by rw [htr], by rw [hctx], by rw [hctx]⟩
        refine .unheard _ (.put hbeside) fun _ b hb => ?_
        obtain rfl : a = b := Option.some.inj (hin.symm.trans hb)
        exact hw
  · refine .unheard _ ?_ fun h => absurd h hread
    exact run_state (hooked_unheard.callback callback hpre hread e w)

/-! ## Runs -/

theorem Ctx.stand_congr {c c' : Ctx} (hw : c'.waitingMoreBody = c.waitingMoreBody)
    (hr : c'.bodyRequested = c.bodyRequested) : c'.stand = c.stand := by
  rw [Ctx.stand, Ctx.stand, hw, hr]

/-- only the context at `a` stands elsewhere behind a handler that ran on it -/
theorem World.put_changes {a : ℕ} (ha : a < w.ctxCount) (s : St) :
    Awaiting.Changes a w.awaiting (w.put a s).awaiting where
  bound := ha
  count := rfl
  others := fun _ _ hb => congrArg Ctx.stand (Function.update_of_ne hb _ _)

theorem World.put_stand (w : World) (a : ℕ) (s : St) : (w.put a s).awaiting.stands a = s.ctx.stand :=
  congrArg Ctx.stand (Function.update_self _ _ _)

/-- **One call** is nothing to where the contexts stand, or one step of theirs. -/
theorem Signalled.step {callback : Callback} (h : Signalled w w' callback) (hw : Upright w) :
    w.awaiting.Step w'.awaiting := by
  cases h with
  | unheard _ h _ =>
    refine .grow h.grows.count (fun a ha => ?_) (fun a hle hlt => ?_) h.signals
    · exact Ctx.stand_congr (h.grows.old a ha).1 (h.grows.old a ha).2
    · have hnew := h.grows.new a hle hlt
      change (w'.ctxs a).stand = .idle
      rw [Ctx.stand, hnew.1, hnew.2]
      rfl
  | asked a s inst h left =>
    subst left
    refine .ask a s.ctx.waitingMoreBody (World.put_changes (hw.installed a inst) s) ?_ ?_ h.signals
    · change (w.view a).ctx.stand = .idle
      rw [Ctx.stand, h.idle.1, h.idle.2]
      rfl
    · rw [World.put_stand, Ctx.stand, h.requested]
      rfl
  | resumed a s inst waiting h left =>
    subst left
    have hbound := hw.installed a inst
    obtain ⟨rc, htr⟩ := h.trace
    refine .resume a (World.put_changes hbound s) ?_ ?_ ?_
    · change (w.ctxs a).stand = .waiting
      rw [Ctx.stand, waiting]
      rfl
    · have hreq : (w.view a).ctx.bodyRequested = true := hw.asked a hbound waiting
      rw [World.put_stand, h.ctx, Ctx.stand, hreq]
      rfl
    · change s.trace.signals = w.trace.signals ++ [.resume]
      rw [htr, Trace.signals_append]
      rfl

theorem Signalled.upright {callback : Callback} (h : Signalled w w' callback) (hw : Upright w) : Upright w' := by
  have put : ∀ {a s}, w.installed = some a → (s.ctx.waitingMoreBody = true → s.ctx.bodyRequested = true) →
      Upright (w.put a s) := by
    intro a s inst hs
    refine ⟨hw.installed, fun b hb => ?_⟩
    by_cases hba : b = a
    · have hself : (w.put a s).ctxs b = s.ctx := hba ▸ Function.update_self _ _ _
      rw [hself]
      exact hs
    · have hother : (w.put a s).ctxs b = w.ctxs b := Function.update_of_ne hba _ _
      rw [hother]
      exact hw.asked b hb
  cases h with
  | unheard _ h _ =>
    refine ⟨fun a ha => ?_, fun a ha hwait => ?_⟩
    · rcases h.grows.installed with heq | ⟨b, hb, hin⟩
      · exact (hw.installed a (heq ▸ ha)).trans_le h.grows.count
      · exact Option.some.inj (hin.symm.trans ha) ▸ hb
    · by_cases hold : a < w.ctxCount
      · rw [(h.grows.old a hold).1] at hwait
        rw [(h.grows.old a hold).2]
        exact hw.asked a hold hwait
      · rw [(h.grows.new a (not_lt.1 hold) ha).1] at hwait
        cases hwait
  | asked a s inst h left =>
    subst left
    exact put inst fun _ => h.requested
  | resumed a s inst waiting h left =>
    subst left
    refine put inst fun hwait => ?_
    rw [h.ctx] at hwait
    cases hwait

theorem Upright.start (r : Request) (mainWaf : ℕ) : Upright (World.start r mainWaf) :=
  ⟨fun a h => absurd h (Option.some_ne_none a).symm, fun _ h => absurd h (Nat.not_lt_zero _)⟩

theorem Upright.next (h : Upright w) (step : Step) :
    Upright (w.next step) ∧ w.awaiting.Step (w.next step).awaiting := by
  cases step with
  | call callback e r =>
    have hcall := callback_signalled callback e (w.setR r)
    have hr : Upright (w.setR r) := ⟨h.installed, h.asked⟩
    have hnext := hcall.upright hr
    exact ⟨⟨hnext.installed, hnext.asked⟩, hcall.step hr⟩
  | clearCtx =>
    refine ⟨⟨fun a hin => absurd hin (Option.some_ne_none a).symm, h.asked⟩, ?_⟩
    exact .grow le_rfl (fun _ _ => rfl) (fun _ hle hlt => absurd hlt (not_lt.2 hle)) rfl

/-- a run of the request is a run of its contexts -/
theorem Upright.run (h : Upright w) (steps : List Step) : Upright (w.run steps) ∧
    Relation.ReflTransGen Awaiting.Step w.awaiting (w.run steps).awaiting := by
  induction steps generalizing w with
  | nil => exact ⟨h, .refl⟩
  | cons step steps ih =>
    obtain ⟨hnext, hstep⟩ := h.next step
    obtain ⟨hrun, hsteps⟩ := ih hnext
    exact ⟨hrun, .head hstep hsteps⟩

/-- nginx calls back -/
def Step.wakes : Step → Bool
  | .call .requestRead _ _ => true
  | _ => false

/-- the context that a handler finds now waits -/
def World.waits (w : World) : Bool := w.installed.any fun a => (w.ctxs a).waitingMoreBody

theorem World.waits_iff : w.waits = true ↔ ∃ a, w.installed = some a ∧ (w.ctxs a).waitingMoreBody = true :=
  Option.any_eq_true _ _

theorem World.waits_eq_false_iff :
    w.waits = false ↔ ∀ a, w.installed = some a → (w.ctxs a).waitingMoreBody = false := by
  simp [World.waits, Option.any_eq_false]

/-- how many callbacks of a run find no context that waits -/
def World.missed (w : World) : List Step → ℕ
  | [] => 0
  | step :: steps => (step.wakes && !w.waits).toNat + (w.next step).missed steps

/-- the resumptions in a trace -/
def Trace.resumptions (t : Trace) : ℕ := t.signals.countP (· = .resume)

/-- **One step**: a callback resumes a context or is missed, and nothing else resumes one. -/
theorem World.next_resumptions (w : World) (step : Step) :
    step.wakes.toNat + w.trace.resumptions = (w.next step).trace.resumptions + (step.wakes && !w.waits).toNat := by
  cases step with
  | clearCtx => exact Nat.add_comm _ _
  | call callback e r =>
    have hcall := callback_signalled callback e (w.setR r)
    have htr : (w.next (.call callback e r)).trace = (callback.code.run e (w.setR r)).2.trace := rfl
    rw [htr]
    generalize (callback.code.run e (w.setR r)).2 = w' at hcall
    cases hcall with
    | unheard _ h none =>
      have hsame : w'.trace.resumptions = w.trace.resumptions := by
        rw [Trace.resumptions, h.signals]
        rfl
      rw [hsame]
      cases callback with
      | requestRead =>
        have hno : w.waits = false := World.waits_eq_false_iff.2 (none rfl)
        simp [Step.wakes, hno, Nat.add_comm]
      | _ => simp [Step.wakes]
    | asked a s inst h left =>
      have hsig : w'.trace.signals = w.trace.signals ++ [.ask s.ctx.waitingMoreBody] := by
        rw [left]
        exact h.signals
      simp [Step.wakes, Trace.resumptions, hsig]
    | resumed a s inst waiting h left =>
      have hyes : w.waits = true := World.waits_iff.2 ⟨a, inst, waiting⟩
      obtain ⟨rc, htrace⟩ := h.trace
      have hsig : w'.trace.signals = w.trace.signals ++ [.resume] := by
        rw [left]
        change s.trace.signals = _
        rw [htrace, Trace.signals_append]
        rfl
      simp [Step.wakes, Trace.resumptions, hsig, hyes, Nat.add_comm]

/-- **A run.** -/
theorem World.run_resumptions (w : World) (steps : List Step) :
    steps.countP Step.wakes + w.trace.resumptions = (w.run steps).trace.resumptions + w.missed steps := by
  induction steps generalizing w with
  | nil => exact Nat.add_comm _ _
  | cons step steps ih =>
    have hstep := w.next_resumptions step
    have hrest := ih (w.next step)
    have hrun : w.run (step :: steps) = (w.next step).run steps := rfl
    have hcount : (step :: steps).countP Step.wakes = steps.countP Step.wakes + step.wakes.toNat := by
      rw [List.countP_cons]
      cases step.wakes <;> rfl
    have hmissed : w.missed (step :: steps) = (step.wakes && !w.waits).toNat + (w.next step).missed steps := rfl
    rw [hrun, hcount, hmissed]
    omega

/-- what the next handler calls do while the context they find waits, and who resumes it -/
structure Resumable (w : World) (e : Env) (r : Request) : Prop where
  /-- the handler does nothing when it is entered again, and does not let the request through -/
  entered : ∀ a, w.installed = some a → (w.ctxs a).waitingMoreBody = true →
    Hook.preAccess.run e (w.setR r) =
      (if r.loc.enable = 1 ∧ (w.ctxs a).interventionTriggered = false then ngxDone else ngxDeclined, w.setR r)
  /-- the callback resumes it and the context waits no longer -/
  resumed : ∀ a, w.installed = some a → (w.ctxs a).waitingMoreBody = true →
    ∃ rc, w.events .requestRead e r = [.call .runPhases rc] ∧
      (Hook.requestReadBack.run e (w.setR r)).2.ctxs =
        Function.update w.ctxs a { w.ctxs a with waitingMoreBody := false }
  /-- a callback that is missed changes no context; without one it reads through NULL -/
  missed : w.waits = false → (Hook.requestReadBack.run e (w.setR r)).2.ctxs = w.ctxs ∧
    ∃ rc, w.events .requestRead e r = if w.installed = none then [.call .nullContext rc] else []
  /-- nothing else resumes a request -/
  only : ∀ callback rc, .call .runPhases rc ∈ w.events callback e r → callback = .requestRead ∧ w.waits = true

theorem World.put_view (w : World) (a : ℕ) : w.put a (w.view a) = w := by
  rw [World.put, World.view, Function.update_eq_self]

/-- the handler, entered while the context waits -/
theorem preAccess_again {a : ℕ} (hin : w.installed = some a) (hw : (w.ctxs a).waitingMoreBody = true) (e : Env) :
    Hook.preAccess.run e w =
      (if w.r.loc.enable = 1 ∧ (w.ctxs a).interventionTriggered = false then ngxDone else ngxDeclined, w) := by
  refine Prod.ext_iff.2 ((wp_run (Q := fun rc t => rc = _ ∧ t = w) Hook.preAccess).1 ?_)
  have hsame : w.put a (w.view a) = w := World.put_view w a
  rw [Hook.preAccess, wp_bind, wp_get, wp_bind]
  refine (wp_when _ _).2 ⟨fun hoff => ⟨(if_neg fun h => hoff h.1).symm, rfl⟩, fun hon => ?_⟩
  rw [hin]
  dsimp only
  rw [Hook.wp_onCtx, preAccessHandler, wp_call, wp_bind, wp_get, wp_bind]
  refine (wp_when _ _).2 ⟨fun hoff => absurd hoff hon, fun _ => ?_⟩
  rw [wp_bind]
  refine (wp_when _ _).2 ⟨fun htr => ⟨(if_neg fun h => ?_).symm, hsame⟩, fun htr => ?_⟩
  · exact absurd (h.2.symm.trans htr) (by decide)
  rw [wp_bind]
  refine (wp_when _ _).2 ⟨fun _ => ⟨(if_pos ⟨not_not.1 hon, Bool.eq_false_iff.2 htr⟩).symm, hsame⟩, fun hno => ?_⟩
  exact absurd hw hno

/-- the callback, while the context waits -/
theorem requestReadBack_waiting {a : ℕ} (hin : w.installed = some a) (hw : (w.ctxs a).waitingMoreBody = true)
    (e : Env) : ∃ t, Resumed (w.view a) t ∧ (Hook.requestReadBack.run e w).2 = w.put a t := by
  refine run_state (P := fun w' => ∃ t, Resumed (w.view a) t ∧ w' = w.put a t) (m := Hook.requestReadBack) ?_
  exact requestReadBack_onCtx hin (requestRead_waiting hw fun t ht => ⟨t, ht, rfl⟩)

/-- the callback, when no context waits: it logs nothing but a read through NULL -/
theorem requestReadBack_missed (hno : w.waits = false) (e : Env) :
    (Hook.requestReadBack.run e w).2.ctxs = w.ctxs ∧ ∃ rc, (Hook.requestReadBack.run e w).2.trace =
      w.trace ++ if w.installed = none then [.call .nullContext rc] else [] := by
  refine run_state (P := fun w' => w'.ctxs = w.ctxs ∧ ∃ rc, w'.trace =
    w.trace ++ if w.installed = none then [.call .nullContext rc] else []) (m := Hook.requestReadBack) ?_
  cases hin : w.installed with
  | none => exact requestReadBack_bare hin fun rc => ⟨rfl, rc, rfl⟩
  | some a =>
    have hwait : (w.ctxs a).waitingMoreBody = false := World.waits_eq_false_iff.1 hno a hin
    refine requestReadBack_onCtx hin (requestRead_without hwait fun t htr hctx _ => ⟨?_, 0, ?_⟩)
    · rw [World.put, hctx]
      exact Function.update_eq_self a w.ctxs
    · rw [if_neg (Option.some_ne_none a), List.append_nil]
      exact htr

/-- nothing but the callback of a context that waits runs the phases -/
theorem runPhases_of_waiting {callback : Callback} {r : Request} {rc : ℤ}
    (hev : .call .runPhases rc ∈ w.events callback e r) :
    callback = .requestRead ∧ w.waits = true := by
  have hcall := callback_signalled callback e (w.setR r)
  have hmem : Signal.resume ∈ (w.events callback e r).signals := List.mem_filterMap.2 ⟨_, hev, rfl⟩
  have hsig : (callback.code.run e (w.setR r)).2.trace.signals =
      w.trace.signals ++ (w.events callback e r).signals := by
    rw [World.trace_events, Trace.signals_append]
  cases hcall with
  | unheard _ h _ =>
    have hnone : (w.events callback e r).signals = [] :=
      List.append_cancel_left (hsig.symm.trans (h.signals.trans (List.append_nil _).symm))
    rw [hnone] at hmem
    exact absurd hmem List.not_mem_nil
  | asked a s inst h left =>
    have hask : (w.events .preAccess e r).signals = [.ask s.ctx.waitingMoreBody] := by
      refine List.append_cancel_left (hsig.symm.trans ?_)
      rw [left]
      exact h.signals
    rw [hask, List.mem_singleton] at hmem
    cases hmem
  | resumed a s inst waiting h left => exact ⟨rfl, World.waits_iff.2 ⟨a, inst, waiting⟩⟩

theorem resumable (w : World) (e : Env) (r : Request) : Resumable w e r where
  entered _ hin hw := preAccess_again (w := w.setR r) hin hw e
  resumed a hin hw := by
    obtain ⟨t, ht, hleft⟩ := requestReadBack_waiting (w := w.setR r) hin hw e
    obtain ⟨rc, htr⟩ := ht.trace
    refine ⟨rc, World.events_eq ((congrArg World.trace hleft).trans htr), ?_⟩
    rw [hleft, World.put, ht.ctx]
    rfl
  missed hno := by
    obtain ⟨hctxs, rc, htr⟩ := requestReadBack_missed (w := w.setR r) hno e
    exact ⟨hctxs, rc, World.events_eq htr⟩
  only _ _ hev := runPhases_of_waiting hev

/-- the suspensions and the callbacks of a run, from a request just accepted -/
structure WakesAccounted (w : World) (steps : List Step) : Prop where
  /-- no context asks twice, and what was suspended has been resumed once or waits -/
  balanced : (w.run steps).awaiting.Balanced
  /-- a callback resumes one context or is missed -/
  woken : steps.countP Step.wakes = (w.run steps).trace.resumptions + w.missed steps
  /-- with no callback missed and one for every suspension, nobody waits -/
  settled : w.missed steps = 0 → steps.countP Step.wakes = (w.run steps).trace.signals.countP (· = .ask true) →
    ∀ a < (w.run steps).ctxCount, ((w.run steps).ctxs a).waitingMoreBody = false

/-- **Every wake-up is accounted for.** However nginx calls the handlers on a request, and whatever it and the engine
answer: no context asks for the body twice, every request for a body that suspended has been resumed once or its context
still waits, every callback resumes the context it finds waiting or is missed, and while a context waits only the
callback resumes it. -/
theorem suspensions_resumed (r : Request) (mainWaf : ℕ) (steps : List Step) :
    WakesAccounted (World.start r mainWaf) steps ∧ ∀ e r', Resumable ((World.start r mainWaf).run steps) e r' := by
  refine ⟨?_, fun e r' => resumable _ e r'⟩
  have hbalanced : ((World.start r mainWaf).run steps).awaiting.Balanced :=
    Awaiting.balanced_of_steps ((Upright.start r mainWaf).run steps).2 (Awaiting.balanced_empty _)
  have hwoken := (World.start r mainWaf).run_resumptions steps
  refine ⟨hbalanced, hwoken, fun hmissed hall a ha => ?_⟩
  have hnone : ((World.start r mainWaf).run steps).awaiting.number (· = .waiting) = 0 := by
    have hresumed := hbalanced.resumed
    have hwoken' : steps.countP Step.wakes = ((World.start r mainWaf).run steps).trace.resumptions := by
      rw [hmissed] at hwoken
      exact hwoken
    have hsame : ((World.start r mainWaf).run steps).awaiting.signals.countP (· = .ask true) =
        ((World.start r mainWaf).run steps).awaiting.signals.countP (· = .resume) := hall.symm.trans hwoken'
    omega
  have hstand := Awaiting.stands_of_number_eq_zero hnone ha
  cases hw : (((World.start r mainWaf).run steps).ctxs a).waitingMoreBody with
  | false => rfl
  | true =>
    have hwaiting : ((World.start r mainWaf).run steps).awaiting.stands a = .waiting := by
      change (((World.start r mainWaf).run steps).ctxs a).stand = .waiting
      rw [Ctx.stand, hw]
      rfl
    simp [hwaiting] at hstand

end CorazaNginx
