/-
One call of the header filter, as a list of what it can come to.

Once per context the filter shows the engine the response headers and evaluates phase 3 (`St.phase3`), polls, and then
decides (`Dispatched`): yield to an error page, enforce an interruption by a redirect or by finalizing the request,
delay, or forward. `headerFilter_outcome` says there is no other way through, apart from a submission that broke off;
`headerFilter_passive` is the entry guard.
-/
import Mathlib.Tactic
import CorazaNginx.Response.Shown
import CorazaNginx.Spec.Poll

namespace CorazaNginx

open CorazaNginx.Core Prog Handler

variable {ρ : Type} {e : Env} {s : St}

/-- the state when phase 3 has been evaluated: `evs` logged, `p` whether the body is inspected -/
def St.phase3 (s : St) (evs : Trace) (p : Bool) : St :=
  (s.logs evs).setCtx { s.ctx with processed := true, respHdrCollect := none, responseBodyProcessable := p }

@[simp] theorem St.phase3_r (evs : Trace) (p : Bool) : (s.phase3 evs p).r = s.r := rfl
@[simp] theorem St.phase3_trace (evs : Trace) (p : Bool) : (s.phase3 evs p).trace = s.trace ++ evs := rfl

/-- the headers of `r` go to the next header filter, which answers `rc` -/
def St.forwarded (e : Env) (s : St) (rc : ℤ) : St :=
  (s.log (.call (.nextHeader s.r.headersOut s.r.headerOnly) rc)).setR (s.r.afterHeader e)

theorem St.forwarded_trace (rc : ℤ) : (s.forwarded e rc).trace =
    s.trace ++ [.call (.nextHeader s.r.headersOut s.r.headerOnly) rc] := rfl

/-- what the filter does with the response, given the poll's `ret` -/
inductive Dispatched (e : Env) (ret : ℤ) (s : St) : St → Prop where
  | yielded (rc : ℤ) (errorPage : s.r.errorPage = true) : Dispatched e ret s (s.forwarded e rc)
  | redirected (rc : ℤ) (errorPage : s.r.errorPage = false) (pos : 0 < ret) (code : isRedirectStatus ret = true) :
      Dispatched e ret s ((s.trigger.setR (prepareRedirect s.r ret)).forwarded e rc)
  | finalized (rc : ℤ) (errorPage : s.r.errorPage = false) (pos : 0 < ret)
      (unredirected : ¬ (isRedirectStatus ret = true ∧ s.r.headersOut.location.isSome = true)) :
      Dispatched e ret s ((s.trigger.log (.call (.finalizeRequest ret) rc)).setR (e.finalized s.r))
  | delayed (errorPage : s.r.errorPage = false) (nonpos : ret ≤ 0) (delays : delaysHeaders s.r = true) :
      Dispatched e ret s s.delay
  | forwarded (rc : ℤ) (errorPage : s.r.errorPage = false) (nonpos : ret ≤ 0) (delays : delaysHeaders s.r = false) :
      Dispatched e ret s (s.forwarded e rc)

theorem dispatchHeaders_spec (ret : ℤ) {Q : Unit → St → Prop} {E : ℤ → St → Prop}
    (h : ∀ rc t, Dispatched e ret s t → E rc t) : wp (dispatchHeaders ret) Q E e s := by
  rw [dispatchHeaders, wp_bind, wp_get, wp_bind]
  refine (wp_when _ _).2 ⟨fun hep => ?_, fun hep => ?_⟩
  · rw [wp_bind]
    exact h _ _ (.yielded _ hep)
  have hep' : s.r.errorPage = false := by simpa using hep
  rw [wp_bind]
  refine (wp_when _ _).2 ⟨fun hpos => ?_, fun hpos => ?_⟩
  · rw [wp_bind, wp_trigger, wp_bind]
    refine (wp_when _ _).2 ⟨fun hc => ?_, fun hc => ?_⟩
    · rw [Bool.and_eq_true] at hc
      rw [wp_bind, wp_modify, wp_bind]
      exact h _ _ (.redirected _ hep' hpos hc.1)
    · rw [Bool.and_eq_true] at hc
      rw [wp_bind]
      exact h _ _ (.finalized _ hep' hpos hc)
  · rw [wp_bind]
    refine (wp_when _ _).2 ⟨fun hd => ?_, fun hd => ?_⟩
    · rw [wp_bind, wp_modify]
      exact h _ _ (.delayed hep' (not_lt.1 hpos) hd)
    · rw [wp_bind]
      exact h _ _ (.forwarded _ hep' (not_lt.1 hpos) (by simpa using hd))

/-- how the poll behind the stretch `upTo` went: not made, because phase 3 failed or found nothing, or made -/
inductive Polled3 (e : Env) (upTo : Trace) (s : St) : ℤ → St → Prop where
  | skipped (ret : ℤ) (failed : (ret = ngxOk ∧ upTo.Sound) ∨ (ret = ngxHttpInternalServerError ∧ ¬ upTo.Clean)) :
      Polled3 e upTo s ret s
  | polled (evs : Trace) (h : HeadersOut) (aux : ∀ ev ∈ evs, ev.isAux = true)
      (zero : interventionRc s.r.headerSent (e.intervention s.trace) = 0 → evs.Clean ∧ h = s.r.headersOut)
      (sound : upTo.Sound) (inst : Installs e s evs h) :
      Polled3 e upTo s (interventionRc s.r.headerSent (e.intervention s.trace))
        (s.polled (pollEvent e s :: evs) h s.ctx.logged)

/-- the stretch up to and including phase 3: the pairs shown, phase 3, whether the body is to be inspected -/
structure UpToPhase3 (e : Env) (s : St) (evs : Trace) : Prop where
  quiet : evs.Quiet
  noPoll : ∀ ev ∈ evs, ev.isPoll = false
  pairs : evs.pairs = shownPairs e s.r
  evaluated : ∃ ev ∈ evs, ev.isPhase3 = true
  last : evs.ErrorLast

/-- what the header filter can come to on a context it has not processed yet -/
inductive HeaderOutcome (e : Env) (s : St) : St → Prop where
  | broken (evs : Trace) (c : Option (List HeaderPair)) (plain : evs.Plain) (dirty : ¬ evs.Clean) :
      HeaderOutcome e s ((s.logs evs).setCtx { s.ctx with processed := true, respHdrCollect := c })
  | dispatched (evs : Trace) (p : Bool) (ret : ℤ) (v t : St) (upTo : UpToPhase3 e s evs)
      (poll : Polled3 e evs (s.phase3 evs p) ret v) (out : Dispatched e ret v t) : HeaderOutcome e s t

theorem Polled3.trace_pairs {upTo : Trace} {ret : ℤ} {v : St} (h : Polled3 e upTo s ret v) :
    ∃ evs : Trace, v.trace = s.trace ++ evs ∧ evs.pairs = [] := by
  cases h with
  | skipped ret failed => exact ⟨[], (List.append_nil _).symm, rfl⟩
  | polled evs h aux zero sound inst =>
    have hpairs : evs.pairs = [] := Trace.pairs_of_aux aux
    exact ⟨_, rfl, hpairs⟩

theorem Dispatched.trace_pairs {ret : ℤ} {v : St} (h : Dispatched e ret s v) :
    ∃ evs : Trace, v.trace = s.trace ++ evs ∧ evs.pairs = [] := by
  cases h with
  | delayed => exact ⟨[], (List.append_nil _).symm, rfl⟩
  | _ => exact ⟨[_], rfl, rfl⟩

theorem Dispatched.trace_noPoll {ret : ℤ} {v : St} (h : Dispatched e ret s v) :
    ∃ evs : Trace, v.trace = s.trace ++ evs ∧ ∀ ev ∈ evs, ev.isPoll = false := by
  cases h with
  | delayed => exact ⟨[], (List.append_nil _).symm, fun _ h => absurd h List.not_mem_nil⟩
  | _ => exact ⟨[_], rfl, fun ev hev => by rw [List.mem_singleton.1 hev]; rfl⟩

theorem phase3_spec {evs : Trace} (hplain : evs.Plain) (hpairs : evs.pairs = shownPairs e s.r)
    {Q : ℤ → St → Prop} {E : ℤ → St → Prop}
    (h : ∀ evs' p ret v, UpToPhase3 e s evs' → Polled3 e evs' (s.phase3 evs' p) ret v → Q ret v) :
    wp processResponseHeaders Q E e
      ((s.logs evs).setCtx { s.ctx with processed := true, respHdrCollect := none }) := by
  rw [processResponseHeaders, wp_bind, wp_get, wp_bind, wp_engine, wp_bind, wp_engine, wp_bind, wp_modify]
  set status := if s.r.errStatus ≠ 0 then s.r.errStatus else s.r.headersOut.status
  set c3 := Call.engine s.ctx.corazaTransaction (.processResponseHeaders status (httpResponseVer s.r.httpVersion))
  set pret := e.ret (s.trace ++ evs) c3 with hpret
  set cp := Call.engine s.ctx.corazaTransaction .isResponseBodyProcessable
  set rp := e.ret (s.trace ++ evs ++ [.call c3 pret]) cp
  set evs' := evs ++ ([Event.call c3 pret] ++ [Event.call cp rp]) with hevs'
  have hidle : evs.Idle := fun ev hev => Event.inspects_of_plain (hplain ev hev)
  have hcp : Trace.Idle [Event.call cp rp] := Trace.idle_single.2 rfl
  -- of what is logged only phase 3 can be an error
  have hsound : 0 ≤ pret → Trace.Sound evs' := by
    refine fun h0 => Trace.sound_append.2 ⟨hidle.sound, Trace.sound_append.2 ⟨?_, hcp.sound⟩⟩
    intro ev hev
    rw [List.mem_singleton.1 hev]
    simpa [Event.engineError, c3] using h0
  have hup : UpToPhase3 e s evs' := by
    refine ⟨?_, ?_, ?_, ⟨_, List.mem_append_right _ List.mem_cons_self, rfl⟩,
      Trace.ErrorLast.after hidle.sound ((Trace.ErrorLast.single _).append hcp)⟩
    · exact Trace.quiet_append.2
        ⟨hplain.quiet, Trace.quiet_append.2 ⟨Trace.quiet_single.2 rfl, Trace.quiet_single.2 rfl⟩⟩
    · intro ev hev
      rcases List.mem_append.1 hev with hev | hev
      · exact Event.isPoll_of_plain (hplain ev hev)
      · rcases List.mem_cons.1 hev with rfl | hev
        · rfl
        · rw [List.mem_singleton.1 hev]; rfl
    · rw [hevs', Trace.pairs_append, hpairs]
      exact List.append_nil _
  have hstate : s.phase3 evs' (decide (rp % 2 = 1)) = (((s.logs evs).setCtx
      { s.ctx with processed := true, respHdrCollect := none }).log (.call c3 pret) |>.log (.call cp rp) |>.setCtx
        { s.ctx with processed := true, respHdrCollect := none, responseBodyProcessable := decide (rp % 2 = 1) }) := by
    simp [St.phase3, St.logs, St.log, St.setCtx, hevs']
  change wp _ _ _ e (((s.logs evs).setCtx
      { s.ctx with processed := true, respHdrCollect := none }).log (.call c3 pret) |>.log (.call cp rp) |>.setCtx
        { s.ctx with processed := true, respHdrCollect := none, responseBodyProcessable := decide (rp % 2 = 1) })
  rw [← hstate]
  refine pollAfterProcess_spec false pret (fun hneg => ?_) (fun h0 _ => ?_) (fun hint => ?_)
  · refine h evs' _ _ _ hup (.skipped _ (Or.inr ⟨rfl, fun hc => ?_⟩))
    have hfail := hc (.call c3 pret) (by simp [hevs'])
    simp [Event.failed, c3] at hfail
    omega
  · exact h evs' _ _ _ hup (.skipped _ (Or.inl ⟨rfl, hsound h0⟩))
  · refine processIntervention_spec false fun s' evs'' h' l hs' haux hlate hzero hinst => ?_
    obtain rfl := hlate rfl
    subst hs'
    exact h evs' _ _ _ hup (.polled evs'' h' haux hzero (hsound (hint ▸ by decide)) hinst)

/-- the entry guard: after an intervention, or once the context has been processed, the headers pass as they are -/
theorem headerFilter_passive (h : s.ctx.interventionTriggered = true ∨ s.ctx.processed = true) :
    ((headerFilter : Handler ℤ ℤ).run e s).2 =
      s.forwarded e (e.ret s.trace (.nextHeader s.r.headersOut s.r.headerOnly)) := by
  refine run_state (P := fun t => t = _) ?_
  rw [headerFilter, wp_call, wp_bind, wp_get, wp_bind]
  refine (wp_when _ _).2 ⟨fun _ => ?_, fun ht => ?_⟩
  · rw [wp_bind]
    rfl
  · rw [wp_bind]
    refine (wp_when _ _).2 ⟨fun _ => ?_, fun hp => ?_⟩
    · rw [wp_bind]
      rfl
    · exact absurd h (by simp [ht, hp])

/-- the context marked processed and the collector armed, if it could be allocated -/
def St.armed (e : Env) (s : St) : St :=
  let ret := e.ret s.trace (.alloc 512)
  (s.log (.call (.alloc 512) ret)).setCtx { s.ctx with
    processed := true, respHdrCollect := if decide (ret ≠ 0) = true then some [] else none }

@[simp] theorem St.armed_trace : (s.armed e).trace = s.trace ++ [.call (.alloc 512) (e.ret s.trace (.alloc 512))] := rfl

/-- a context that has been neither marked nor processed: the submission, and phase 3 with what follows it -/
theorem headerFilter_then (ht : s.ctx.interventionTriggered = false) (hp : s.ctx.processed = false)
    {Q : ℤ → St → Prop} {E : ρ → St → Prop}
    (h : wp (submitResponseHeaders >>= fun _ => flushResponseHeaders) (fun _ u => wp (do
        dispatchHeaders (← processResponseHeaders)
        return ngxOk : Handler ℤ ℤ) Q Q e u) Q e (s.armed e)) :
    wp (headerFilter : Handler ρ ℤ) Q E e s := by
  rw [headerFilter, wp_call, wp_bind, wp_get, wp_bind]
  refine (wp_when _ _).2 ⟨fun h => absurd h (by simp [ht]), fun _ => ?_⟩
  rw [wp_bind]
  refine (wp_when _ _).2 ⟨fun h => absurd h (by simp [hp]), fun _ => ?_⟩
  rw [wp_bind, wp_modify, wp_bind, wp_alloc, wp_bind, wp_modify, wp_bind]
  rw [wp_bind] at h
  exact wp_mono h (fun _ u hu => (wp_bind _ _).2 hu) (fun _ _ hu => hu)

/-- the submission from there: all pairs are taken, or it breaks off -/
theorem submission_shows : wp (submitResponseHeaders >>= fun _ => flushResponseHeaders)
    (fun _ => Accepted (shownPairs e s.r) (s.armed e)) (fun rc u => rc = ngxError ∧ ShowFailed (s.armed e) u)
    e (s.armed e) := by
  have harmed : (s.armed e).ctx.respHdrCollect.getD [] = [] := by
    rw [St.armed, St.setCtx_ctx]
    split_ifs <;> rfl
  rw [wp_bind]
  exact showHeaders_spec harmed (fun _ hu => hu) (fun _ hu => ⟨rfl, hu⟩)

/-- **One call.** On a context it has not processed yet the filter comes to one of the listed outcomes. -/
theorem headerFilter_outcome (ht : s.ctx.interventionTriggered = false) (hp : s.ctx.processed = false) :
    HeaderOutcome e s ((headerFilter : Handler ℤ ℤ).run e s).2 := by
  refine run_state (P := HeaderOutcome e s) ?_
  refine headerFilter_then ht hp (wp_mono submission_shows (fun _ u hu => ?_) (fun _ u hu => ?_))
  · obtain ⟨evs, rfl, hplain, hpairs⟩ := hu
    set ret := e.ret s.trace (.alloc 512) with hret
    have hstate : ((s.armed e).logs evs).collect none = (s.logs ([.call (.alloc 512) ret] ++ evs)).setCtx
        { s.ctx with processed := true, respHdrCollect := none } := by
      simp [St.armed, ← hret, St.collect, St.logs, St.log, St.setCtx]
    have hplain1 : Trace.Plain ([.call (.alloc 512) ret] ++ evs) := plain_append.2 ⟨plain_single.2 rfl, hplain⟩
    have hpairs1 : Trace.pairs ([.call (.alloc 512) ret] ++ evs) = shownPairs e s.r := by
      rw [Trace.pairs_append]
      exact hpairs
    rw [hstate, wp_bind]
    refine phase3_spec hplain1 hpairs1 fun evs' p ret' v hup hpoll => ?_
    rw [wp_bind]
    exact dispatchHeaders_spec ret' fun rc t ht => .dispatched evs' p ret' v t hup hpoll ht
  · obtain ⟨-, evs, c, rfl, hplain, hdirty⟩ := hu
    set ret := e.ret s.trace (.alloc 512) with hret
    have hstate : ((s.armed e).logs evs).collect c = (s.logs ([.call (.alloc 512) ret] ++ evs)).setCtx
        { s.ctx with processed := true, respHdrCollect := c } := by
      simp [St.armed, ← hret, St.collect, St.logs, St.log, St.setCtx]
    rw [hstate]
    exact .broken _ c (plain_append.2 ⟨plain_single.2 rfl, hplain⟩) fun hc => hdirty (Trace.clean_append.1 hc).2

end CorazaNginx
