/-
Does every error of the engine fail closed?

`Event.engineError` is a negative answer to the evaluation of a phase, or an append the engine does not take. There are
six such calls in four handlers, two of them inside chunk loops. `Site.FailsClosed` says what must become of each: the
context is marked, nothing of the inspection follows in that call, and the request or response ends with status 500.
`engine_errors_fail_closed` says it of every call of every handler; it is assembled from the lists of what a call can
come to (`RewriteOutcome`, `Entry`, `HeaderOutcome`, `Outcome`).
-/
import Mathlib.Tactic
import CorazaNginx.Enforcement
import CorazaNginx.Request.BodyDelivery
import CorazaNginx.Request.HeaderSubmission

namespace CorazaNginx

open CorazaNginx.Core Prog Handler

variable {e : Env} {s t : St}

/-- the call has ended the request or the response with status 500, and nothing else of it went on -/
def Site.EndsInternal (site : Site) (inn : List Buf) (e : Env) (s : St) : Prop :=
  match site with
  | .rewrite | .preAccess => (site.run inn e s).1 = ngxHttpInternalServerError
  | .headerFilter => (site.run inn e s).2.ctx.headersDelayed = s.ctx.headersDelayed ∧ ∃ evs rc,
      site.events inn e s = evs ++ [.call (.finalizeRequest ngxHttpInternalServerError) rc] ∧ Trace.Quiet evs
  | .bodyFilter => (site.run inn e s).2.ctx.headersDelayed = false ∧
      (s.ctx.headersDelayed = true → (site.run inn e s).2.ctx.pendingChain = []) ∧ ∃ evs rc,
      site.events inn e s = evs ++ [.call (.finalizeRequest ngxHttpInternalServerError) rc] ∧ Trace.Quiet evs

/-- what becomes of each error the engine reports in the call -/
def Site.FailsClosed (site : Site) (inn : List Buf) (e : Env) (s : St) : Prop :=
  ∀ pre ev post, site.events inn e s = pre ++ ev :: post → ev.engineError = true →
    (site.run inn e s).2.ctx.interventionTriggered = true ∧ Trace.Idle post ∧ site.EndsInternal inn e s

/-- an error is the last of the inspection, and if there is one the call ends as it should -/
theorem Site.failsClosed_of {site : Site} {inn : List Buf} (hlast : (site.events inn e s).ErrorLast)
    (hend : ∀ ev ∈ site.events inn e s, ev.engineError = true →
      (site.run inn e s).2.ctx.interventionTriggered = true ∧ site.EndsInternal inn e s) :
    site.FailsClosed inn e s := by
  intro pre ev post hsplit herr
  obtain ⟨htrig, hends⟩ := hend ev (by rw [hsplit]; simp) herr
  exact ⟨htrig, hlast pre ev post hsplit herr, hends⟩

/-- a call in which the engine reports nothing -/
theorem Site.failsClosed_of_sound {site : Site} {inn : List Buf} (h : (site.events inn e s).Sound) :
    site.FailsClosed inn e s := by
  refine Site.failsClosed_of h.errorLast fun ev hev herr => ?_
  rw [h ev hev] at herr
  cases herr

theorem Event.engineError_of_not_inspects {ev : Event} (h : ev.inspects = false) : ev.engineError = false := by
  by_contra herr
  rw [Event.inspects_of_engineError (by simpa using herr)] at h
  cases h

theorem Trace.Plain.idle {t : Trace} (h : t.Plain) : t.Idle := fun ev hev => Event.inspects_of_plain (h ev hev)

theorem Event.isAux_of_engineError {ev : Event} (h : ev.engineError = true) : ev.isAux = false := by
  by_contra hx
  rw [Event.engineError_of_not_inspects (Event.inspects_of_aux (by simpa using hx))] at h
  cases h

/-- an account with an error of the engine in it is of an internal error -/
theorem Account.internal_of_error {sent : Bool} {h h' : HeadersOut} {evs : Trace} {status : ℤ}
    (ha : Account sent h evs status h') {ev : Event} (hev : ev ∈ evs) (herr : ev.engineError = true) :
    status = ngxHttpInternalServerError :=
  ha.internal_of hev (Event.failed_of_engineError herr) (Event.isPoll_of_inspects (Event.inspects_of_engineError herr))
    (Event.isAux_of_engineError herr)

/-! ## The phase handlers -/

theorem rewrite_failsClosed {inn : List Buf} (hep : s.r.errorPage = false) : Site.rewrite.FailsClosed inn e s := by
  have hout : RewriteOutcome s (Site.rewrite.run inn e s).1 (Site.rewrite.run inn e s).2 :=
    (wp_run (Q := RewriteOutcome s) rewriteInspect).1 rewriteInspect_outcome
  generalize hrc : (Site.rewrite.run inn e s).1 = rc at hout
  generalize ht : (Site.rewrite.run inn e s).2 = t at hout
  have hevents : ∀ {evs}, t.trace = s.trace ++ evs → Site.rewrite.events inn e s = evs := by
    intro evs h
    rw [Site.events, ht, drop_of_trace h]
  cases hout with
  | gaveUp evs t htr hplain =>
    refine Site.failsClosed_of_sound ?_
    rw [hevents htr]
    exact hplain.idle.sound
  | evaluated evs rc t htook hwhy hev =>
    obtain ⟨pret, rest, htr, htail, hneg⟩ := hev.trace
    rw [St.logs_trace, List.append_assoc] at htr
    set ev1 := Event.call (.engine (s.logs evs).ctx.corazaTransaction .processRequestHeaders) pret
    refine Site.failsClosed_of ?_ fun ev hin herr => ?_
    · rw [hevents htr]
      exact Trace.ErrorLast.after htook.plain.idle.sound ((Trace.ErrorLast.single ev1).append htail.idle)
    · rw [hevents htr] at hin
      -- only phase 1 can be the error
      have hev1 : ev = ev1 := by
        rcases List.mem_append.1 hin with hin | hin
        · rw [htook.plain.idle.sound ev hin] at herr
          cases herr
        · rcases List.mem_cons.1 hin with heq | hin
          · exact heq
          · rw [htail.idle.sound ev hin] at herr
            cases herr
      have hpret : pret < 0 := by
        rw [hev1] at herr
        simpa [ev1, Event.engineError] using herr
      obtain ⟨hrc', htrig⟩ := hneg hpret hep
      exact ⟨by rw [ht]; exact htrig, hrc.trans hrc'⟩

theorem preAccess_failsClosed {inn : List Buf} (hep : s.r.errorPage = false) : Site.preAccess.FailsClosed inn e s := by
  have hout : Entry e s (Site.preAccess.run inn e s).1 (Site.preAccess.run inn e s).2 :=
    (wp_run (Q := Entry e s) preAccessHandler).1 (preAccessHandler_entry hep)
  generalize hrc : (Site.preAccess.run inn e s).1 = rc at hout
  generalize ht : (Site.preAccess.run inn e s).2 = t at hout
  have hevents : ∀ {evs}, t.trace = s.trace ++ evs → Site.preAccess.events inn e s = evs := by
    intro evs h
    rw [Site.events, ht, drop_of_trace h]
  -- phase 2 behind a stretch in which nothing failed
  have phase : ∀ {evs m}, m.trace = s.trace ++ evs → evs.Clean → PhaseEnd m rc t →
      Site.preAccess.FailsClosed inn e s := by
    intro evs m hm hclean hend
    cases hend with
    | passed tx pret evs' clean tail =>
      refine Site.failsClosed_of_sound ?_
      rw [hevents (by rw [St.logs_trace, hm, List.append_assoc])]
      exact Trace.sound_append.2 ⟨hclean.sound, clean.sound⟩
    | refused tx pret rc evs' t htr tail account hends triggered =>
      rw [hm, List.append_assoc] at htr
      refine Site.failsClosed_of ?_ fun ev hin herr => ?_
      · rw [hevents htr]
        exact Trace.ErrorLast.after hclean.sound ((Trace.ErrorLast.single _).append tail.idle)
      · rw [hevents htr] at hin
        rcases List.mem_append.1 hin with hin | hin
        · rw [hclean.sound ev hin] at herr
          cases herr
        · exact ⟨by rw [ht]; exact triggered, hrc.trans (account.internal_of_error hin herr)⟩
  cases hout with
  | aside rc evs t htr hclean =>
    refine Site.failsClosed_of_sound ?_
    rw [hevents htr]
    exact hclean.sound
  | off evs rc m t htr hdel haccess htrig hend => exact phase htr hdel.clean hend
  | cut evs rc m t htr hdel hready hcut htrig =>
    obtain ⟨evs', htr', hacc, hlast, -⟩ := hcut.trace
    rw [htr, List.append_assoc] at htr'
    refine Site.failsClosed_of ?_ fun ev hin herr => ?_
    · rw [hevents htr']
      exact Trace.ErrorLast.after hdel.clean.sound hlast
    · rw [hevents htr'] at hin
      rcases List.mem_append.1 hin with hin | hin
      · rw [hdel.clean.sound ev hin] at herr
        cases herr
      · exact ⟨by rw [ht]; exact htrig, hrc.trans (hacc.internal_of_error hin herr)⟩
  | evaluated evs rb rc m t htr hready hheld hfits hdel hsub htrig hend => exact phase htr hdel.clean hend

/-! ## The filters -/

theorem Polled3.idle {upTo : Trace} {ret : ℤ} {v : St} (h : Polled3 e upTo s ret v) :
    ∃ evs : Trace, v.trace = s.trace ++ evs ∧ evs.Idle := by
  cases h with
  | skipped => exact ⟨[], (List.append_nil _).symm, fun _ h => absurd h List.not_mem_nil⟩
  | polled evs h aux =>
    exact ⟨_, rfl, List.forall_mem_cons.2 ⟨rfl, fun ev hev => Event.inspects_of_aux (aux ev hev)⟩⟩

theorem Dispatched.idle {ret : ℤ} {v : St} (h : Dispatched e ret s v) :
    ∃ evs : Trace, v.trace = s.trace ++ evs ∧ evs.Idle := by
  cases h with
  | delayed => exact ⟨[], (List.append_nil _).symm, fun _ h => absurd h List.not_mem_nil⟩
  | _ => exact ⟨[_], rfl, Trace.idle_single.2 rfl⟩

theorem headerFilter_failsClosed {inn : List Buf} (hep : s.r.errorPage = false) :
    Site.headerFilter.FailsClosed inn e s := by
  by_cases hpass : s.ctx.interventionTriggered = true ∨ s.ctx.processed = true
  · refine Site.failsClosed_of_sound ?_
    rw [Site.events, Site.run, headerFilter_passive hpass, drop_of_trace (St.forwarded_trace _)]
    exact (Trace.idle_single.2 rfl : Trace.Idle [_]).sound
  rw [not_or, Bool.not_eq_true, Bool.not_eq_true] at hpass
  have hout : HeaderOutcome e s (Site.headerFilter.run inn e s).2 := headerFilter_outcome hpass.1 hpass.2
  generalize ht : (Site.headerFilter.run inn e s).2 = t at hout
  cases hout with
  | broken evs c hplain hdirty =>
    refine Site.failsClosed_of_sound ?_
    rw [Site.events, ht, St.setCtx_trace, St.logs_trace, List.drop_left]
    exact hplain.idle.sound
  | dispatched evs p ret v _ upTo poll out =>
    obtain ⟨evs2, h2, hi2⟩ := poll.idle
    obtain ⟨evs3, h3, hi3⟩ := out.idle
    have hidle : Trace.Idle (evs2 ++ evs3) := Trace.idle_append.2 ⟨hi2, hi3⟩
    have hevents : Site.headerFilter.events inn e s = evs ++ (evs2 ++ evs3) := by
      rw [Site.events, ht]
      refine drop_of_trace ?_
      rw [h3, h2, St.phase3_trace, List.append_assoc, List.append_assoc]
    refine Site.failsClosed_of ?_ fun ev hin herr => ?_
    · rw [hevents]
      exact upTo.last.append hidle
    rw [hevents] at hin
    have hin' : ev ∈ evs := by
      rcases List.mem_append.1 hin with hin | hin
      · exact hin
      · rw [hidle.sound ev hin] at herr
        cases herr
    have hunsound : ¬ Trace.Sound evs := fun hs => by
      rw [hs ev hin'] at herr
      cases herr
    -- phase 3 has failed, so the poll is not made
    cases poll with
    | polled _ _ _ _ sound => exact absurd sound hunsound
    | skipped ret failed =>
      obtain ⟨rfl, -⟩ := failed.resolve_left fun h => hunsound h.2
      obtain rfl := trace_cancel h2 (List.append_nil _).symm
      unfold Site.EndsInternal
      rw [ht, hevents]
      cases out with
      | yielded rc hep' => exact absurd (hep'.symm.trans hep) (by decide)
      | redirected rc _ _ code => exact absurd code (by decide)
      | delayed _ hnon => exact absurd hnon (by decide)
      | forwarded rc _ hnon => exact absurd hnon (by decide)
      | finalized rc =>
        obtain rfl := trace_cancel h3 (rfl : _ = (s.phase3 evs p).trace ++ [_])
        exact ⟨rfl, rfl, evs, rc, rfl, upTo.quiet⟩

theorem bodyFilter_failsClosed {inn : List Buf} (hep : s.r.errorPage = false) :
    Site.bodyFilter.FailsClosed inn e s := by
  rcases bodyFilter_clean_or_blocked (e := e) inn hep with ⟨evs, htr, hclean⟩ | hb
  · refine Site.failsClosed_of_sound ?_
    rw [Site.events, drop_of_trace (show (Site.bodyFilter.run inn e s).2.trace = _ from htr)]
    exact hclean.sound
  change Blocked e _ _ _ (Site.bodyFilter.run inn e s).2 at hb
  obtain ⟨evs, last, status, h', htr, href, hend, hacc⟩ := hb.account
  rw [St.setInn_trace, List.append_assoc] at htr
  have hlast : Trace.Idle [last] := by
    refine Trace.idle_single.2 ?_
    cases hend <;> rfl
  have hevents : Site.bodyFilter.events inn e s = evs ++ [last] := drop_of_trace htr
  refine Site.failsClosed_of ?_ fun ev hin herr => ⟨hb.triggered, ?_⟩
  · rw [hevents]
    exact href.last.append hlast
  · rw [hevents] at hin
    have hin' : ev ∈ evs := by
      rcases List.mem_append.1 hin with hin | hin
      · exact hin
      · rw [hlast.sound ev hin] at herr
        cases herr
    obtain rfl := hacc.internal_of_error hin' herr
    unfold Site.EndsInternal
    rw [hevents]
    refine ⟨hb.delayed, fun hd => ?_, evs, ?_⟩
    · rw [hb.queue, if_pos (by simpa using hd)]
    · cases hend with
      | redirect h rc code => exact absurd code (by decide)
      | finalize rc => exact ⟨rc, rfl, href.quiet⟩

/-- **Every error of the engine fails closed.** In every call of every handler, in whatever state the context and the
response are, with no error page on the wire. -/
theorem engine_errors_fail_closed (site : Site) (inn : List Buf) (e : Env) (s : St) (hep : s.r.errorPage = false) :
    site.FailsClosed inn e s := by
  cases site with
  | rewrite => exact rewrite_failsClosed hep
  | preAccess => exact preAccess_failsClosed hep
  | headerFilter => exact headerFilter_failsClosed hep
  | bodyFilter => exact bodyFilter_failsClosed hep

/-- an engine that does not take the second chunk of a body -/
def chunkFailingEnv : Env := { Env.calm (.fill 1) with
  ret := fun t call => match call with
    | .engine _ (.appendResponseBody ..) => if Trace.appended t = [] then 0 else 1
    | _ => (Env.calm (.fill 1)).ret t call }

/-- a response with delayed headers -/
def delayingState : St :=
  { r := {}, ctx := { processed := true, headersDelayed := true, responseBodyProcessable := true } }

/-- two buffers of one byte -/
def twoBuffers : List Buf := [{ last := 1, memory := true }, { pos := 1, last := 2, memory := true, lastBuf := true }]

theorem second_chunk_fails_closed :
    (Site.bodyFilter.run twoBuffers chunkFailingEnv delayingState).2.ctx.interventionTriggered = true := by
  obtain ⟨pre, ev, post, hsplit, herr⟩ : ∃ pre ev post,
      Site.bodyFilter.events twoBuffers chunkFailingEnv delayingState = pre ++ ev :: post ∧ ev.engineError = true := by
    obtain ⟨ev, hev, herr⟩ : ∃ ev ∈ Site.bodyFilter.events twoBuffers chunkFailingEnv delayingState,
        ev.engineError = true := by decide +kernel
    obtain ⟨pre, post, hsplit⟩ := List.append_of_mem hev
    exact ⟨pre, ev, post, hsplit, herr⟩
  exact (engine_errors_fail_closed .bodyFilter twoBuffers chunkFailingEnv delayingState rfl pre ev post hsplit herr).1

end CorazaNginx
