/-
Runs of the body filter over one response.

A run is a list of calls, each with its own environment: between two calls the producer may reuse the storage its
buffers pointed into, so the same memory and the same temp files can hold other bytes in the next call.
`RunEvents s calls` is what a run adds to the trace, `Trace.wire` what of it goes towards the client, as outputs of a
channel: heads (response headers, or the error page of a finalized request) and bodies.
-/
import Mathlib.Tactic
import CorazaNginx.Core.DelayLine
import CorazaNginx.Response.Outcome

namespace CorazaNginx

open CorazaNginx.Core Prog Handler

/-- one call of the body filter -/
structure BodyCall where
  env : Env
  inn : List Buf

/-- the bytes a call brings, as its content gives them -/
def BodyCall.received (c : BodyCall) : Bytes := c.inn.flatMap (·.bytes c.env.content)

def bodyStep (s : St) (c : BodyCall) : St := ((bodyFilter c.inn).run c.env s).2

def bodyRun (s : St) (calls : List BodyCall) : St := calls.foldl bodyStep s

@[simp] theorem bodyRun_nil (s : St) : bodyRun s [] = s := rfl
@[simp] theorem bodyRun_cons (s : St) (c : BodyCall) (calls : List BodyCall) :
    bodyRun s (c :: calls) = bodyRun (bodyStep s c) calls := rfl

theorem bodyRun_append (s : St) (l m : List BodyCall) : bodyRun s (l ++ m) = bodyRun (bodyRun s l) m :=
  List.foldl_append

/-- what a run adds to the trace -/
def RunEvents (s : St) (calls : List BodyCall) : Trace := (bodyRun s calls).trace.drop s.trace.length

theorem runEvents_eq {s : St} {calls : List BodyCall} {evs : Trace} (h : (bodyRun s calls).trace = s.trace ++ evs) :
    RunEvents s calls = evs := by
  rw [RunEvents, h, List.drop_left]

/-! ## Towards the client -/

/-- what starts a response: its headers, or the page a request is finalized with -/
inductive Head where
  | headers (h : HeadersOut) (headerOnly : Bool)
  | page (status : ℤ)
deriving DecidableEq

/-- what an event sends towards the client -/
def Event.wire : Event → List (Out Head UInt8)
  | .call (.nextHeader h only) _ => [.head (.headers h only)]
  | .call (.nextBody out) _ => Out.emit (out.flatMap (·.bytes))
  | .call (.finalizeRequest status) _ => [.head (.page status)]
  | _ => []

/-- what a stretch of the trace sends towards the client -/
def Trace.wire (t : Trace) : List (Out Head UInt8) := t.flatMap Event.wire

@[simp] theorem Trace.wire_nil : Trace.wire [] = [] := rfl
@[simp] theorem Trace.wire_append (a b : Trace) : Trace.wire (a ++ b) = a.wire ++ b.wire := by simp [Trace.wire]

@[simp] theorem Trace.wire_single (ev : Event) : Trace.wire [ev] = ev.wire := by simp [Trace.wire]

theorem Event.wire_of_not_output {ev : Event} (h : ev.isOutput = false) : ev.wire = [] := by
  cases ev with
  | poll => rfl
  | call c rc => cases c <;> first | rfl | cases h

theorem Trace.Quiet.wire {t : Trace} (h : t.Quiet) : t.wire = [] :=
  List.flatMap_eq_nil_iff.2 fun ev hev => Event.wire_of_not_output (h ev hev)

/-! ## What a call sends -/

theorem looped_trace {e : Env} {s : St} (inn : List Buf) (evs : Trace) :
    (s.looped e inn evs).trace = s.trace ++ evs := by
  simp [St.looped]

theorem looped_r {e : Env} {s : St} (inn : List Buf) (evs : Trace) : (s.looped e inn evs).r = s.r := by
  simp [St.looped]

theorem looped_inn {e : Env} {s : St} (inn : List Buf) (evs : Trace) :
    (s.looped e inn evs).inn = if s.ctx.headersDelayed then inn.map Buf.afterQueue else inn :=
  queueAll_inn (s := s.setInn inn) e.content

theorem looped_triggered {e : Env} {s : St} (inn : List Buf) (evs : Trace) :
    (s.looped e inn evs).ctx.interventionTriggered = s.ctx.interventionTriggered := by
  simp [St.looped]

theorem looped_processable {e : Env} {s : St} (inn : List Buf) (evs : Trace) :
    (s.looped e inn evs).ctx.responseBodyProcessable = s.ctx.responseBodyProcessable := by
  simp [St.looped]

theorem looped_pending {e : Env} {s : St} (inn : List Buf) (evs : Trace) :
    (s.looped e inn evs).ctx.pendingChain =
      if s.ctx.headersDelayed then s.ctx.pendingChain ++ inn.zipIdx.map (queueLink e.content)
      else s.ctx.pendingChain := by
  rw [St.looped, St.logs_ctx, queueAll_ctx]
  by_cases hd : s.ctx.headersDelayed = true
  · rw [if_pos hd, if_pos (by simpa using hd)]; rfl
  · rw [if_neg hd, if_neg (by simpa using hd)]; rfl

/-- a call in which something fails is one that ends the response -/
theorem bodyFilter_clean_or_blocked {e : Env} {s : St} (inn : List Buf) (hep : s.r.errorPage = false) :
    (∃ evs : Trace, ((bodyFilter inn : Handler ℤ ℤ).run e s).2.trace = s.trace ++ evs ∧ evs.Clean) ∨
      Blocked e (inn.countP (·.lastBuf)) (RejectedIn s inn) (s.setInn inn)
        ((bodyFilter inn : Handler ℤ ℤ).run e s).2 := by
  by_cases hne : inn = []
  · subst hne
    rw [bodyFilter_null]
    exact Or.inl ⟨[_], rfl, Trace.clean_single.2 rfl⟩
  by_cases ht : s.ctx.interventionTriggered = true
  · rw [bodyFilter_triggered inn hne ht]
    split_ifs
    · exact Or.inl ⟨[], (List.append_nil _).symm, Trace.Clean.nil⟩
    · exact Or.inl ⟨[_], St.chainOut_trace (s := s.setInn inn) _, Trace.clean_single.2 rfl⟩
  have ho := bodyFilter_outcome (e := e) inn hne hep (by simpa using ht)
  generalize ((bodyFilter inn : Handler ℤ ℤ).run e s).2 = t at ho ⊢
  cases ho with
  | blocked hb => exact Or.inr hb
  | streamed evs rc hins hd =>
    have htr := St.chainOut_trace (e := e) (s := s.looped e inn evs) rc
    rw [looped_trace, List.append_assoc] at htr
    exact Or.inl ⟨_, htr, Trace.clean_append.2 ⟨hins.stretch.clean, Trace.clean_single.2 rfl⟩⟩
  | held evs hins hd hl hcap => exact Or.inl ⟨evs, looped_trace inn evs, hins.stretch.clean⟩
  | stuck evs hins hd =>
    have htr := St.headersOut_trace (e := e) (s := s.looped e inn evs) ngxError
    rw [looped_trace, List.append_assoc] at htr
    exact Or.inl ⟨_, htr, Trace.clean_append.2 ⟨hins.stretch.clean, Trace.clean_single.2 rfl⟩⟩
  | flushed evs rc rc' hins hd hdue hrc' =>
    have htr := St.queueOut_trace (e := e) (s := (s.looped e inn evs).headersOut e rc) rc'
    rw [St.headersOut_trace, looped_trace, List.append_assoc, List.append_assoc] at htr
    refine Or.inl ⟨_, htr, Trace.clean_append.2 ⟨hins.stretch.clean, Trace.clean_append.2 ⟨?_, ?_⟩⟩⟩
    · exact Trace.clean_single.2 rfl
    · exact Trace.clean_single.2 rfl

/-! ## A run only adds to the trace -/

/-- no error page is on the wire while the response is still the origin's -/
def Steady (s : St) : Prop := s.r.errorPage = false ∨ s.ctx.interventionTriggered = true

theorem bodyStep_steady {s : St} (h : Steady s) (c : BodyCall) :
    Steady (bodyStep s c) ∧ s.trace <+: (bodyStep s c).trace := by
  obtain ⟨e, inn⟩ := c
  by_cases hne : inn = []
  · subst hne
    rw [show bodyStep s ⟨e, []⟩ = _ from bodyFilter_null (e := e) (s := s)]
    exact ⟨h, List.prefix_append _ _⟩
  by_cases ht : s.ctx.interventionTriggered = true
  · rw [show bodyStep s ⟨e, inn⟩ = _ from bodyFilter_triggered (e := e) inn hne ht]
    split_ifs
    · exact ⟨Or.inr ht, List.prefix_refl _⟩
    · exact ⟨Or.inr ht, List.prefix_append _ _⟩
  have hep : s.r.errorPage = false := h.resolve_right ht
  have ho : Outcome e inn s (bodyStep s ⟨e, inn⟩) := bodyFilter_outcome inn hne hep (by simpa using ht)
  generalize bodyStep s ⟨e, inn⟩ = t at ho ⊢
  cases ho with
  | blocked hb =>
    obtain ⟨evs, ev, _, htr, -⟩ := hb.trace
    refine ⟨Or.inr hb.triggered, ?_⟩
    rw [htr, List.append_assoc]
    exact List.prefix_append _ _
  | streamed evs rc hins hd =>
    refine ⟨Or.inl (by simpa [St.chainOut, looped_r] using hep), ?_⟩
    rw [St.chainOut_trace, looped_trace, List.append_assoc]
    exact List.prefix_append _ _
  | held evs hins hd hl hcap =>
    refine ⟨Or.inl (by rw [looped_r]; exact hep), ?_⟩
    rw [looped_trace]
    exact List.prefix_append _ _
  | stuck evs hins hd =>
    refine ⟨Or.inl (by simpa [St.headersOut, looped_r] using hep), ?_⟩
    rw [St.headersOut_trace, looped_trace, List.append_assoc]
    exact List.prefix_append _ _
  | flushed evs rc rc' hins hd hdue hrc =>
    refine ⟨Or.inl (by simpa [St.queueOut, St.headersOut, looped_r] using hep), ?_⟩
    rw [St.queueOut_trace, St.headersOut_trace, looped_trace, List.append_assoc, List.append_assoc]
    exact List.prefix_append _ _

/-- an intervention stays triggered -/
theorem bodyStep_triggered {s : St} (h : s.ctx.interventionTriggered = true) (c : BodyCall) :
    (bodyStep s c).ctx.interventionTriggered = true := by
  obtain ⟨e, inn⟩ := c
  by_cases hne : inn = []
  · subst hne
    rw [show bodyStep s ⟨e, []⟩ = _ from bodyFilter_null (e := e) (s := s)]
    exact h
  · rw [show bodyStep s ⟨e, inn⟩ = _ from bodyFilter_triggered (e := e) inn hne h]
    split_ifs
    · exact h
    · exact h

theorem bodyRun_triggered {s : St} (h : s.ctx.interventionTriggered = true) (calls : List BodyCall) :
    (bodyRun s calls).ctx.interventionTriggered = true := by
  induction calls generalizing s with
  | nil => exact h
  | cons c calls ih => exact ih (bodyStep_triggered h c)

theorem bodyRun_untriggered_of {s : St} (calls : List BodyCall)
    (h : (bodyRun s calls).ctx.interventionTriggered = false) : s.ctx.interventionTriggered = false := by
  by_contra ht
  rw [bodyRun_triggered (by simpa using ht) calls] at h
  cases h

theorem bodyRun_steady {s : St} (h : Steady s) (calls : List BodyCall) :
    Steady (bodyRun s calls) ∧ s.trace <+: (bodyRun s calls).trace := by
  induction calls generalizing s with
  | nil => exact ⟨h, List.prefix_refl _⟩
  | cons c calls ih =>
    obtain ⟨h1, hp1⟩ := bodyStep_steady h c
    obtain ⟨h2, hp2⟩ := ih h1
    exact ⟨h2, hp1.trans hp2⟩

theorem bodyRun_trace {s : St} (h : Steady s) (calls : List BodyCall) :
    (bodyRun s calls).trace = s.trace ++ RunEvents s calls := by
  obtain ⟨evs, hevs⟩ := (bodyRun_steady h calls).2
  rw [runEvents_eq hevs.symm, hevs]

/-- the events of a run, call by call -/
theorem runEvents_cons {s : St} (h : Steady s) (c : BodyCall) (calls : List BodyCall) :
    ∃ evs, (bodyStep s c).trace = s.trace ++ evs ∧
      RunEvents s (c :: calls) = evs ++ RunEvents (bodyStep s c) calls := by
  obtain ⟨h1, evs, hevs⟩ := bodyStep_steady h c
  refine ⟨evs, hevs.symm, runEvents_eq ?_⟩
  rw [bodyRun_cons, bodyRun_trace h1, ← hevs, List.append_assoc]

theorem runEvents_append {s : St} (h : Steady s) (l m : List BodyCall) :
    RunEvents s (l ++ m) = RunEvents s l ++ RunEvents (bodyRun s l) m := by
  refine runEvents_eq ?_
  rw [bodyRun_append, bodyRun_trace (bodyRun_steady h l).1, bodyRun_trace h, List.append_assoc]

/-! ## The chain in hand -/

/-- the chain in hand, handed on -/
theorem inLinks_bytes (c : Content) (inn : List Buf) :
    ((inLinks inn).map (Link.hand c inn)).flatMap (·.bytes) = inn.flatMap (·.bytes c) := by
  have h : (inLinks inn).map (Link.hand c inn) = inn.zipIdx.map fun x => ⟨x.1, x.1.bytes c, some x.2⟩ := by
    refine List.ext_getElem (by simp [inLinks]) fun i hi hj => ?_
    have hlt : i < inn.length := by simpa [inLinks] using hi
    simp [inLinks, Link.hand, List.getD_eq_getElem?_getD, hlt]
  rw [h, List.flatMap_map]
  conv_rhs => rw [← List.zipIdx_map_fst 0 inn, List.flatMap_map]

end CorazaNginx
