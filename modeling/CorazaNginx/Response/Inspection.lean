/-
Inspect before forward, and nothing leaks behind a block.

A call that does not end the response has three parts (`bodyStep_hands`): the inspection of its chain, perhaps the
delayed headers, and perhaps one chain handed to the next body filter. `Inspecting` is the invariant of the calls made
before an intervention. The results about runs:
- `InspectedFirst`: when a chain is handed on, everything received so far has been appended to the engine, in order;
- `EvaluatedFirst`: phase 4 is evaluated at most once for each last buffer, and before one is handed on;
- `BlockedForGood`: a call in which something fails or is interrupted hands nothing on, ends the response with the
  status of the interruption, and whatever is queued is never handed on later.
-/
import Mathlib.Tactic
import CorazaNginx.Response.Delivery

namespace CorazaNginx

open CorazaNginx.Core Prog Handler

variable {e : Env} {s : St}

/-- the delayed headers go out -/
def Event.isHeader : Event → Bool
  | .call (.nextHeader ..) _ => true
  | _ => false

theorem Event.of_isHeader {ev : Event} (h : ev.isHeader = true) :
    ev.isBody = false ∧ ev.isEval = false ∧ ev.appended = [] ∧ ev.failed = false := by
  cases ev with
  | poll => cases h
  | call c rc => cases c <;> first | exact ⟨rfl, rfl, rfl, rfl⟩ | cases h

/-- while the headers are delayed only the module's own buffers are queued, none of them the last one -/
structure Inspecting (p : Bool) (s : St) : Prop where
  errorPage : s.r.errorPage = false
  untriggered : s.ctx.interventionTriggered = false
  processable : s.ctx.responseBodyProcessable = p
  own : s.ctx.headersDelayed = true → ∀ l ∈ s.ctx.pendingChain, ∃ b, l = .own b ∧ b.lastBuf = false

/-! ## What a call hands on -/

theorem queueLink_own {c : Content} {x : Buf × ℕ} (h : x.1.lastBuf = false) :
    ∃ b, queueLink c x = .own b ∧ b.lastBuf = false := by
  unfold queueLink
  rw [if_neg (by simp [h])]
  split_ifs
  · exact ⟨_, rfl, rfl⟩
  · refine ⟨_, rfl, ?_⟩
    unfold copyBuf
    split_ifs <;> rfl

/-- a buffer of the chain in hand, handed on, is one the call brought -/
theorem hand_last {c : Content} {inn : List Buf} {i : ℕ} (h : ((Link.input i).hand c inn).buf.lastBuf = true) :
    inn.any (·.lastBuf) = true := by
  have hb : (inn.getD i {}).lastBuf = true := h
  cases hi : inn[i]? with
  | none =>
    rw [List.getD_eq_getElem?_getD, hi] at hb
    cases hb
  | some b =>
    rw [List.getD_eq_getElem?_getD, hi] at hb
    exact List.any_eq_true.2 ⟨b, List.mem_of_getElem? hi, hb⟩

/-- what a call that does not end the response adds to the trace -/
structure Hands (p : Bool) (c : BodyCall) (evs : Trace) : Prop where
  parts : ∃ ins mid, Inspected c.env.content p c.inn ins ∧ (∀ ev ∈ mid, ev.isHeader = true) ∧
    (evs = ins ++ mid ∨ ∃ out rc, evs = ins ++ mid ++ [.call (.nextBody out) rc] ∧
      ∀ h ∈ out, h.buf.lastBuf = true → c.inn.any (·.lastBuf) = true)

theorem Hands.of_null (p : Bool) (env : Env) (rc : ℤ) : Hands p ⟨env, []⟩ [.call (.nextBody []) rc] :=
  ⟨[], [], ⟨by simpa using Stretch.nil, fun _ _ h => absurd h List.not_mem_nil⟩, fun _ h => absurd h List.not_mem_nil,
    Or.inr ⟨[], rc, rfl, fun _ h => absurd h List.not_mem_nil⟩⟩

theorem bodyStep_hands {p : Bool} (c : BodyCall) (h : Inspecting p s) {evs : Trace}
    (htr : (bodyStep s c).trace = s.trace ++ evs) (hun : (bodyStep s c).ctx.interventionTriggered = false) :
    Inspecting p (bodyStep s c) ∧ Hands p c evs := by
  obtain ⟨e, inn⟩ := c
  by_cases hne : inn = []
  · subst hne
    rw [show bodyStep s ⟨e, []⟩ = _ from bodyFilter_null (e := e) (s := s)] at htr ⊢
    obtain rfl : evs = [_] := trace_cancel htr rfl
    exact ⟨⟨h.errorPage, h.untriggered, h.processable, h.own⟩, Hands.of_null p e _⟩
  have ho : Outcome e inn s (bodyStep s ⟨e, inn⟩) := bodyFilter_outcome inn hne h.errorPage h.untriggered
  generalize bodyStep s ⟨e, inn⟩ = t at htr hun ho ⊢
  have hkeep : ∀ evs', Inspecting p ((s.looped e inn evs').setCtx
      { (s.looped e inn evs').ctx with headersDelayed := false }) := fun evs' =>
    ⟨by simpa [looped_r] using h.errorPage, by simpa [looped_triggered] using h.untriggered,
      by simpa [looped_processable] using h.processable, fun hd => by cases hd⟩
  cases ho with
  | blocked hb =>
    rw [hb.triggered] at hun
    cases hun
  | streamed evs' rc hins hd =>
    have htr' := St.chainOut_trace (e := e) (s := s.looped e inn evs') rc
    rw [looped_trace, List.append_assoc] at htr'
    obtain rfl := trace_cancel htr htr'
    have hinn : (s.looped e inn evs').inn = inn := by rw [looped_inn, if_neg (by simp [hd])]
    have hd' : (s.looped e inn evs').ctx.headersDelayed = false := by rw [looped_delayed, hd]
    refine ⟨⟨(hkeep evs').errorPage, (hkeep evs').untriggered, (hkeep evs').processable, fun hdel => ?_⟩, ?_⟩
    · exact absurd hdel (by simp [St.chainOut, hd'])
    · rw [h.processable] at hins
      refine ⟨evs', [], hins, fun _ h => absurd h List.not_mem_nil,
        Or.inr ⟨_, rc, by rw [List.append_nil], fun x hx hl => ?_⟩⟩
      obtain ⟨l, hl', rfl⟩ := List.mem_map.1 hx
      obtain ⟨i, -, rfl⟩ := List.mem_map.1 hl'
      rw [hinn] at hl
      exact hand_last hl
  | held evs' hins hd hl hcap =>
    obtain rfl : evs = evs' := trace_cancel htr (looped_trace inn evs')
    refine ⟨⟨(hkeep evs).errorPage, (hkeep evs).untriggered, (hkeep evs).processable, fun _ l hmem => ?_⟩, ?_⟩
    · rw [looped_pending, if_pos hd] at hmem
      rcases List.mem_append.1 hmem with hmem | hmem
      · exact h.own hd l hmem
      · obtain ⟨x, hx, rfl⟩ := List.mem_map.1 hmem
        have hxin := List.mem_of_getElem? (getElem?_of_mem_zipIdx hx)
        exact queueLink_own (by simpa using List.any_eq_false.1 hl x.1 hxin)
    · rw [h.processable] at hins
      exact ⟨evs, [], hins, fun _ h => absurd h List.not_mem_nil, Or.inl (List.append_nil _).symm⟩
  | stuck evs' hins hd =>
    have htr' := St.headersOut_trace (e := e) (s := s.looped e inn evs') ngxError
    rw [looped_trace, List.append_assoc] at htr'
    obtain rfl := trace_cancel htr htr'
    refine ⟨⟨(hkeep evs').errorPage, (hkeep evs').untriggered, (hkeep evs').processable, fun hdel => by cases hdel⟩, ?_⟩
    rw [h.processable] at hins
    exact ⟨evs', [_], hins, fun ev hev => by rw [List.mem_singleton.1 hev]; rfl, Or.inl rfl⟩
  | flushed evs' rc rc' hins hd hdue hrc =>
    have htr' := St.queueOut_trace (e := e) (s := (s.looped e inn evs').headersOut e rc) rc'
    rw [St.headersOut_trace, looped_trace, List.append_assoc, List.append_assoc] at htr'
    obtain rfl := trace_cancel htr htr'
    refine ⟨⟨(hkeep evs').errorPage, (hkeep evs').untriggered, (hkeep evs').processable, fun hdel => by cases hdel⟩, ?_⟩
    rw [h.processable] at hins
    refine ⟨evs', [_], hins, fun ev hev => by rw [List.mem_singleton.1 hev]; rfl,
      Or.inr ⟨_, rc', (List.append_assoc _ _ _).symm, fun x hx hl => ?_⟩⟩
    obtain ⟨l, hl', rfl⟩ := List.mem_map.1 hx
    have hmem : l ∈ (s.looped e inn evs').ctx.pendingChain := hl'
    rw [looped_pending, if_pos hd] at hmem
    rcases List.mem_append.1 hmem with hmem | hmem
    · obtain ⟨b, rfl, hb⟩ := h.own hd l hmem
      have hb' : b.lastBuf = true := hl
      rw [hb] at hb'
      cases hb'
    · obtain ⟨y, hy, rfl⟩ := List.mem_map.1 hmem
      by_cases hlast : y.1.lastBuf = true
      · exact List.any_eq_true.2 ⟨y.1, List.mem_of_getElem? (getElem?_of_mem_zipIdx hy), hlast⟩
      · obtain ⟨b, hb, hbl⟩ := queueLink_own (c := e.content) (x := y) (by simpa using hlast)
        rw [hb] at hl
        have hb' : b.lastBuf = true := hl
        rw [hbl] at hb'
        cases hb'

namespace Hands

variable {p : Bool} {c : BodyCall} {evs : Trace}

/-- the chain handed on is the last event, and everything before it is the inspection and the headers -/
theorem split (h : Hands p c evs) {pre post : Trace} {out : List Handed} {rc : ℤ}
    (hs : evs = pre ++ .call (.nextBody out) rc :: post) :
    ∃ ins mid, Inspected c.env.content p c.inn ins ∧ (∀ ev ∈ mid, ev.isHeader = true) ∧ pre = ins ++ mid ∧
      evs = pre ++ [.call (.nextBody out) rc] ∧ ∀ x ∈ out, x.buf.lastBuf = true → c.inn.any (·.lastBuf) = true := by
  obtain ⟨ins, mid, hins, hmid, hparts⟩ := h.parts
  have hquiet : ∀ ev ∈ ins ++ mid, ev.isBody = false := by
    intro ev hev
    rcases List.mem_append.1 hev with hev | hev
    · exact Event.isBody_of_not_output (hins.stretch.quiet ev hev)
    · exact (Event.of_isHeader (hmid ev hev)).1
  rcases hparts with heq | ⟨out', rc', heq, hlast⟩
  · have hbody := hquiet (.call (.nextBody out) rc) (by rw [← heq, hs]; simp)
    cases hbody
  · rw [heq] at hs
    rcases List.eq_nil_or_concat post with rfl | ⟨post', z, rfl⟩
    · obtain ⟨rfl, hev⟩ := List.append_inj' hs rfl
      obtain ⟨⟨rfl⟩, rfl⟩ : out' = out ∧ rc' = rc := by simpa using hev
      exact ⟨ins, mid, hins, hmid, rfl, heq, hlast⟩
    · exfalso
      have hin : ins ++ mid = pre ++ .call (.nextBody out) rc :: post' := by
        have hs' : (ins ++ mid) ++ [.call (.nextBody out') rc'] =
            (pre ++ .call (.nextBody out) rc :: post') ++ [z] := by rw [hs]; simp
        exact (List.append_inj' hs' rfl).1
      have hbody := hquiet (.call (.nextBody out) rc) (by rw [hin]; simp)
      cases hbody

theorem evals (h : Hands p c evs) : evs.evals = c.inn.countP (·.lastBuf) := by
  obtain ⟨ins, mid, hins, hmid, hparts⟩ := h.parts
  have hm : Trace.evals mid = 0 :=
    List.countP_eq_zero.2 fun ev hev => by simp [(Event.of_isHeader (hmid ev hev)).2.1]
  rcases hparts with rfl | ⟨out, rc, rfl, -⟩
  · rw [Trace.evals_append, hins.stretch.evals, hm, Nat.add_zero]
  · rw [Trace.evals_append, Trace.evals_append, hins.stretch.evals, hm]
    rfl

theorem appended (h : Hands p c evs) (hp : p = true) : evs.appended = c.received := by
  obtain ⟨ins, mid, hins, hmid, hparts⟩ := h.parts
  have hm : Trace.appended mid = [] :=
    List.flatMap_eq_nil_iff.2 fun ev hev => (Event.of_isHeader (hmid ev hev)).2.2.1
  have ha : Trace.appended ins = c.received := by
    rw [hins.stretch.appended, if_pos hp]
    rfl
  rcases hparts with rfl | ⟨out, rc, rfl, -⟩
  · rw [Trace.appended_append, ha, hm, List.append_nil]
  · rw [Trace.appended_append, Trace.appended_append, ha, hm, List.append_nil]
    exact List.append_nil _

/-- nothing in such a call fails -/
theorem clean (h : Hands p c evs) : evs.Clean := by
  obtain ⟨ins, mid, hins, hmid, hparts⟩ := h.parts
  have hm : Trace.Clean mid := fun ev hev => (Event.of_isHeader (hmid ev hev)).2.2.2
  rcases hparts with rfl | ⟨out, rc, rfl, -⟩
  · exact Trace.clean_append.2 ⟨hins.stretch.clean, hm⟩
  · exact Trace.clean_append.2 ⟨Trace.clean_append.2 ⟨hins.stretch.clean, hm⟩, Trace.clean_single.2 rfl⟩

end Hands

/-! ## What is queued -/

/-- while the headers are delayed, what is queued is the end of what has been received, `d` -/
def QueueTail (F : ℕ → ℤ → UInt8) (d : Bytes) (s : St) : Prop :=
  s.ctx.headersDelayed = true → ∃ q, QueueBytes F s.ctx.pendingChain q ∧ q <:+ d

theorem suffix_append_both {α : Type} {q d : List α} (h : q <:+ d) (l : List α) : q ++ l <:+ d ++ l := by
  obtain ⟨m, rfl⟩ := h
  exact ⟨m, (List.append_assoc _ _ _).symm⟩

/-- the chain a call hands on is the end of what has been received -/
theorem bodyStep_queueTail {F : ℕ → ℤ → UInt8} {p : Bool} {d : Bytes} (c : BodyCall) (hc : CallValid F c)
    (h : Inspecting p s) (hq : QueueTail F d s) {evs : Trace} (htr : (bodyStep s c).trace = s.trace ++ evs)
    (hun : (bodyStep s c).ctx.interventionTriggered = false) :
    QueueTail F (d ++ c.received) (bodyStep s c) ∧ evs.handedBytes <:+ d ++ c.received := by
  obtain ⟨e, inn⟩ := c
  by_cases hne : inn = []
  · subst hne
    rw [show bodyStep s ⟨e, []⟩ = _ from bodyFilter_null (e := e) (s := s)] at htr ⊢
    obtain rfl := trace_cancel htr rfl
    rw [show BodyCall.received ⟨e, []⟩ = [] from rfl, List.append_nil]
    exact ⟨hq, List.nil_suffix⟩
  have ho : Outcome e inn s (bodyStep s ⟨e, inn⟩) := bodyFilter_outcome inn hne h.errorPage h.untriggered
  generalize bodyStep s ⟨e, inn⟩ = t at htr hun ho ⊢
  cases ho with
  | blocked hb =>
    rw [hb.triggered] at hun
    cases hun
  | streamed evs' rc hins hd =>
    have htr' := St.chainOut_trace (e := e) (s := s.looped e inn evs') rc
    rw [looped_trace, List.append_assoc] at htr'
    obtain rfl := trace_cancel htr htr'
    refine ⟨fun hdel => absurd hdel (by simp [St.chainOut, looped_delayed, hd]), ?_⟩
    rw [Trace.handedBytes_append, hins.stretch.quiet.handedBytes, looped_inn, if_neg (by simp [hd])]
    have hbytes : Trace.handedBytes [.call (.nextBody ((inLinks inn).map (Link.hand e.content inn))) rc] =
        BodyCall.received ⟨e, inn⟩ := by
      simp only [Trace.handedBytes, Event.handedBytes, Event.handed, List.flatMap_cons, List.flatMap_nil,
        List.append_nil]
      exact inLinks_bytes e.content inn
    rw [hbytes, List.nil_append]
    exact List.suffix_append _ _
  | held evs' hins hd hl hcap =>
    obtain rfl : evs = evs' := trace_cancel htr (looped_trace inn evs')
    obtain ⟨q, hqb, hqs⟩ := hq hd
    refine ⟨fun _ => ⟨q ++ inn.flatMap (·.bytes e.content), fun c' inn' hF => ?_, suffix_append_both hqs _⟩, ?_⟩
    · rw [looped_pending, if_pos hd, List.map_append, List.flatMap_append, hqb c' inn' hF,
        queueLinks_bytes _ _ inn inn' hc.valid (hF.trans hc.file.symm)]
      intro x hx hlast
      have hall := List.any_eq_false.1 hl x.1 (List.mem_of_getElem? (getElem?_of_mem_zipIdx hx))
      exact absurd hlast hall
    · rw [hins.stretch.quiet.handedBytes]
      exact List.nil_suffix
  | stuck evs' hins hd =>
    have htr' := St.headersOut_trace (e := e) (s := s.looped e inn evs') ngxError
    rw [looped_trace, List.append_assoc] at htr'
    obtain rfl := trace_cancel htr htr'
    refine ⟨fun hdel => absurd hdel Bool.false_ne_true, ?_⟩
    rw [Trace.handedBytes_append, hins.stretch.quiet.handedBytes]
    exact List.nil_suffix
  | flushed evs' rc rc' hins hd hdue hrc =>
    have htr' := St.queueOut_trace (e := e) (s := (s.looped e inn evs').headersOut e rc) rc'
    rw [St.headersOut_trace, looped_trace, List.append_assoc, List.append_assoc] at htr'
    obtain rfl := trace_cancel htr htr'
    obtain ⟨q, hqb, hqs⟩ := hq hd
    refine ⟨fun hdel => absurd hdel Bool.false_ne_true, ?_⟩
    have hbytes : (((s.looped e inn evs').ctx.pendingChain).map (Link.hand e.content (s.looped e inn evs').inn)).flatMap
        (·.bytes) = q ++ inn.flatMap (·.bytes e.content) := by
      rw [looped_pending, if_pos hd, looped_inn, if_pos hd, List.map_append, List.flatMap_append, hqb _ _ hc.file,
        queueLinks_bytes _ _ inn _ hc.valid rfl fun x hx hlast => ⟨rfl, afterQueue_last hx hlast⟩]
    have hout : Trace.handedBytes ([.call (.nextHeader (s.looped e inn evs').r.headersOut
        (s.looped e inn evs').r.headerOnly) rc] ++ [.call (.nextBody (((s.looped e inn evs').headersOut e
          rc).ctx.pendingChain.map (Link.hand e.content ((s.looped e inn evs').headersOut e rc).inn))) rc']) =
        q ++ inn.flatMap (·.bytes e.content) := by
      rw [← hbytes]
      simp [Trace.handedBytes, Event.handedBytes, Event.handed, St.headersOut]
    rw [Trace.handedBytes_append, hins.stretch.quiet.handedBytes, hout]
    exact suffix_append_both hqs _

/-! ## Runs before an intervention -/

/-- the events of a run that need not be steady to start with -/
theorem Inspecting.steady {p : Bool} (h : Inspecting p s) : Steady s := Or.inl h.errorPage

theorem bodyRun_inspecting {p : Bool} (calls : List BodyCall) (h : Inspecting p s)
    (hun : (bodyRun s calls).ctx.interventionTriggered = false) :
    Inspecting p (bodyRun s calls) ∧ (p = true → (RunEvents s calls).appended = calls.flatMap BodyCall.received) := by
  induction calls generalizing s with
  | nil => exact ⟨h, fun _ => by rw [runEvents_nil]; rfl⟩
  | cons c calls ih =>
    obtain ⟨evs, htr, hevs⟩ := runEvents_cons h.steady c calls
    obtain ⟨h1, hhands⟩ := bodyStep_hands c h htr (bodyRun_untriggered_of calls hun)
    obtain ⟨h2, happ⟩ := ih h1 hun
    refine ⟨h2, fun hp => ?_⟩
    rw [hevs, Trace.appended_append, hhands.appended hp, happ hp, List.flatMap_cons]

theorem bodyRun_queueTail {F : ℕ → ℤ → UInt8} {p : Bool} {d : Bytes} (calls : List BodyCall)
    (hc : ∀ c ∈ calls, CallValid F c) (h : Inspecting p s) (hq : QueueTail F d s)
    (hun : (bodyRun s calls).ctx.interventionTriggered = false) :
    QueueTail F (d ++ calls.flatMap BodyCall.received) (bodyRun s calls) := by
  induction calls generalizing s d with
  | nil => simpa using hq
  | cons c calls ih =>
    obtain ⟨evs, htr, -⟩ := runEvents_cons h.steady c calls
    have hun1 : (bodyStep s c).ctx.interventionTriggered = false := bodyRun_untriggered_of calls hun
    obtain ⟨h1, -⟩ := bodyStep_hands c h htr hun1
    obtain ⟨hq1, -⟩ := bodyStep_queueTail c (hc c List.mem_cons_self) h hq htr hun1
    have := ih (fun x hx => hc x (List.mem_cons_of_mem _ hx)) h1 hq1 hun
    rwa [List.append_assoc, ← List.flatMap_cons] at this

/-! ## The call that blocks, and those after it -/

/-- a call that triggers the intervention comes to `Outcome.blocked` -/
theorem bodyStep_blocked {p : Bool} (c : BodyCall) (h : Inspecting p s)
    (ht : (bodyStep s c).ctx.interventionTriggered = true) :
    ∃ P, Blocked c.env (c.inn.countP (·.lastBuf)) P (s.setInn c.inn) (bodyStep s c) := by
  obtain ⟨e, inn⟩ := c
  by_cases hne : inn = []
  · subst hne
    rw [show bodyStep s ⟨e, []⟩ = _ from bodyFilter_null (e := e) (s := s)] at ht
    exact absurd ht (by simp [h.untriggered])
  have ho : Outcome e inn s (bodyStep s ⟨e, inn⟩) := bodyFilter_outcome inn hne h.errorPage h.untriggered
  generalize bodyStep s ⟨e, inn⟩ = t at ht ho ⊢
  cases ho with
  | blocked hb => exact ⟨_, hb⟩
  | _ => exact absurd ht (by simp [St.chainOut, St.queueOut, St.headersOut, looped_triggered, h.untriggered])

/-- phase 4 is evaluated at most once for each last buffer of a call -/
theorem bodyStep_evals {p : Bool} (c : BodyCall) (h : Inspecting p s ∨ s.ctx.interventionTriggered = true) {evs : Trace}
    (htr : (bodyStep s c).trace = s.trace ++ evs) : evs.evals ≤ c.inn.countP (·.lastBuf) ∧
      (Inspecting p (bodyStep s c) ∨ (bodyStep s c).ctx.interventionTriggered = true) := by
  rcases h with h | ht
  · by_cases hun : (bodyStep s c).ctx.interventionTriggered = true
    · refine ⟨?_, Or.inr hun⟩
      obtain ⟨P, hb⟩ := bodyStep_blocked c h hun
      obtain ⟨ins, ev, status, htr', href, hend, -⟩ := hb.trace
      rw [List.append_assoc] at htr'
      obtain rfl := trace_cancel htr htr'
      have hev : Trace.evals [ev] = 0 := List.countP_eq_zero.2 fun x hx => by
        rw [List.mem_singleton.1 hx, hend.evals]
        exact Bool.false_ne_true
      rw [Trace.evals_append, hev]
      exact href.evals
    · obtain ⟨h1, hhands⟩ := bodyStep_hands c h htr (by simpa using hun)
      exact ⟨hhands.evals.le, Or.inl h1⟩
  · refine ⟨?_, Or.inr (bodyStep_triggered ht c)⟩
    obtain ⟨e, inn⟩ := c
    by_cases hne : inn = []
    · subst hne
      rw [show bodyStep s ⟨e, []⟩ = _ from bodyFilter_null (e := e) (s := s)] at htr
      obtain rfl := trace_cancel htr rfl
      exact Nat.zero_le _
    · rw [show bodyStep s ⟨e, inn⟩ = _ from bodyFilter_triggered (e := e) inn hne ht] at htr
      split_ifs at htr
      · obtain rfl := trace_cancel htr (List.append_nil _).symm
        exact Nat.zero_le _
      · obtain rfl := trace_cancel htr (St.chainOut_trace _)
        exact Nat.zero_le _

theorem bodyRun_evals {p : Bool} (calls : List BodyCall) (h : Inspecting p s ∨ s.ctx.interventionTriggered = true) :
    (RunEvents s calls).evals ≤ (calls.flatMap BodyCall.inn).countP (·.lastBuf) := by
  induction calls generalizing s with
  | nil => rw [runEvents_nil]; exact le_rfl
  | cons c calls ih =>
    have hsteady : Steady s := h.imp Inspecting.errorPage id
    obtain ⟨evs, htr, hevs⟩ := runEvents_cons hsteady c calls
    obtain ⟨h1, h2⟩ := bodyStep_evals c h htr
    rw [hevs, Trace.evals_append, List.flatMap_cons, List.countP_append]
    exact Nat.add_le_add h1 (ih h2)

/-- after an intervention only the chain in hand is handed on, or nothing -/
theorem bodyStep_passing (ht : s.ctx.interventionTriggered = true) (c : BodyCall) {evs : Trace}
    (htr : (bodyStep s c).trace = s.trace ++ evs) : (∀ ev ∈ evs, ev.isBody = true) ∧
      (evs.handedBytes = [] ∨ evs.handedBytes = c.received) ∧
      (s.r.headerOnly = true → evs.handedBytes = [] ∧ (bodyStep s c).r.headerOnly = true) := by
  obtain ⟨e, inn⟩ := c
  by_cases hne : inn = []
  · subst hne
    rw [show bodyStep s ⟨e, []⟩ = _ from bodyFilter_null (e := e) (s := s)] at htr ⊢
    obtain rfl := trace_cancel htr rfl
    exact ⟨fun ev hev => by rw [List.mem_singleton.1 hev]; rfl, Or.inl rfl, fun ho => ⟨rfl, ho⟩⟩
  · rw [show bodyStep s ⟨e, inn⟩ = _ from bodyFilter_triggered (e := e) inn hne ht] at htr ⊢
    split_ifs at htr ⊢ with ho
    · obtain rfl := trace_cancel htr (List.append_nil _).symm
      exact ⟨fun ev hev => absurd hev List.not_mem_nil, Or.inl rfl, fun ho => ⟨rfl, ho⟩⟩
    · obtain rfl := trace_cancel htr (St.chainOut_trace _)
      refine ⟨fun ev hev => by rw [List.mem_singleton.1 hev]; rfl, Or.inr ?_, fun h => absurd h ho⟩
      simp only [Trace.handedBytes, Event.handedBytes, Event.handed, List.flatMap_cons, List.flatMap_nil,
        List.append_nil]
      exact inLinks_bytes e.content inn

/-- whatever is handed on after an intervention comes from the chains of the later calls -/
theorem bodyRun_passing (calls : List BodyCall) (ht : s.ctx.interventionTriggered = true) :
    (∀ ev ∈ RunEvents s calls, ev.isBody = true) ∧ ∃ kept : List BodyCall, kept.Sublist calls ∧
      (RunEvents s calls).handedBytes = kept.flatMap BodyCall.received := by
  induction calls generalizing s with
  | nil =>
    rw [runEvents_nil]
    exact ⟨fun _ h => absurd h List.not_mem_nil, [], List.Sublist.refl _, rfl⟩
  | cons c calls ih =>
    obtain ⟨evs, htr, hevs⟩ := runEvents_cons (Or.inr ht) c calls
    obtain ⟨hbody, hbytes, -⟩ := bodyStep_passing ht c htr
    obtain ⟨hrest, kept, hsub, hkept⟩ := ih (bodyStep_triggered ht c)
    rw [hevs]
    refine ⟨List.forall_mem_append.2 ⟨hbody, hrest⟩, ?_⟩
    rw [Trace.handedBytes_append, hkept]
    rcases hbytes with h0 | h1
    · exact ⟨kept, hsub.cons c, by rw [h0, List.nil_append]⟩
    · exact ⟨c :: kept, hsub.cons_cons c, by rw [h1, List.flatMap_cons]⟩

/-- behind a header-only response everything is swallowed -/
theorem bodyRun_swallows (calls : List BodyCall) (ht : s.ctx.interventionTriggered = true)
    (ho : s.r.headerOnly = true) : (RunEvents s calls).handedBytes = [] := by
  induction calls generalizing s with
  | nil => rw [runEvents_nil]; rfl
  | cons c calls ih =>
    obtain ⟨evs, htr, hevs⟩ := runEvents_cons (Or.inr ht) c calls
    obtain ⟨-, -, hswallow⟩ := bodyStep_passing ht c htr
    obtain ⟨h0, ho1⟩ := hswallow ho
    rw [hevs, Trace.handedBytes_append, h0, ih (bodyStep_triggered ht c) ho1]
    rfl

/-! ## The response -/

/-- a response at the first call of the body filter: delayed or not -/
structure Fresh (s : St) : Prop where
  errorPage : s.r.errorPage = false
  untriggered : s.ctx.interventionTriggered = false
  queue : s.ctx.pendingChain = []

theorem Fresh.inspecting (h : Fresh s) : Inspecting s.ctx.responseBodyProcessable s :=
  ⟨h.errorPage, h.untriggered, rfl, fun _ l hl => by rw [h.queue] at hl; cases hl⟩

theorem Fresh.queueTail (h : Fresh s) (F : ℕ → ℤ → UInt8) : QueueTail F [] s :=
  fun _ => ⟨[], fun c inn _ => by rw [h.queue]; rfl, List.nil_suffix⟩

/-- when the call `c` after `calls` hands a chain on, everything received by then has been appended, in order, the chain
is the end of it, and nothing in the call has failed or been interrupted -/
def InspectedFirst (s : St) (calls : List BodyCall) (c : BodyCall) : Prop :=
  ∀ pre out rc post, RunEvents (bodyRun s calls) [c] = pre ++ .call (.nextBody out) rc :: post →
    Trace.appended (RunEvents s calls ++ pre) = (calls ++ [c]).flatMap BodyCall.received ∧
      out.flatMap (·.bytes) <:+ (calls ++ [c]).flatMap BodyCall.received ∧ Trace.Clean pre

/-- when the call `c` after `calls` hands a last buffer on, it has evaluated phase 4 -/
def EvaluatedFirst (s : St) (calls : List BodyCall) (c : BodyCall) : Prop :=
  ∀ pre out rc post, RunEvents (bodyRun s calls) [c] = pre ++ .call (.nextBody out) rc :: post →
    (∃ h ∈ out, h.buf.lastBuf = true) → 1 ≤ Trace.evals pre

/-- the call `c` after `calls` ends the response, and `later` calls leak nothing of it -/
structure BlockedForGood (s : St) (calls : List BodyCall) (c : BodyCall) (later : List BodyCall) : Prop where
  ends : ∃ ins ev status, RunEvents (bodyRun s calls) [c] = ins ++ [ev] ∧ Trace.Quiet ins ∧ IsEnd status ev ∧
    StatusOf ins status
  triggered : (bodyRun s (calls ++ [c])).ctx.interventionTriggered = true
  dropped : (bodyRun s calls).ctx.headersDelayed = true → (bodyRun s (calls ++ [c])).ctx.pendingChain = []
  noHead : ∀ ev ∈ RunEvents (bodyRun s (calls ++ [c])) later, ev.isBody = true
  own : ∃ kept : List BodyCall, kept.Sublist later ∧
    (RunEvents (bodyRun s (calls ++ [c])) later).handedBytes = kept.flatMap BodyCall.received
  swallowed : (∃ hdr only rc, .call (.nextHeader hdr only) rc ∈ RunEvents (bodyRun s calls) [c]) →
    (∀ r : Request, r.headerOnly = true → c.env.headerOnly r = true) →
    (RunEvents (bodyRun s (calls ++ [c])) later).handedBytes = []

theorem runEvents_single {c : BodyCall} {evs : Trace} (h : (bodyStep s c).trace = s.trace ++ evs) :
    RunEvents s [c] = evs := runEvents_eq h

theorem blockedForGood {p : Bool} {t : St} (c : BodyCall) (later : List BodyCall) (h : Inspecting p t)
    (hdirty : ¬ (RunEvents t [c]).Clean) (calls : List BodyCall) (hcalls : bodyRun s calls = t) :
    BlockedForGood s calls c later := by
  obtain ⟨evs, hevs⟩ := (bodyStep_steady h.steady c).2
  have htr : (bodyStep t c).trace = t.trace ++ evs := hevs.symm
  rw [runEvents_single htr] at hdirty
  have ht : (bodyStep t c).ctx.interventionTriggered = true := by
    by_contra hun
    exact hdirty (bodyStep_hands c h htr (by simpa using hun)).2.clean
  obtain ⟨P, hb⟩ := bodyStep_blocked c h ht
  obtain ⟨ins, ev, status, htr', href, hend, hstatus⟩ := hb.trace
  have hsplit : evs = ins ++ [ev] := trace_cancel htr (htr'.trans (List.append_assoc _ _ _))
  have hnext : bodyRun s (calls ++ [c]) = bodyStep t c := by rw [bodyRun_append, hcalls]; rfl
  obtain ⟨hpass, hkept⟩ := bodyRun_passing later ht
  constructor
  · exact ⟨ins, ev, status, by rw [hcalls, runEvents_single htr, hsplit], href.quiet, hend, hstatus⟩
  · rw [hnext]
    exact ht
  · intro hd
    rw [hcalls] at hd
    rw [hnext, hb.queue]
    exact if_pos hd
  · rw [hnext]
    exact hpass
  · rw [hnext]
    exact hkept
  · rintro ⟨hdr, only, rc, hmem⟩ hkeep
    rw [hcalls, runEvents_single htr, hsplit] at hmem
    rw [hnext]
    have hlast : ev = .call (.nextHeader hdr only) rc := by
      rcases List.mem_append.1 hmem with hin | hin
      · have hquiet := href.quiet _ hin
        cases hquiet
      · exact (List.mem_singleton.1 hin).symm
    subst hlast
    obtain ⟨r, hr, hleft⟩ := hb.redirected htr'
    exact bodyRun_swallows later ht (by rw [hleft, Request.afterHeader_headerOnly, hkeep r hr])

/-- **Inspect before forward, and no leak behind a block.** For every run on a response that starts without an
intervention and with no error page on the wire, every call `c` of it before which no intervention has been triggered,
and every continuation. -/
theorem inspected_then_forwarded (s : St) (calls later : List BodyCall) (c : BodyCall) (F : ℕ → ℤ → UInt8) (h : Fresh s)
    (hun : (bodyRun s calls).ctx.interventionTriggered = false) :
    (s.ctx.responseBodyProcessable = true → (∀ d ∈ calls ++ [c], CallValid F d) → InspectedFirst s calls c) ∧
    (RunEvents s (calls ++ c :: later)).evals ≤ ((calls ++ c :: later).flatMap BodyCall.inn).countP (·.lastBuf) ∧
    EvaluatedFirst s calls c ∧
    (¬ (RunEvents (bodyRun s calls) [c]).Clean → BlockedForGood s calls c later) := by
  obtain ⟨ht, happ⟩ := bodyRun_inspecting calls h.inspecting hun
  obtain ⟨evs, hevs⟩ := (bodyStep_steady ht.steady c).2
  have htr : (bodyStep (bodyRun s calls) c).trace = (bodyRun s calls).trace ++ evs := hevs.symm
  -- a call that hands something on has not ended the response
  have hands : ∀ pre out rc post, evs = pre ++ .call (.nextBody out) rc :: post →
      (bodyStep (bodyRun s calls) c).ctx.interventionTriggered = false := by
    intro pre out rc post hsplit
    by_contra hblock
    obtain ⟨P, hb⟩ := bodyStep_blocked c ht (by simpa using hblock)
    obtain ⟨ins, ev, status, htr', href, hend, -⟩ := hb.trace
    have hall : evs = ins ++ [ev] := trace_cancel htr (htr'.trans (List.append_assoc _ _ _))
    have hmem : Event.call (.nextBody out) rc ∈ ins ++ [ev] := by rw [← hall, hsplit]; simp
    rcases List.mem_append.1 hmem with hin | hin
    · have hquiet := href.quiet _ hin
      cases hquiet
    · rw [List.mem_singleton] at hin
      subst hin
      cases hend
  refine ⟨fun hp hc pre out rc post hsplit => ?_, bodyRun_evals _ (Or.inl h.inspecting),
    fun pre out rc post hsplit hlast => ?_, fun hdirty => blockedForGood c later ht hdirty calls rfl⟩
  · rw [runEvents_single htr] at hsplit
    have hun1 := hands pre out rc post hsplit
    obtain ⟨-, hhands⟩ := bodyStep_hands c ht htr hun1
    obtain ⟨ins, mid, hins, hmid, hpre, heq, -⟩ := hhands.split hsplit
    have hq := bodyRun_queueTail calls (fun d hd => hc d (List.mem_append_left _ hd)) h.inspecting (h.queueTail F) hun
    obtain ⟨-, hsuffix⟩ := bodyStep_queueTail c (hc c (by simp)) ht hq htr hun1
    have happ1 := hhands.appended hp
    have hclean := hhands.clean
    have hout : out.flatMap (·.bytes) <:+ Trace.handedBytes evs := by
      rw [heq, Trace.handedBytes_append]
      exact ⟨Trace.handedBytes pre, by simp [Trace.handedBytes, Event.handedBytes, Event.handed]⟩
    rw [heq] at happ1 hclean
    refine ⟨?_, ?_, (Trace.clean_append.1 hclean).1⟩
    · rw [Trace.appended_append, List.flatMap_append, happ hp]
      rw [Trace.appended_append] at happ1
      simpa [Trace.appended, Event.appended] using happ1
    · rw [List.nil_append] at hsuffix
      have hall := hout.trans hsuffix
      simpa using hall
  · rw [runEvents_single htr] at hsplit
    obtain ⟨-, hhands⟩ := bodyStep_hands c ht htr (hands pre out rc post hsplit)
    obtain ⟨ins, mid, hins, hmid, hpre, heq, hany⟩ := hhands.split hsplit
    obtain ⟨x, hx, hxl⟩ := hlast
    have hcount : 0 < c.inn.countP (·.lastBuf) := by
      obtain ⟨b, hb, hbl⟩ := List.any_eq_true.1 (hany x hx hxl)
      exact List.countP_pos_iff.2 ⟨b, hb, hbl⟩
    have hevals := hhands.evals
    rw [heq, Trace.evals_append] at hevals
    have hzero : Trace.evals [.call (.nextBody out) rc] = 0 := rfl
    omega

/-- an environment whose engine refuses every chunk of the response body -/
def refusingEnv : Env := { Env.calm (.fill 1) with
  ret := fun t call => match call with
    | .engine _ (.appendResponseBody ..) => 1
    | _ => (Env.calm (.fill 1)).ret t call }

/-- a chunk the engine refuses -/
def refusedCall : BodyCall := ⟨refusingEnv, [{ last := 2, memory := true }]⟩

/-- what the producer sends next: the last buffer -/
def lastCall : BodyCall := ⟨refusingEnv, [{ last := 1, memory := true, lastBuf := true }]⟩

/-- **Behind a block the last buffer is handed on without phase 4.** The chunk is refused and the request finalized; the
chain that follows passes, uninspected. -/
theorem last_buffer_unevaluated : Fresh delayedState ∧
    (∃ out rc, Event.call (.nextBody out) rc ∈ RunEvents delayedState [refusedCall, lastCall] ∧
      (∃ h ∈ out, h.buf.lastBuf = true) ∧ out.flatMap (·.bytes) = [1]) ∧
    (RunEvents delayedState [refusedCall, lastCall]).evals = 0 ∧
    (RunEvents delayedState [refusedCall, lastCall]).appended = [1, 1] := by
  refine ⟨⟨rfl, rfl, rfl⟩, ⟨[⟨{ last := 1, memory := true, lastBuf := true }, [1], some 0⟩], 0, ?_⟩, ?_, ?_⟩
  · decide +kernel
  · decide +kernel
  · decide +kernel

theorem refused_chunk_blocks : BlockedForGood delayedState [] refusedCall [lastCall] :=
  (inspected_then_forwarded delayedState [] [lastCall] refusedCall (fun _ _ => 0) ⟨rfl, rfl, rfl⟩ rfl).2.2.2
    (by decide +kernel)

end CorazaNginx
