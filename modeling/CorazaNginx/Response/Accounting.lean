/-
What becomes of the buffers of a chain.

The producer waits for a buffer until it has no rest, and a buffer that is passed on with no rest is data lost. A call
passes a buffer on (`Trace.Passed`), or marks it consumed: while queueing it, or, behind a redirect, with the whole
chain. `Accounted` says that every buffer is in one of the two cases, and that what is passed on is as it came.
- `Returned.accounted`: one call, by its outcomes.
- `bodyRun_ownQueue`: between two calls nothing in the queue refers to a chain that has been given back.
- `input_accounted`: every call of every run.
-/
import Mathlib.Tactic
import CorazaNginx.Response.HeaderOutcome
import CorazaNginx.Response.Inspection
import CorazaNginx.Response.Queue

namespace CorazaNginx

open CorazaNginx.Core Prog Handler

variable {e : Env} {s t : St} {inn : List Buf}

/-! ## Buffers without a rest -/

/-- a buffer with neither memory nor a file has no file range -/
def Buf.Bare (b : Buf) : Prop := b.inMemory = false → b.inFile = false → b.filePos = b.fileLast

instance (b : Buf) : Decidable b.Bare := by unfold Buf.Bare; infer_instance

theorem Buf.drain_consumed (b : Buf) : b.drain.consumed := by
  unfold Buf.consumed Buf.drain
  split_ifs <;> rfl

theorem Buf.markConsumed_consumed {b : Buf} (h : b.Bare) : b.markConsumed.consumed := by
  unfold Buf.markConsumed
  by_cases hm : b.inMemory = true
  · rw [if_pos hm, Buf.consumed]
    exact (if_pos (c := b.inMemory = true) hm).mpr rfl
  · rw [if_neg hm]
    by_cases hf : b.inFile = true
    · rw [if_pos hf, Buf.consumed]
      exact (if_neg (c := b.inMemory = true) hm).mpr rfl
    · rw [if_neg hf, Buf.consumed, if_neg hm]
      apply h
      · simpa using hm
      · simpa using hf

theorem Buf.afterQueue_consumed {b : Buf} (h : b.Bare) (hl : b.lastBuf = false) : b.afterQueue.consumed := by
  rw [Buf.afterQueue, if_neg (by simp [hl])]
  exact Buf.markConsumed_consumed h

/-! ## Passed on, or consumed -/

/-- the i-th buffer of the chain in hand went to the next body filter -/
def Trace.Passed (evs : Trace) (i : ℕ) : Prop := ∃ ev ∈ evs, ∃ h ∈ ev.handed, h.input = some i

/-- the chain `inn`, left as `left` by a call that logged `evs` -/
structure Accounted (inn left : List Buf) (evs : Trace) : Prop where
  chain : left.length = inn.length
  buffers : ∀ i b, left[i]? = some b → evs.Passed i ∨ b.consumed
  untouched : ∀ ev ∈ evs, ∀ h ∈ ev.handed, ∀ i, h.input = some i → inn[i]? = some h.buf

theorem handed_of_quiet {evs : Trace} (hq : evs.Quiet) : ∀ ev ∈ evs, ev.handed = [] := fun ev hev =>
  Event.handed_of_not_output (hq ev hev)

/-- a call that passes nothing on and leaves no rest -/
theorem Accounted.of_consumed {left : List Buf} {evs : Trace} (hlen : left.length = inn.length)
    (hc : ∀ b ∈ left, b.consumed) (hnone : ∀ ev ∈ evs, ev.handed = []) : Accounted inn left evs where
  chain := hlen
  buffers := fun i b hb => Or.inr (hc b (List.mem_of_getElem? hb))
  untouched := by
    intro ev hev h hh
    rw [hnone ev hev] at hh
    exact absurd hh List.not_mem_nil

theorem Link.hand_input {c : Content} {l : Link} {i : ℕ} (h : (l.hand c inn).input = some i) :
    l = .input i ∧ (l.hand c inn).buf = inn.getD i {} := by
  cases l with
  | own b => cases h
  | input j =>
    injection h with h
    subst h
    exact ⟨rfl, rfl⟩

/-- a call that passes the whole chain on -/
theorem Accounted.of_chain {c : Content} {evs : Trace} {rc : ℤ} (hq : evs.Quiet) :
    Accounted inn inn (evs ++ [.call (.nextBody ((inLinks inn).map (Link.hand c inn))) rc]) where
  chain := rfl
  buffers := by
    intro i b hb
    have hlt : i < inn.length := (List.getElem?_eq_some_iff.1 hb).1
    left
    refine ⟨_, List.mem_append_right _ (List.mem_singleton_self _), (Link.input i).hand c inn, ?_, rfl⟩
    apply List.mem_map_of_mem
    exact List.mem_map_of_mem (List.mem_range.2 hlt)
  untouched := by
    intro ev hev h hh i hi
    rcases List.mem_append.1 hev with hev | hev
    · rw [handed_of_quiet hq ev hev] at hh
      exact absurd hh List.not_mem_nil
    · rw [List.mem_singleton.1 hev] at hh
      obtain ⟨l, hl, rfl⟩ := List.mem_map.1 hh
      obtain ⟨rfl, hbuf⟩ := Link.hand_input hi
      obtain ⟨j, hj, hji⟩ := List.mem_map.1 hl
      injection hji with hji
      have hlt : i < inn.length := hji ▸ List.mem_range.1 hj
      rw [hbuf, List.getD_eq_getElem?_getD, List.getElem?_eq_getElem hlt]
      rfl

/-! ## The queue -/

/-- nothing that is queued while the headers are delayed belongs to a chain in hand -/
def OwnQueue (s : St) : Prop := s.ctx.headersDelayed = true → ∀ l ∈ s.ctx.pendingChain, ∃ b, l = .own b

theorem queueLink_input {c : Content} {x : Buf × ℕ} {i : ℕ} (h : queueLink c x = .input i) :
    x.1.lastBuf = true ∧ x.2 = i := by
  unfold queueLink at h
  split_ifs at h with hl
  injection h with h
  exact ⟨hl, h⟩

theorem bodyStep_ownQueue (h : OwnQueue s) (hs : Steady s) (c : BodyCall) : OwnQueue (bodyStep s c) := by
  intro hd l hl
  have hd' := bodyStep_delayed_of hs c hd
  by_cases ht : s.ctx.interventionTriggered = true
  · -- the entry guards leave the context alone
    have hctx : (bodyStep s c).ctx = s.ctx := by
      obtain ⟨e, inn⟩ := c
      by_cases hne : inn = []
      · subst hne
        rw [show bodyStep s ⟨e, []⟩ = _ from bodyFilter_null (e := e) (s := s)]
        rfl
      · rw [show bodyStep s ⟨e, inn⟩ = _ from bodyFilter_triggered (e := e) inn hne ht]
        split_ifs <;> rfl
    rw [hctx] at hl
    exact h hd' l hl
  · have hheld := Holding.step ⟨hd', by simpa using ht, hs.resolve_right ht⟩ c hd
    rw [hheld.queue] at hl
    rcases List.mem_append.1 hl with hl | hl
    · exact h hd' l hl
    · obtain ⟨y, hy, rfl⟩ := List.mem_map.1 hl
      obtain ⟨b, hb, -⟩ := queueLink_own (c := y.1) (x := y.2) (hheld.last _ (mem_of_mem_items hy).1)
      exact ⟨b, hb⟩

/-- **The invariant of a run.** -/
theorem bodyRun_ownQueue (h : OwnQueue s) (hs : Steady s) (calls : List BodyCall) :
    OwnQueue (bodyRun s calls) ∧ Steady (bodyRun s calls) := by
  induction calls generalizing s with
  | nil => exact ⟨h, hs⟩
  | cons c calls ih => exact ih (bodyStep_ownQueue h hs c) (bodyStep_steady hs c).1

/-- the header filter starts a delay with nothing queued -/
theorem headerFilter_ownQueue (h : s.ctx.headersDelayed = false) :
    OwnQueue ((headerFilter : Handler ℤ ℤ).run e s).2 := by
  intro hd l hl
  by_cases hpass : s.ctx.interventionTriggered = true ∨ s.ctx.processed = true
  · rw [headerFilter_passive hpass] at hd
    exact absurd (hd.symm.trans h) (by decide)
  rw [not_or, Bool.not_eq_true, Bool.not_eq_true] at hpass
  have ho := headerFilter_outcome (e := e) hpass.1 hpass.2
  generalize ((headerFilter : Handler ℤ ℤ).run e s).2 = t at hd hl ho
  cases ho with
  | broken evs c plain dirty => exact absurd (hd.symm.trans h) (by decide)
  | dispatched evs p ret v t upTo poll out =>
    have hv : v.ctx.headersDelayed = false := by
      cases poll with
      | skipped ret failed => exact h
      | polled evs h' aux zero sound inst => exact h
    cases out with
    | delayed hep hnon hdue => exact absurd hl List.not_mem_nil
    | yielded rc hep => exact absurd (hd.symm.trans hv) (by decide)
    | redirected rc => exact absurd (hd.symm.trans hv) (by decide)
    | finalized rc => exact absurd (hd.symm.trans hv) (by decide)
    | forwarded rc => exact absurd (hd.symm.trans hv) (by decide)

/-! ## One call -/

/-- a flush: the buffers that were queued themselves are passed on, the others are left without a rest -/
theorem Accounted.of_flush {c : Content} {q : List Link} {evs : Trace} {hdr : Event} {rc : ℤ} (hq : evs.Quiet)
    (hhdr : hdr.handed = []) (hown : ∀ l ∈ q, ∃ b, l = .own b) (hbare : ∀ b ∈ inn, b.Bare) :
    Accounted inn (inn.map Buf.afterQueue) (evs ++ [hdr] ++ [.call (.nextBody
      ((q ++ inn.zipIdx.map (queueLink c)).map (Link.hand c (inn.map Buf.afterQueue)))) rc]) where
  chain := List.length_map _
  buffers := by
    intro i b' hb'
    rw [List.getElem?_map, Option.map_eq_some_iff] at hb'
    obtain ⟨b, hb, rfl⟩ := hb'
    cases hl : b.lastBuf with
    | false =>
      right
      exact Buf.afterQueue_consumed (hbare b (List.mem_of_getElem? hb)) hl
    | true =>
      left
      have hlink : Link.input i ∈ inn.zipIdx.map (queueLink c) := by
        have hmem : (b, i) ∈ inn.zipIdx := List.mem_zipIdx_iff_getElem?.2 hb
        refine List.mem_map.2 ⟨(b, i), hmem, ?_⟩
        rw [queueLink, if_pos hl]
      refine ⟨_, List.mem_append_right _ (List.mem_singleton_self _),
        (Link.input i).hand c (inn.map Buf.afterQueue), ?_, rfl⟩
      exact List.mem_map_of_mem (List.mem_append_right _ hlink)
  untouched := by
    intro ev hev h hh i hi
    rcases List.mem_append.1 hev with hev | hev
    · have hnone : ev.handed = [] := by
        rcases List.mem_append.1 hev with hev | hev
        · exact handed_of_quiet hq ev hev
        · rw [List.mem_singleton.1 hev, hhdr]
      rw [hnone] at hh
      exact absurd hh List.not_mem_nil
    · rw [List.mem_singleton.1 hev] at hh
      obtain ⟨l, hl, rfl⟩ := List.mem_map.1 hh
      obtain ⟨rfl, hbuf⟩ := Link.hand_input hi
      rcases List.mem_append.1 hl with hl | hl
      · obtain ⟨b, hb⟩ := hown _ hl
        cases hb
      · obtain ⟨x, hx, hxl⟩ := List.mem_map.1 hl
        obtain ⟨hlast, rfl⟩ := queueLink_input hxl
        rw [hbuf, List.getD_eq_getElem?_getD, afterQueue_last hx hlast]
        exact List.mem_zipIdx_iff_getElem?.1 hx

/-- a call that comes to one of the outcomes -/
theorem Returned.accounted {rc : ℤ} {evs : Trace} (h : Returned e inn s rc t) (hown : OwnQueue s) (hrc : rc ≠ ngxError)
    (htr : t.trace = s.trace ++ evs) (hfin : ∀ ev ∈ evs, ev.finalizes = false)
    (hbare : ∀ b ∈ inn, b.Bare) : Accounted inn t.inn evs := by
  cases h with
  | blocked rc hb =>
    obtain ⟨m, status, hm, hx⟩ := hb
    obtain ⟨evs', hevs', href, -⟩ := hm.trace
    obtain ⟨last, hlast, hend⟩ := hx.trace
    have heq : evs = evs' ++ [last] := by
      rw [hevs', List.append_assoc] at hlast
      exact trace_cancel htr hlast
    cases hend with
    | finalize rc' =>
      have habsurd := hfin (.call (.finalizeRequest status) rc') (by rw [heq]; simp)
      cases habsurd
    | redirect hdr rc' code carries =>
      -- behind a redirect the whole chain is drained
      have hinn := (hx.redirected hdr true rc' hlast).1
      rw [hinn]
      apply Accounted.of_consumed
      · rw [List.length_map, hm.chain]
        rfl
      · intro b hb
        obtain ⟨b', -, rfl⟩ := List.mem_map.1 hb
        exact b'.drain_consumed
      · intro ev hev
        rw [heq] at hev
        rcases List.mem_append.1 hev with hev | hev
        · exact handed_of_quiet href.quiet ev hev
        · rw [List.mem_singleton.1 hev]
          rfl
  | streamed evs' rc' hins hd =>
    have hinn : (s.looped e inn evs').inn = inn := by rw [looped_inn, if_neg (by simp [hd])]
    rw [St.chainOut_trace, looped_trace, List.append_assoc] at htr
    obtain rfl := List.append_cancel_left htr
    change Accounted inn (s.looped e inn evs').inn _
    rw [hinn]
    exact Accounted.of_chain hins.stretch.quiet
  | held evs' hins hd hlast hcap =>
    rw [looped_trace] at htr
    obtain rfl := List.append_cancel_left htr
    rw [looped_inn, if_pos hd]
    apply Accounted.of_consumed
    · exact List.length_map _
    · intro b hb
      obtain ⟨b', hb', rfl⟩ := List.mem_map.1 hb
      apply Buf.afterQueue_consumed (hbare b' hb')
      simpa using List.any_eq_false.1 hlast b' hb'
    · exact handed_of_quiet hins.stretch.quiet
  | stuck evs' hins hd => exact absurd rfl hrc
  | flushed evs' rc' rc'' hins hd hdue hsent =>
    have hinn : ((s.looped e inn evs').headersOut e rc').inn = inn.map Buf.afterQueue :=
      (looped_inn inn evs').trans (if_pos hd)
    have hqueue : ((s.looped e inn evs').headersOut e rc').ctx.pendingChain =
        s.ctx.pendingChain ++ inn.zipIdx.map (queueLink e.content) := by
      change (s.looped e inn evs').ctx.pendingChain = _
      rw [looped_pending, if_pos hd]
    rw [St.queueOut_trace, St.headersOut_trace, looped_trace, hinn, hqueue, List.append_assoc, List.append_assoc] at htr
    obtain rfl := List.append_cancel_left htr
    change Accounted inn ((s.looped e inn evs').headersOut e rc').inn _
    rw [hinn, ← List.append_assoc]
    exact Accounted.of_flush hins.stretch.quiet rfl (hown hd) hbare

/-! ## Every call -/

/-- **Every input buffer is accounted for.** In every run on a response, a call that finds no error page on the wire and
that neither returns NGX_ERROR nor finalizes the request passes on or consumes each buffer of its chain, and what it
passes on it has not touched. `hbare` is about the buffers nginx builds: one that is neither in memory nor in a file
has no file range. -/
theorem input_accounted (s : St) (hown : OwnQueue s) (hs : Steady s) (calls : List BodyCall) (c : BodyCall)
    (hep : (bodyRun s calls).r.errorPage = false) (hbare : ∀ b ∈ c.inn, b.Bare)
    (hrc : ((bodyFilter c.inn : Handler ℤ ℤ).run c.env (bodyRun s calls)).1 ≠ ngxError)
    (hfin : ∀ ev ∈ RunEvents (bodyRun s calls) [c], ev.finalizes = false) :
    Accounted c.inn (bodyStep (bodyRun s calls) c).inn (RunEvents (bodyRun s calls) [c]) := by
  have hown' := (bodyRun_ownQueue hown hs calls).1
  generalize bodyRun s calls = u at hep hrc hfin hown' ⊢
  obtain ⟨e, inn⟩ := c
  change Accounted inn ((bodyFilter inn : Handler ℤ ℤ).run e u).2.inn _
  by_cases hne : inn = []
  · subst hne
    have hnull : ((bodyFilter [] : Handler ℤ ℤ).run e u).2 = _ := bodyFilter_null (e := e) (s := u)
    have hevents : RunEvents u [⟨e, []⟩] = [.call (.nextBody []) (e.ret u.trace (.nextBody []))] :=
      runEvents_eq (by rw [bodyRun_cons, bodyRun_nil, bodyStep, hnull]; rfl)
    rw [hnull, hevents]
    apply Accounted.of_consumed rfl
    · exact fun b hb => absurd hb List.not_mem_nil
    · intro ev hev
      rw [List.mem_singleton.1 hev]
      rfl
  by_cases ht : u.ctx.interventionTriggered = true
  · have hstep := bodyFilter_triggered (e := e) (s := u) inn hne ht
    by_cases ho : u.r.headerOnly = true
    · rw [if_pos ho] at hstep
      have hevents : RunEvents u [⟨e, inn⟩] = [] :=
        runEvents_eq (by rw [bodyRun_cons, bodyRun_nil, bodyStep, hstep, List.append_nil]; rfl)
      rw [hstep, hevents]
      apply Accounted.of_consumed
      · exact List.length_map _
      · intro b hb
        obtain ⟨b', -, rfl⟩ := List.mem_map.1 hb
        exact b'.drain_consumed
      · exact fun ev hev => absurd hev List.not_mem_nil
    · rw [if_neg ho] at hstep
      have hevents : RunEvents u [⟨e, inn⟩] = [] ++ [.call (.nextBody ((inLinks inn).map (Link.hand e.content inn)))
          (e.ret u.trace (.nextBody ((inLinks inn).map (Link.hand e.content inn))))] :=
        runEvents_eq (by rw [bodyRun_cons, bodyRun_nil, bodyStep, hstep]; rfl)
      rw [hstep, hevents]
      exact Accounted.of_chain Trace.Quiet.nil
  · have hret := bodyFilter_returned (e := e) inn hne hep (by simpa using ht)
    obtain ⟨evs, htr⟩ : ∃ evs, ((bodyFilter inn : Handler ℤ ℤ).run e u).2.trace = u.trace ++ evs := by
      obtain ⟨evs, htr⟩ := (bodyStep_steady (Or.inl hep) ⟨e, inn⟩).2
      exact ⟨evs, htr.symm⟩
    have hevents : RunEvents u [⟨e, inn⟩] = evs := runEvents_eq htr
    rw [hevents] at hfin ⊢
    exact hret.accounted hown' hrc htr hfin hbare

/-- the last buffer of a response -/
def closingCall : BodyCall :=
  ⟨.calm (.fill 1), [{ last := 1, memory := true }, { last := 1, memory := true, lastBuf := true }]⟩

theorem last_call_accounted : Accounted closingCall.inn (bodyStep (bodyRun delayedState [byteCall]) closingCall).inn
    (RunEvents (bodyRun delayedState [byteCall]) [closingCall]) :=
  input_accounted delayedState (fun _ _ hl => absurd hl List.not_mem_nil) (Or.inl rfl) [byteCall] closingCall
  (by decide)
    (by decide) (by decide) (by decide)

end CorazaNginx
