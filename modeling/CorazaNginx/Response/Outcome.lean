/-
One call of the body filter, as a list of what it can come to.

`Outcome e inn s t`: a call with the chain `inn` in the environment `e`, made in the state `s` while no intervention has
been triggered and no error page is on the wire, left `t`. Either the response was ended (`blocked`), or the whole chain
was inspected and then passed on (`streamed`), held (`held`), or flushed behind the delayed headers (`flushed`; `stuck`
when the headers met NGX_ERROR). `bodyFilter_outcome` says there is no other case; everything about runs of the filter
is derived from it. `bodyFilter_null` and `bodyFilter_triggered` are the two entry guards.
-/
import Mathlib.Tactic
import CorazaNginx.Response.Inspect

namespace CorazaNginx

open CorazaNginx.Core Prog Handler

variable {ρ : Type} {e : Env} {s : St}

/-! ## A chain -/

/-- queue a chain, if the headers are delayed -/
def St.queueAll (c : Content) (s : St) (l : List (Buf × ℕ)) : St :=
  if s.ctx.headersDelayed then l.foldl (fun s x => s.enqueued c x) s else s

/-- what a chain adds to `pending_bytes` -/
def chainCost (c : Content) (l : List (Buf × ℕ)) (n : ℕ) : ℕ := l.foldl (fun n x => queueCost c x n) n

theorem queueAll_concat (c : Content) (l : List (Buf × ℕ)) (x : Buf × ℕ) :
    s.queueAll c (l ++ [x]) = if s.ctx.headersDelayed then (s.queueAll c l).enqueued c x else s.queueAll c l := by
  unfold St.queueAll
  split_ifs <;> simp

theorem queueAll_of_not_delayed (c : Content) (l : List (Buf × ℕ)) (h : s.ctx.headersDelayed = false) :
    s.queueAll c l = s := by
  simp [St.queueAll, h]

@[simp] theorem queueAll_r (c : Content) (l : List (Buf × ℕ)) : (s.queueAll c l).r = s.r := by
  induction l using List.reverseRecOn with
  | nil => simp [St.queueAll]
  | append_singleton l x ih =>
    rw [queueAll_concat]
    split_ifs
    · rw [St.enqueued_r, ih]
    · exact ih

@[simp] theorem queueAll_trace (c : Content) (l : List (Buf × ℕ)) : (s.queueAll c l).trace = s.trace := by
  induction l using List.reverseRecOn with
  | nil => simp [St.queueAll]
  | append_singleton l x ih =>
    rw [queueAll_concat]
    split_ifs
    · rw [St.enqueued_trace, ih]
    · exact ih

theorem queueAll_ctx (c : Content) (l : List (Buf × ℕ)) : (s.queueAll c l).ctx =
    if s.ctx.headersDelayed then { s.ctx with
      pendingChain := s.ctx.pendingChain ++ l.map (queueLink c), pendingBytes := chainCost c l s.ctx.pendingBytes }
    else s.ctx := by
  induction l using List.reverseRecOn with
  | nil => simp [St.queueAll, chainCost]
  | append_singleton l x ih =>
    rw [queueAll_concat]
    split_ifs with h
    · rw [if_pos h] at ih
      rw [St.enqueued_ctx, ih]
      simp [chainCost]
    · rwa [if_neg h] at ih

@[simp] theorem queueAll_delayed (c : Content) (l : List (Buf × ℕ)) :
    (s.queueAll c l).ctx.headersDelayed = s.ctx.headersDelayed := by
  rw [queueAll_ctx]; split_ifs <;> rfl

@[simp] theorem queueAll_processable (c : Content) (l : List (Buf × ℕ)) :
    (s.queueAll c l).ctx.responseBodyProcessable = s.ctx.responseBodyProcessable := by
  rw [queueAll_ctx]; split_ifs <;> rfl

@[simp] theorem queueAll_triggered (c : Content) (l : List (Buf × ℕ)) :
    (s.queueAll c l).ctx.interventionTriggered = s.ctx.interventionTriggered := by
  rw [queueAll_ctx]; split_ifs <;> rfl

theorem queueAll_length (c : Content) (l : List (Buf × ℕ)) : (s.queueAll c l).inn.length = s.inn.length := by
  induction l using List.reverseRecOn with
  | nil => simp [St.queueAll]
  | append_singleton l x ih =>
    rw [queueAll_concat]
    split_ifs
    · rw [St.enqueued_inn]
      split_ifs
      · exact ih
      · rw [List.length_modify, ih]
    · exact ih

/-- the i-th buffer after it has been queued -/
def Buf.afterQueue (b : Buf) : Buf := if b.lastBuf then b else b.markConsumed

/-- queueing the rest of a chain marks exactly the rest: by induction on it, `pre` being what is already marked -/
theorem foldl_enqueued_inn (c : Content) (pre post : List Buf) (h : s.inn = pre ++ post) :
    ((post.zipIdx pre.length).foldl (fun s x => s.enqueued c x) s).inn = pre ++ post.map Buf.afterQueue := by
  induction post generalizing pre s with
  | nil => simpa using h
  | cons b post ih =>
    rw [List.zipIdx_cons, List.foldl_cons]
    have hinn : (s.enqueued c (b, pre.length)).inn = (pre ++ [b.afterQueue]) ++ post := by
      rw [St.enqueued_inn, h]
      unfold Buf.afterQueue
      split_ifs
      · simp
      · simp [Parts.modify_append]
    have := ih (pre ++ [b.afterQueue]) hinn
    simpa using this

theorem queueAll_inn (c : Content) : (s.queueAll c s.inn.zipIdx).inn =
    if s.ctx.headersDelayed then s.inn.map Buf.afterQueue else s.inn := by
  unfold St.queueAll
  split_ifs
  · simpa using foldl_enqueued_inn (s := s) c [] s.inn rfl
  · rfl

/-! ## The loop -/

/-- what a chain that got through the loop has been through: everything appended if the body is inspected, phase 4
evaluated at each last buffer -/
structure Inspected (c : Content) (processable : Bool) (inn : List Buf) (evs : Trace) : Prop where
  stretch : Stretch evs (if processable then inn.flatMap (·.bytes c) else []) (inn.countP (·.lastBuf))
  ordered : processable = true → ∀ b ∈ inn, b.Ordered

/-- the chain's buffers that are the reason of a refusal -/
def RejectedIn (s : St) (inn : List Buf) : Prop :=
  s.ctx.responseBodyProcessable = true ∧ ∃ b ∈ inn, b.Rejected

theorem loop_spec (inn : List Buf) (hep : s.r.errorPage = false) {Q : Unit → St → Prop} {E : ℤ → St → Prop}
    (hok : ∀ evs, Inspected e.content s.ctx.responseBodyProcessable inn evs →
      Q () ((s.queueAll e.content inn.zipIdx).logs evs))
    (hbad : ∀ rc t, Blocked e (inn.countP (·.lastBuf)) (RejectedIn s inn) s t → E rc t) :
    wp (forEach inn.zipIdx bodyFilterBuf) Q E e s := by
  refine wp_forEach (fun done s' => ∃ evs, s' = (s.queueAll e.content done).logs evs ∧
    Inspected e.content s.ctx.responseBodyProcessable (done.map Prod.fst) evs) inn.zipIdx bodyFilterBuf ?_ ?_ ?_
  · refine ⟨[], by simp [St.queueAll], ?_, fun _ b hb => absurd hb (by simp)⟩
    simpa using Stretch.nil
  · rintro s' ⟨evs, rfl, h⟩
    rw [List.zipIdx_map_fst] at h
    exact hok evs h
  · rintro pre x post s' hl ⟨evs, rfl, h⟩
    have hinn : inn = pre.map Prod.fst ++ x.1 :: post.map Prod.fst := by
      rw [← List.zipIdx_map_fst 0 inn, hl]; simp
    refine bodyFilterBuf_spec (s := (s.queueAll e.content pre).logs evs) x (by simpa using hep) ?_ ?_
    · intro evs' hord hevs'
      simp only [St.logs_ctx, queueAll_processable, queueAll_delayed] at hord hevs' ⊢
      refine ⟨evs ++ evs', ?_, ?_, ?_⟩
      · rw [queueAll_concat]
        split_ifs
        · rw [St.enqueued_logs, St.logs_logs]
        · rw [St.logs_logs]
      · have hstretch := h.stretch.append hevs'
        rw [List.map_append, List.flatMap_append, List.countP_append]
        convert hstretch using 1
        · split_ifs <;> simp
        · simp [List.countP_cons]
      · intro hp b hb
        rw [List.map_append, List.mem_append] at hb
        rcases hb with hb | hb
        · exact h.ordered hp b hb
        · rw [List.map_singleton, List.mem_singleton] at hb
          exact hb ▸ hord hp
    · intro rc t ht
      refine hbad rc t ?_
      have hafter := Blocked.after (s := s) ⟨evs, by simp, h.stretch⟩ (by simp) (by simp)
        (fun h0 => by rw [queueAll_of_not_delayed _ _ h0, St.logs_ctx])
        (by rw [St.logs_inn, queueAll_length]) ht
      refine hafter.mono ?_ fun hr => ⟨by simpa using hr.1, x.1, by simp [hinn], hr.2⟩
      rw [hinn, List.countP_append, List.countP_cons]
      omega

/-! ## The call -/

/-- the delayed headers on their way, answered with `rc` -/
def St.headersOut (e : Env) (s : St) (rc : ℤ) : St :=
  ((s.setCtx { s.ctx with headersDelayed := false }).log (.call (.nextHeader s.r.headersOut s.r.headerOnly) rc)).setR
    (s.r.afterHeader e)

/-- everything queued on its way, answered with `rc` -/
def St.queueOut (e : Env) (s : St) (rc : ℤ) : St :=
  (s.setCtx { s.ctx with pendingChain := [] }).log
    (.call (.nextBody (s.ctx.pendingChain.map (Link.hand e.content s.inn))) rc)

/-- the chain in hand on its way, answered with `rc` -/
def St.chainOut (e : Env) (s : St) (rc : ℤ) : St :=
  s.log (.call (.nextBody ((inLinks s.inn).map (Link.hand e.content s.inn))) rc)

theorem St.headersOut_trace (rc : ℤ) : (s.headersOut e rc).trace =
    s.trace ++ [.call (.nextHeader s.r.headersOut s.r.headerOnly) rc] := rfl

theorem St.queueOut_trace (rc : ℤ) : (s.queueOut e rc).trace =
    s.trace ++ [.call (.nextBody (s.ctx.pendingChain.map (Link.hand e.content s.inn))) rc] := rfl

theorem St.chainOut_trace (rc : ℤ) : (s.chainOut e rc).trace =
    s.trace ++ [.call (.nextBody ((inLinks s.inn).map (Link.hand e.content s.inn))) rc] := rfl

/-- the state once the chain `inn` has been through the loop, `evs` logged -/
def St.looped (e : Env) (s : St) (inn : List Buf) (evs : Trace) : St :=
  ((s.setInn inn).queueAll e.content inn.zipIdx).logs evs

/-- what a call can come to while no intervention has been triggered and no error page is on the wire -/
inductive Outcome (e : Env) (inn : List Buf) (s : St) : St → Prop where
  | blocked {t : St} (h : Blocked e (inn.countP (·.lastBuf)) (RejectedIn s inn) (s.setInn inn) t) : Outcome e inn s t
  | streamed (evs : Trace) (rc : ℤ) (h : Inspected e.content s.ctx.responseBodyProcessable inn evs)
      (delayed : s.ctx.headersDelayed = false) : Outcome e inn s ((s.looped e inn evs).chainOut e rc)
  | held (evs : Trace) (h : Inspected e.content s.ctx.responseBodyProcessable inn evs)
      (delayed : s.ctx.headersDelayed = true) (last : inn.any (·.lastBuf) = false)
      (cap : (s.looped e inn evs).ctx.pendingBytes ≤ maxDelayedBody) : Outcome e inn s (s.looped e inn evs)
  | stuck (evs : Trace) (h : Inspected e.content s.ctx.responseBodyProcessable inn evs)
      (delayed : s.ctx.headersDelayed = true) : Outcome e inn s ((s.looped e inn evs).headersOut e ngxError)
  | flushed (evs : Trace) (rc rc' : ℤ) (h : Inspected e.content s.ctx.responseBodyProcessable inn evs)
      (delayed : s.ctx.headersDelayed = true)
      (due : inn.any (·.lastBuf) = true ∨ maxDelayedBody < (s.looped e inn evs).ctx.pendingBytes)
      (sent : rc ≠ ngxError) : Outcome e inn s (((s.looped e inn evs).headersOut e rc).queueOut e rc')

theorem flushDelayed_spec {Q : ℤ → St → Prop} {E : ρ → St → Prop} (hbad : Q ngxError (s.headersOut e ngxError))
    (hok : ∀ rc rc', rc ≠ ngxError → Q rc' ((s.headersOut e rc).queueOut e rc')) :
    wp (flushDelayed : Handler ρ ℤ) Q E e s := by
  simp only [flushDelayed, forwardHeader, nextHeaderFilter, nextBodyFilter, wp_call, wp_bind, wp_modify, wp_get, wp_ask,
    wp_invoke, wp_pure, wp_when, wp_exit]
  refine ⟨fun hrc => ?_, fun hrc => ?_⟩
  · rw [hrc]
    exact hbad
  · exact hok _ _ hrc

theorem looped_delayed (inn : List Buf) (evs : Trace) :
    (s.looped e inn evs).ctx.headersDelayed = s.ctx.headersDelayed := by
  simp [St.looped]

/-- an outcome together with what the call returns -/
inductive Returned (e : Env) (inn : List Buf) (s : St) : ℤ → St → Prop where
  | blocked {t : St} (rc : ℤ) (h : Blocked e (inn.countP (·.lastBuf)) (RejectedIn s inn) (s.setInn inn) t) :
      Returned e inn s rc t
  | streamed (evs : Trace) (rc : ℤ) (h : Inspected e.content s.ctx.responseBodyProcessable inn evs)
      (delayed : s.ctx.headersDelayed = false) : Returned e inn s rc ((s.looped e inn evs).chainOut e rc)
  | held (evs : Trace) (h : Inspected e.content s.ctx.responseBodyProcessable inn evs)
      (delayed : s.ctx.headersDelayed = true) (last : inn.any (·.lastBuf) = false)
      (cap : (s.looped e inn evs).ctx.pendingBytes ≤ maxDelayedBody) : Returned e inn s ngxOk (s.looped e inn evs)
  | stuck (evs : Trace) (h : Inspected e.content s.ctx.responseBodyProcessable inn evs)
      (delayed : s.ctx.headersDelayed = true) : Returned e inn s ngxError ((s.looped e inn evs).headersOut e ngxError)
  | flushed (evs : Trace) (rc rc' : ℤ) (h : Inspected e.content s.ctx.responseBodyProcessable inn evs)
      (delayed : s.ctx.headersDelayed = true)
      (due : inn.any (·.lastBuf) = true ∨ maxDelayedBody < (s.looped e inn evs).ctx.pendingBytes)
      (sent : rc ≠ ngxError) : Returned e inn s rc' (((s.looped e inn evs).headersOut e rc).queueOut e rc')

theorem Returned.outcome {inn : List Buf} {rc : ℤ} {t : St} (h : Returned e inn s rc t) : Outcome e inn s t := by
  cases h with
  | blocked rc h => exact .blocked h
  | streamed evs _ h delayed => exact .streamed evs _ h delayed
  | held evs h delayed last cap => exact .held evs h delayed last cap
  | stuck evs h delayed => exact .stuck evs h delayed
  | flushed evs _ _ h delayed due sent => exact .flushed evs _ _ h delayed due sent

/-- **One call.** While no intervention has been triggered and no error page is on the wire, a call with a chain comes
to one of the listed outcomes. -/
theorem bodyFilter_returned (inn : List Buf) (hne : inn ≠ []) (hep : s.r.errorPage = false)
    (ht : s.ctx.interventionTriggered = false) :
    Returned e inn s ((bodyFilter inn).run e s).1 ((bodyFilter inn).run e s).2 := by
  refine (wp_run (Q := Returned e inn s) _).1 ?_
  rw [bodyFilter, wp_call, wp_bind, wp_modify, wp_bind]
  refine (wp_when _ _).2 ⟨fun h => absurd h hne, fun _ => ?_⟩
  rw [wp_bind, wp_get, wp_bind]
  refine (wp_when _ _).2 ⟨fun h => absurd h (by simp [ht]), fun _ => ?_⟩
  rw [wp_bind]
  refine loop_spec (s := s.setInn inn) inn hep (fun evs hins => ?_) (fun rc t hb => Returned.blocked rc hb)
  rw [St.setInn_ctx] at hins
  change wp _ _ _ e (s.looped e inn evs)
  rw [wp_bind, wp_get, wp_bind]
  refine (wp_when _ _).2 ⟨fun hd => ?_, fun hd => ?_⟩
  · rw [looped_delayed] at hd
    -- a flush, whatever made it due
    have flush : (inn.any (·.lastBuf) = true ∨ maxDelayedBody < (s.looped e inn evs).ctx.pendingBytes) →
        wp (flushDelayed : Handler ℤ ℤ) (Returned e inn s) (Returned e inn s) e (s.looped e inn evs) :=
      fun hdue => flushDelayed_spec (Returned.stuck evs hins hd) fun rc rc' hrc =>
        Returned.flushed evs rc rc' hins hd hdue hrc
    rw [wp_bind]
    refine (wp_when _ _).2 ⟨fun hlast => ?_, fun hlast => ?_⟩
    · rw [wp_bind]
      exact flush (Or.inl hlast)
    · rw [wp_bind]
      refine (wp_when _ _).2 ⟨fun hcap => ?_, fun hcap => ?_⟩
      · rw [wp_bind]
        exact flush (Or.inr hcap)
      · exact Returned.held evs hins hd (by simpa using hlast) (not_lt.1 hcap)
  · rw [looped_delayed] at hd
    simp only [nextBodyFilter, wp_bind, wp_ask, wp_get, wp_invoke]
    have hinn : (s.looped e inn evs).inn = inn := by
      rw [St.looped, queueAll_of_not_delayed _ _ (by simpa using hd)]; rfl
    have hout := Returned.streamed evs (e.ret (s.looped e inn evs).trace
      (.nextBody ((inLinks inn).map (Link.hand e.content (s.looped e inn evs).inn)))) hins (by simpa using hd)
    rw [St.chainOut, hinn] at hout
    rwa [hinn]

theorem bodyFilter_outcome (inn : List Buf) (hne : inn ≠ []) (hep : s.r.errorPage = false)
    (ht : s.ctx.interventionTriggered = false) : Outcome e inn s ((bodyFilter inn).run e s).2 :=
  (bodyFilter_returned inn hne hep ht).outcome

/-- a NULL chain is passed on -/
theorem bodyFilter_null : ((bodyFilter []).run e s).2 =
    (s.setInn []).log (.call (.nextBody []) (e.ret s.trace (.nextBody []))) := by
  refine run_state (P := fun t => t = _) ?_
  rw [bodyFilter, wp_call, wp_bind, wp_modify, wp_bind]
  refine (wp_when _ _).2 ⟨fun _ => ?_, fun h => absurd rfl h⟩
  simp only [nextBodyFilter, wp_bind, wp_ask, wp_get, wp_invoke, wp_exit]
  rfl

/-- **After an intervention.** A later chain is swallowed while a header-only response is on the wire, else passed on
as it is. -/
theorem bodyFilter_triggered (inn : List Buf) (hne : inn ≠ []) (ht : s.ctx.interventionTriggered = true) :
    ((bodyFilter inn).run e s).2 = if s.r.headerOnly then s.setInn (inn.map Buf.drain)
      else (s.setInn inn).chainOut e (e.ret s.trace (.nextBody ((inLinks inn).map (Link.hand e.content inn)))) := by
  refine run_state (P := fun t => t = _) ?_
  rw [bodyFilter, wp_call, wp_bind, wp_modify, wp_bind]
  refine (wp_when _ _).2 ⟨fun h => absurd h hne, fun _ => ?_⟩
  rw [wp_bind, wp_get, wp_bind]
  refine (wp_when _ _).2 ⟨fun _ => ?_, fun h => absurd ht h⟩
  rw [wp_bind]
  refine (wp_when _ _).2 ⟨fun ho => ?_, fun ho => ?_⟩
  · simp only [bodyFilterConsume, wp_bind, wp_modify, wp_exit]
    exact (if_pos ho).symm
  · simp only [nextBodyFilter, wp_bind, wp_ask, wp_get, wp_invoke, wp_exit]
    exact (if_neg ho).symm

end CorazaNginx
