/-
The body filter while it holds nothing back.

`Untouched s t`: between `s` and `t` the filter has neither started nor ended a delay, has left `r->header_only` as it
was, and has only added to the trace. A call on a response whose headers are not delayed triggers an intervention or
leaves these untouched, whether or not an error page is on the wire (`bodyStep_undelayed`), and so does a whole run
(`bodyRun_undelayed`). Unlike `Outcome`, which lists everything a call can come to, this covers the error page too.
-/
import Mathlib.Tactic
import CorazaNginx.Response.Run

namespace CorazaNginx

open CorazaNginx.Core Prog Handler

variable {e : Env} {s : St}

/-- the delay and `r->header_only` are as they were -/
structure Untouched (s t : St) : Prop where
  delayed : t.ctx.headersDelayed = s.ctx.headersDelayed
  headerOnly : t.r.headerOnly = s.r.headerOnly
  trace : s.trace <+: t.trace

theorem Untouched.refl (s : St) : Untouched s s := ⟨rfl, rfl, List.prefix_refl _⟩

theorem Untouched.trans {s t u : St} (h : Untouched s t) (h' : Untouched t u) : Untouched s u :=
  ⟨h'.delayed.trans h.delayed, h'.headerOnly.trans h.headerOnly, h.trace.trans h'.trace⟩

theorem Untouched.logs (s : St) (evs : Trace) : Untouched s (s.logs evs) := ⟨rfl, rfl, List.prefix_append _ _⟩

/-- an intervention was triggered, or nothing was touched -/
def TriggeredOr (s t : St) : Prop :=
  (t.ctx.interventionTriggered = true ∧ s.trace <+: t.trace) ∨ Untouched s t

/-- ending the response, from a state in which nothing has been touched -/
theorem TriggeredOr.of_exit {status : ℤ} {t u : St} (h : Untouched s t) (hx : Exit e status t.trigger u) :
    TriggeredOr s u := by
  obtain ⟨ev, htr, -⟩ := hx.trace
  refine Or.inl ⟨by rw [hx.triggered]; rfl, h.trace.trans ?_⟩
  rw [htr]
  exact List.prefix_append _ _

/-- the branch on a poll's result: the error page passes everything on, an interruption ends the response -/
theorem afterPoll_undelayed (ret : ℤ) {t : St} (h : Untouched s t) {Q : Unit → St → Prop} (hok : Q () t) :
    wp (afterPoll ret) Q (fun _ => TriggeredOr s) e t := by
  have hblock : ∀ status, wp (block status) Q (fun _ => TriggeredOr s) e t := by
    intro status
    exact block_spec status fun rc u hx => TriggeredOr.of_exit h hx
  rw [afterPoll, wp_bind, wp_get, wp_bind]
  refine (wp_when _ _).2 ⟨fun _ => ?_, fun _ => ?_⟩
  · simp only [nextBodyFilter, wp_bind, wp_ask, wp_get, wp_invoke, wp_exit]
    exact Or.inr (h.trans (Untouched.logs t [_]))
  · rw [wp_bind]
    refine (wp_when _ _).2 ⟨fun _ => hblock ret, fun _ => ?_⟩
    exact (wp_when _ _).2 ⟨fun _ => hblock _, fun _ => hok⟩

theorem poll_untouched {α : Type} {t : St} (h : Untouched s t) {Q : ℤ → St → Prop} {E : α → St → Prop}
    (hok : ∀ ret u, Untouched s u → Q ret u) : wp (processIntervention false : Handler α ℤ) Q E e t := by
  refine processIntervention_spec false fun u evs h' l hu _ _ _ _ => ?_
  subst hu
  exact hok _ _ (h.trans ⟨rfl, rfl, List.prefix_append _ _⟩)

/-- one buffer, the headers not delayed -/
theorem bodyFilterBuf_undelayed (x : Buf × ℕ) {t : St} (hd : s.ctx.headersDelayed = false) (h : Untouched s t)
    {Q : Unit → St → Prop} (hok : ∀ u, Untouched s u → Q () u) :
    wp (bodyFilterBuf x) Q (fun _ => TriggeredOr s) e t := by
  have queue : ∀ u, Untouched s u → wp (do when (← get).ctx.headersDelayed do enqueueBuf x.2 x.1 : Handler ℤ Unit)
      Q (fun _ => TriggeredOr s) e u := by
    intro u hu
    rw [wp_bind, wp_get]
    refine (wp_when _ _).2 ⟨fun h' => ?_, fun _ => hok u hu⟩
    rw [hu.delayed, hd] at h'
    cases h'
  have finish : ∀ u, Untouched s u → wp (do
      when x.1.lastBuf do finishBody
      when (← get).ctx.headersDelayed do enqueueBuf x.2 x.1 : Handler ℤ Unit) Q (fun _ => TriggeredOr s) e u := by
    intro u hu
    rw [wp_bind]
    refine (wp_when _ _).2 ⟨fun _ => ?_, fun _ => queue u hu⟩
    rw [finishBody, wp_bind, wp_engine, wp_bind]
    have hlog : ∀ ev, Untouched s (u.log ev) := fun ev => hu.trans (Untouched.logs u [ev])
    refine (wp_when _ _).2 ⟨fun _ => ?_, fun _ => ?_⟩
    · exact block_spec _ fun rc v hx => TriggeredOr.of_exit (hlog _) hx
    · rw [wp_bind]
      refine pollAfterProcess_spec false _ (fun _ => ?_) (fun _ _ => ?_) (fun _ => ?_)
      · exact afterPoll_undelayed _ (hlog _) (queue _ (hlog _))
      · exact afterPoll_undelayed _ (hlog _) (queue _ (hlog _))
      · exact poll_untouched (hlog _) fun ret v hv => afterPoll_undelayed ret hv (queue v hv)
  rw [bodyFilterBuf, wp_bind, wp_get, wp_bind]
  refine (wp_when _ _).2 ⟨fun _ => ?_, fun _ => finish t h⟩
  rw [inspectBuf, wp_bind]
  refine appendBuf_spec x.1 (fun u evs hu _ _ => ?_) (fun rc u hu => Or.inl ⟨hu.triggered, ?_⟩)
  · subst hu
    rw [wp_bind]
    refine poll_untouched (h.trans (Untouched.logs t evs)) fun ret v hv => ?_
    exact afterPoll_undelayed ret hv (finish v hv)
  · obtain ⟨evs, ev, _, htr, -⟩ := hu.trace
    rw [htr, List.append_assoc]
    exact h.trace.trans (List.prefix_append _ _)

/-- **One call.** While the headers are not delayed, it triggers an intervention or touches nothing. -/
theorem bodyStep_undelayed (hd : s.ctx.headersDelayed = false) (c : BodyCall) : TriggeredOr s (bodyStep s c) := by
  obtain ⟨e, inn⟩ := c
  by_cases hne : inn = []
  · subst hne
    rw [show bodyStep s ⟨e, []⟩ = _ from bodyFilter_null (e := e) (s := s)]
    exact Or.inr ⟨rfl, rfl, List.prefix_append _ _⟩
  by_cases ht : s.ctx.interventionTriggered = true
  · exact Or.inl ⟨bodyStep_triggered ht _, (bodyStep_steady (Or.inr ht) _).2⟩
  refine run_state (P := TriggeredOr s) ?_
  rw [bodyFilter, wp_call, wp_bind, wp_modify, wp_bind]
  refine (wp_when _ _).2 ⟨fun h => absurd h hne, fun _ => ?_⟩
  rw [wp_bind, wp_get, wp_bind]
  refine (wp_when _ _).2 ⟨fun h => absurd h ht, fun _ => ?_⟩
  rw [wp_bind]
  refine wp_forEach (fun _ t => Untouched s t) inn.zipIdx bodyFilterBuf ⟨rfl, rfl, List.prefix_refl _⟩ (fun t h => ?_)
    (fun _ x _ t _ h => bodyFilterBuf_undelayed x hd h fun _ hu => hu)
  rw [wp_bind, wp_get, wp_bind]
  refine (wp_when _ _).2 ⟨fun hdel => ?_, fun _ => ?_⟩
  · rw [h.delayed, hd] at hdel
    cases hdel
  · simp only [nextBodyFilter, wp_bind, wp_ask, wp_get, wp_invoke]
    exact Or.inr (h.trans (Untouched.logs t [_]))

/-- **A run.** By induction on the calls: nothing is ever touched unless an intervention is triggered. -/
theorem bodyRun_undelayed (hd : s.ctx.headersDelayed = false) (calls : List BodyCall)
    (hun : (bodyRun s calls).ctx.interventionTriggered = false) : Untouched s (bodyRun s calls) := by
  induction calls generalizing s with
  | nil => exact Untouched.refl s
  | cons c calls ih =>
    have hun1 : (bodyStep s c).ctx.interventionTriggered = false := bodyRun_untriggered_of calls hun
    have h1 : Untouched s (bodyStep s c) := by
      refine (bodyStep_undelayed hd c).resolve_left fun h => ?_
      rw [hun1] at h
      cases h.1
    exact h1.trans (ih (h1.delayed.trans hd) hun)

end CorazaNginx
