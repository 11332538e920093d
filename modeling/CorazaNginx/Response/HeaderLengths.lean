/-
Whichever way the response headers go, the engine gets the same pairs; their lengths are another matter.

The pairs are collected and packed, and where the set cannot be collected, packed or taken as a whole they are submitted
one by one. The order and the pairs are the same on every way (`headerFilter_leaves`, from `submission_shows`). A packed
set carries true lengths, since `packHeaders` refuses what an int cannot hold. The call for one pair narrows its two
lengths instead, and what `packHeaders` refuses is just what is submitted one by one. So the engine is told the true
lengths whatever fails exactly when every pair shown fits (`response_lengths_iff`); the request path checks that before
it submits.
-/
import Mathlib.Tactic
import CorazaNginx.Lifecycle.Phases
import CorazaNginx.Packing
import CorazaNginx.Response.HeaderList

namespace CorazaNginx

open CorazaNginx.Core Prog Handler

variable {ρ : Type} {e : Env} {s : St}

/-! ## Lengths -/

/-- the pairs an event hands over as a batch go with their records, the number of bytes and the number of pairs -/
def Event.BatchFramed : Event → Prop
  | .call (.engine _ (.addResponseHeaders pairs packed packedLen count)) _ =>
    Packing.Framing pairs packed ∧ packedLen = packed.length ∧ count = pairs.length
  | _ => True

/-- the pair an event makes the engine take on its own goes with its true lengths -/
def Event.PairMeasured : Event → Prop
  | .call (.engine _ (.addResponseHeader p nameLen valueLen)) rc =>
    0 ≤ rc → nameLen = p.name.length ∧ valueLen = p.value.length
  | _ => True

/-- the lengths an event passes are the true ones -/
def Event.TrueLengths (ev : Event) : Prop := ev.BatchFramed ∧ ev.PairMeasured

/-- an event of the submission: an allocation, a pair with its lengths narrowed, or a batch -/
def Event.Submits : Event → Prop
  | .call (.alloc _) _ => True
  | .call (.engine _ (.addResponseHeader p nameLen valueLen)) _ =>
    nameLen = cInt p.name.length ∧ valueLen = cInt p.value.length
  | .call (.engine _ (.addResponseHeaders pairs packed packedLen count)) _ =>
    Packing.Framing pairs packed ∧ packedLen = packed.length ∧ count = pairs.length
  | _ => False

/-- the answer is one `e` gives -/
def Event.AnsweredBy (e : Env) : Event → Prop
  | .call c rc => ∃ before, rc = e.ret before c
  | .poll .. => True

theorem Event.Submits.batchFramed {ev : Event} (h : ev.Submits) : ev.BatchFramed := by
  cases ev with
  | poll => trivial
  | call c rc =>
    cases c with
    | engine tx c => cases c <;> first | exact h | trivial
    | _ => trivial

theorem Event.Submits.before {ev : Event} (h : ev.Submits) : ev.isPhase3 = false := by
  cases ev with
  | poll => rfl
  | call c rc =>
    cases c with
    | engine tx c => cases c <;> first | rfl | cases h
    | _ => rfl

/-- an event of the submission passes true lengths when the pairs it makes the engine take fit, and not otherwise -/
theorem Event.Submits.measured_iff {ev : Event} (h : ev.Submits) : ev.PairMeasured ↔ ∀ p ∈ ev.pairs, p.FitsInt := by
  cases ev with
  | poll => cases h
  | call c rc =>
    cases c with
    | engine tx c =>
      cases c with
      | addResponseHeader p nameLen valueLen =>
        obtain ⟨rfl, rfl⟩ := h
        simp only [Event.PairMeasured, Event.pairs, ← p.fitsInt_iff]
        by_cases hneg : rc < 0
        · simp [hneg]
        · simp [hneg, not_lt.1 hneg]
      | addResponseHeaders pairs packed packedLen count =>
        have hfits := h.1.fitsInt
        simp only [Event.PairMeasured, Event.pairs, true_iff]
        intro p hp
        split_ifs at hp
        · cases hp
        · exact hfits p hp
      | _ => cases h
    | alloc => simp [Event.PairMeasured, Event.pairs]
    | _ => cases h

/-- where every answer is 1, nothing of the submission fails -/
theorem Event.Submits.not_failed {ev : Event} (h : ev.Submits) (ha : ev.AnsweredBy { e with ret := fun _ _ => 1 }) :
    ev.failed = false := by
  cases ev with
  | poll => cases h
  | call c rc =>
    obtain ⟨before, rfl⟩ := ha
    cases c with
    | engine tx c => cases c <;> first | rfl | cases h
    | alloc => rfl
    | _ => cases h

/-! ## The submission -/

/-- only events of the submission, answered as `e` answers, have been logged between `s` and `t` -/
def Submitting (e : Env) (s t : St) : Prop :=
  ∃ evs : Trace, t.trace = s.trace ++ evs ∧ ∀ ev ∈ evs, ev.Submits ∧ ev.AnsweredBy e

theorem Submitting.refl (s : St) : Submitting e s s :=
  ⟨[], (List.append_nil _).symm, fun _ h => absurd h List.not_mem_nil⟩

theorem Submitting.trans (s t u : St) (h : Submitting e s t) (h' : Submitting e t u) : Submitting e s u := by
  obtain ⟨evs, htr, hevs⟩ := h
  obtain ⟨evs', htr', hevs'⟩ := h'
  refine ⟨evs ++ evs', ?_, List.forall_mem_append.2 ⟨hevs, hevs'⟩⟩
  rw [htr', htr, List.append_assoc]

theorem Submitting.call {c : Call} (h : ∀ rc, Event.Submits (.call c rc)) :
    Submitting e s (s.log (.call c (e.ret s.trace c))) := by
  refine ⟨[_], rfl, fun ev hev => ?_⟩
  rw [List.mem_singleton.1 hev]
  exact ⟨h _, s.trace, rfl⟩

/-- the bulk submission packs before it calls, so the lengths it passes are the true ones -/
theorem bulkResponseHeaders_submitting (l : List HeaderPair) :
    GuarIn e (Submitting e) (bulkResponseHeaders l : Handler ρ Bool) := by
  intro s
  rw [bulkResponseHeaders]
  refine (wp_ite _ _ _).2 ⟨fun _ => Submitting.refl s, fun _ => ?_⟩
  rw [wp_bind]
  refine Packing.packHeaders_framed l fun res evs hevs hframe => ?_
  have hpacked : Submitting e s (s.logs evs) := ⟨evs, rfl, hevs.forall fun n => ⟨trivial, s.trace, rfl⟩⟩
  cases res with
  | none => exact hpacked
  | some packed =>
    have hf := hframe packed rfl
    rw [wp_bind, wp_engine, wp_pure]
    refine Submitting.trans _ _ _ hpacked (Submitting.call fun rc => ?_)
    exact ⟨hf, cInt_of_le hf.whole, cInt_of_le hf.count⟩

theorem submission_submitting : GuarIn e (Submitting e) (submitResponseHeaders >>= fun _ => flushResponseHeaders) := by
  have hsteps : Carried fun {_ _} => GuarIn e (Submitting e) := by
    refine ⟨Compositional.guarIn e Submitting.refl Submitting.trans, fun n s => ?_, fun g s => ?_, fun p s => ?_,
      fun l => ?_⟩
    · exact Submitting.call fun _ => trivial
    · exact Submitting.refl s
    · exact Submitting.call fun _ => ⟨rfl, rfl⟩
    · exact bulkResponseHeaders_submitting l
  exact hsteps.submission

/-! ## The filter -/

/-- how a call of the filter leaves the submission -/
inductive HeadersLeft (e : Env) (s : St) : ℤ → St → Prop where
  /-- it broke off -/
  | broke (given : Trace) (t : St) (trace : t.trace = s.trace ++ given)
      (own : ∀ ev ∈ given, ev.Submits ∧ ev.AnsweredBy e) (dirty : ¬ given.Clean) : HeadersLeft e s ngxError t
  /-- phase 3 has been evaluated -/
  | evaluated (given : Trace) (phase3 : Event) (rest : Trace) (rc : ℤ) (t : St)
      (trace : t.trace = s.trace ++ (given ++ phase3 :: rest)) (own : ∀ ev ∈ given, ev.Submits ∧ ev.AnsweredBy e)
      (pairs : given.pairs = shownPairs e s.r) (isPhase3 : phase3.isPhase3 = true)
      (behind : ∀ ev ∈ rest, ev.Within s.ctx.corazaTransaction EngineCall.BehindPhase) : HeadersLeft e s rc t

/-- **One call.** The submission breaks off with NGX_ERROR, or the engine has taken the pairs shown when phase 3
comes. -/
theorem headerFilter_leaves (ht : s.ctx.interventionTriggered = false) (hp : s.ctx.processed = false)
    {E : ρ → St → Prop} : wp (headerFilter : Handler ρ ℤ) (HeadersLeft e s) E e s := by
  have harmed : ∀ {u : St} {evs : Trace}, Submitting e (s.armed e) u → u.trace = (s.armed e).trace ++ evs →
      ∀ ev ∈ Event.call (.alloc 512) (e.ret s.trace (.alloc 512)) :: evs, ev.Submits ∧ ev.AnsweredBy e := by
    rintro u evs ⟨evs', htr', hevs⟩ htr
    rw [List.append_cancel_left (htr.symm.trans htr')]
    exact List.forall_mem_cons.2 ⟨⟨trivial, s.trace, rfl⟩, hevs⟩
  have hboth := wp_and (submission_shows (e := e) (s := s)) (submission_submitting (e := e) (s.armed e))
  refine headerFilter_then ht hp (wp_mono hboth (fun _ u hu => ?_) (fun rc u hu => ?_))
  · obtain ⟨⟨evs, rfl, hplain, hpairs⟩, hsub⟩ := hu
    have hown := harmed hsub rfl
    have hafter : (((s.armed e).logs evs).collect none).trace =
        s.trace ++ (.call (.alloc 512) (e.ret s.trace (.alloc 512)) :: evs) := by
      rw [St.collect_trace, St.logs_trace, St.armed_trace, List.append_assoc]
      rfl
    refine evaluate3_then fun status pret rc version rest t htr hrest _ _ _ => ?_
    have hleft : HeadersLeft e s rc t := by
      set ev := Event.call (.engine s.ctx.corazaTransaction (.processResponseHeaders status version)) pret with hev
      refine .evaluated _ ev rest rc t ?_ hown hpairs rfl hrest
      rw [htr, hafter, List.append_assoc]
      rfl
    exact ⟨hleft, hleft⟩
  · obtain ⟨⟨rfl, evs, c, rfl, hplain, hdirty⟩, hsub⟩ := hu
    refine .broke _ _ ?_ (harmed hsub rfl) fun hc => hdirty (List.forall_mem_cons.1 hc).2
    simp

/-- what a call of the header filter adds to the trace -/
def headerEvents (e : Env) (s : St) : Trace := ((headerFilter : Handler ℤ ℤ).run e s).2.trace.drop s.trace.length

/-- phase 3 is evaluated behind the pairs shown, each taken once and in order, and no length passed is another than the
true one -/
structure Conveyed (e : Env) (s : St) : Prop where
  pairs : ∃ given ev rest, headerEvents e s = given ++ ev :: rest ∧ ev.isPhase3 = true ∧
    Trace.pairs given = shownPairs e s.r ∧ Trace.pairs rest = []
  lengths : ∀ ev ∈ headerEvents e s, ev.TrueLengths

/-- the filter gives up before phase 3, or it conveys the headers -/
def HeadersConveyed (e : Env) (s : St) : Prop :=
  (((headerFilter : Handler ℤ ℤ).run e s).1 = ngxError ∧ ∀ ev ∈ headerEvents e s, ev.isPhase3 = false) ∨ Conveyed e s

theorem Event.Within.behind {tx : ℕ} {ev : Event} (h : ev.Within tx EngineCall.BehindPhase) :
    ev.pairs = [] ∧ ev.TrueLengths := by
  cases ev with
  | poll => exact ⟨rfl, trivial, trivial⟩
  | call c rc =>
    cases c with
    | engine tx' c => cases c <;> first | exact ⟨rfl, trivial, trivial⟩ | exact h.2.elim
    | _ => exact ⟨rfl, trivial, trivial⟩

theorem Event.trueLengths_of_isPhase3 {ev : Event} (h : ev.isPhase3 = true) : ev.TrueLengths := by
  cases ev with
  | poll => cases h
  | call c rc =>
    cases c with
    | engine tx' c => cases c <;> first | exact ⟨trivial, trivial⟩ | cases h
    | _ => cases h

/-- a stretch of the submission passes true lengths exactly when the pairs taken in it fit -/
theorem trueLengths_iff {evs : Trace} (h : ∀ ev ∈ evs, ev.Submits) :
    (∀ ev ∈ evs, ev.TrueLengths) ↔ ∀ p ∈ evs.pairs, p.FitsInt := by
  constructor
  · intro hlen p hp
    obtain ⟨ev, hev, hpev⟩ := List.mem_flatMap.1 hp
    exact (h ev hev).measured_iff.1 (hlen ev hev).2 p hpev
  · intro hfit ev hev
    refine ⟨(h ev hev).batchFramed, (h ev hev).measured_iff.2 fun p hp => ?_⟩
    exact hfit p (List.mem_flatMap.2 ⟨ev, hev, hp⟩)

theorem headerFilter_leaves_run (ht : s.ctx.interventionTriggered = false) (hp : s.ctx.processed = false) :
    HeadersLeft e s ((headerFilter : Handler ℤ ℤ).run e s).1 ((headerFilter : Handler ℤ ℤ).run e s).2 := by
  apply (wp_run _).1
  exact headerFilter_leaves ht hp

/-- pairs that fit are conveyed, whatever fails -/
theorem conveyed_of_fit (ht : s.ctx.interventionTriggered = false) (hp : s.ctx.processed = false)
    (hfit : ∀ p ∈ shownPairs e s.r, p.FitsInt) : HeadersConveyed e s := by
  have hleft := headerFilter_leaves_run (e := e) ht hp
  unfold HeadersConveyed
  obtain ⟨⟨rc, t⟩, hrun⟩ : ∃ out, (headerFilter : Handler ℤ ℤ).run e s = out := ⟨_, rfl⟩
  have hevents : ∀ evs, t.trace = s.trace ++ evs → headerEvents e s = evs := by
    intro evs htr
    rw [headerEvents, hrun, htr, List.drop_left]
  rw [hrun] at hleft ⊢
  cases hleft with
  | broke given t trace own dirty =>
    left
    rw [hevents given trace]
    exact ⟨rfl, fun ev hev => (own ev hev).1.before⟩
  | evaluated given phase3 rest rc t trace own pairs isPhase3 behind =>
    right
    have hown : ∀ ev ∈ given, ev.Submits := fun ev hev => (own ev hev).1
    refine ⟨⟨given, phase3, rest, hevents _ trace, isPhase3, pairs, ?_⟩, ?_⟩
    · exact List.flatMap_eq_nil_iff.2 fun ev hev => (behind ev hev).behind.1
    · rw [hevents _ trace, List.forall_mem_append, List.forall_mem_cons]
      refine ⟨(trueLengths_iff hown).2 ?_, Event.trueLengths_of_isPhase3 isPhase3,
        fun ev hev => (behind ev hev).behind.2⟩
      rwa [pairs]

/-- where nothing fails, pairs that are conveyed fit: they have been packed, or narrowed to what they are -/
theorem fit_of_conveyed (ht : s.ctx.interventionTriggered = false) (hp : s.ctx.processed = false)
    (h : HeadersConveyed { e with ret := fun _ _ => 1 } s) : ∀ p ∈ shownPairs e s.r, p.FitsInt := by
  set e1 : Env := { e with ret := fun _ _ => 1 } with he1
  have hleft := headerFilter_leaves_run (e := e1) ht hp
  unfold HeadersConveyed at h
  obtain ⟨⟨rc, t⟩, hrun⟩ : ∃ out, (headerFilter : Handler ℤ ℤ).run e1 s = out := ⟨_, rfl⟩
  have hevents : ∀ evs, t.trace = s.trace ++ evs → headerEvents e1 s = evs := by
    intro evs htr
    rw [headerEvents, hrun, htr, List.drop_left]
  rw [hrun] at hleft h
  cases hleft with
  | broke given t trace own dirty => exact absurd (fun ev hev => (own ev hev).1.not_failed (own ev hev).2) dirty
  | evaluated given phase3 rest rc t trace own pairs isPhase3 behind =>
    rw [hevents _ trace] at h
    have hin : phase3 ∈ given ++ phase3 :: rest := List.mem_append_right _ List.mem_cons_self
    rcases h with ⟨-, hnone⟩ | ⟨-, hlen⟩
    · rw [hnone phase3 hin] at isPhase3
      cases isPhase3
    · rw [hevents _ trace] at hlen
      have hgiven := (trueLengths_iff fun ev hev => (own ev hev).1).1 fun ev hev => hlen ev (List.mem_append_left _ hev)
      rwa [pairs] at hgiven

/-- **Whichever way they go.** On a context that has been neither marked nor processed, and whatever the allocations and
the engine answer, the filter gives up before phase 3 or the engine has taken the pairs shown, each once, in order and
with its true lengths: exactly when every pair shown has a name and a value that an int can count. -/
theorem response_lengths_iff (e : Env) (s : St) (ht : s.ctx.interventionTriggered = false)
    (hp : s.ctx.processed = false) :
    (∀ ret, HeadersConveyed { e with ret := ret } s) ↔ ∀ p ∈ shownPairs e s.r, p.FitsInt := by
  constructor
  · intro h
    exact fit_of_conveyed ht hp (h _)
  · intro hfit ret
    exact conveyed_of_fit ht hp hfit

/-- a response with one list header -/
def oneListHeader (value : Bytes) : St where
  r := { headersOut := { headers := .single [⟨1, ascii "X-Header", value⟩] } }
  ctx := {}

/-- **Collected, or one by one.** With every allocation refused the header goes on its own, and with its true
lengths. -/
theorem short_header_conveyed :
    HeadersConveyed { Env.calm (.fill 0) with ret := fun _ _ => 0 } (oneListHeader (ascii "value")) :=
  (response_lengths_iff (Env.calm (.fill 0)) (oneListHeader (ascii "value")) rfl rfl).2 (by decide +kernel) _

/-- **A value of 2^31 bytes.** It cannot be packed, is submitted on its own with a negative length, and phase 3
comes. -/
theorem long_header_narrowed :
    ¬ HeadersConveyed { Env.calm (.fill 0) with ret := fun _ _ => 1 }
      (oneListHeader (List.replicate (intMax + 1) 0)) := by
  intro h
  have hfit := fit_of_conveyed (e := Env.calm (.fill 0)) rfl rfl h
  have hin : ⟨ascii "X-Header", List.replicate (intMax + 1) 0, some 0⟩ ∈
      shownPairs (Env.calm (.fill 0)) (oneListHeader (List.replicate (intMax + 1) 0)).r := by
    apply List.mem_append_right
    exact List.mem_singleton_self _
  have hvalue := (hfit _ hin).2
  rw [List.length_replicate] at hvalue
  exact absurd hvalue (by decide)

end CorazaNginx
