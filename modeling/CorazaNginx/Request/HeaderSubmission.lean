/-
What the engine is given of the request headers.

The rewrite handler submits the live headers in one batch and falls back on submitting them one by one; `Took pairs evs`
accounts for a stretch in which `pairs` have been submitted: those the engine took, and how many it did not. The answer
to a header submitted on its own is not looked at, so `RewriteOutcome`, the list of what the handler can come to, does
not say that phase 1 has seen every header; `headers_inspected_iff` says exactly when it has.
-/
import Mathlib.Tactic
import CorazaNginx.Response.Shown
import CorazaNginx.Request.Submission

namespace CorazaNginx

open CorazaNginx.Core Prog Handler

variable {ρ α : Type} {e : Env} {s t : St}

/-! ## Events -/

/-- the request header pairs an event makes the engine accept -/
def Event.requestPairs : Event → List HeaderPair
  | .call (.engine _ (.addRequestHeader p ..)) rc => if rc < 0 then [] else [p]
  | .call (.engine _ (.addRequestHeaders ps ..)) rc => if rc < 0 then [] else ps
  | _ => []

/-- the engine does not take a header submitted on its own -/
def Event.declinesHeader : Event → Bool
  | .call (.engine _ (.addRequestHeader ..)) rc => rc < 0
  | _ => false

/-- coraza_process_request_headers -/
def Event.isPhase1 : Event → Bool
  | .call (.engine _ .processRequestHeaders) _ => true
  | _ => false

/-- the request header pairs a stretch makes the engine accept -/
def Trace.requestPairs (t : Trace) : List HeaderPair := t.flatMap Event.requestPairs

/-- every header submitted on its own is taken -/
def Trace.NoDecline (t : Trace) : Prop := ∀ ev ∈ t, ev.declinesHeader = false

@[simp] theorem Trace.requestPairs_append (a b : Trace) :
    Trace.requestPairs (a ++ b) = a.requestPairs ++ b.requestPairs := by
  simp [Trace.requestPairs]

theorem noDecline_append {a b : Trace} : Trace.NoDecline (a ++ b) ↔ a.NoDecline ∧ b.NoDecline := List.forall_mem_append

theorem Event.isPhase1_of_plain {ev : Event} (h : ev.isPlain = true) : ev.isPhase1 = false := by
  cases ev with
  | poll => rfl
  | call c rc =>
    cases c with
    | engine tx c => cases c <;> first | rfl | cases h
    | _ => rfl

/-- an event that has to do neither with headers nor with phases -/
def Event.Apart (ev : Event) : Prop := ev.isPlain = true ∧ ev.requestPairs = [] ∧ ev.declinesHeader = false

theorem Event.apart_of_aux {ev : Event} (h : ev.isAux = true) : ev.Apart := by
  refine ⟨Event.isPlain_of_aux h, ?_⟩
  cases ev with
  | poll => cases h
  | call c rc =>
    cases c with
    | engine tx c => cases c <;> first | exact ⟨rfl, rfl⟩ | cases h
    | _ => exact ⟨rfl, rfl⟩

/-- a stretch in which the headers `pairs` have been submitted -/
structure Took (pairs : List HeaderPair) (evs : Trace) : Prop where
  plain : evs.Plain
  count : evs.requestPairs.length + evs.countP Event.declinesHeader = pairs.length
  all : evs.NoDecline → evs.requestPairs = pairs

theorem Took.nil : Took [] [] := ⟨Trace.Plain.nil, rfl, fun _ => rfl⟩

theorem Took.append {p q : List HeaderPair} {a b : Trace} (h : Took p a) (h' : Took q b) : Took (p ++ q) (a ++ b) where
  plain := plain_append.2 ⟨h.plain, h'.plain⟩
  count := by
    have h1 := h.count
    have h2 := h'.count
    rw [Trace.requestPairs_append, List.length_append, List.countP_append, List.length_append]
    omega
  all := fun hno => by
    rw [Trace.requestPairs_append, h.all (noDecline_append.1 hno).1, h'.all (noDecline_append.1 hno).2]

/-- a stretch apart from the submission -/
theorem Took.apart {evs : Trace} (h : ∀ ev ∈ evs, ev.Apart) : Took [] evs where
  plain := fun ev hev => (h ev hev).1
  count := by
    have h1 : evs.requestPairs = [] := List.flatMap_eq_nil_iff.2 fun ev hev => (h ev hev).2.1
    have h2 : evs.countP Event.declinesHeader = 0 :=
      List.countP_eq_zero.2 fun ev hev => by rw [(h ev hev).2.2]; exact Bool.false_ne_true
    rw [h1, h2]
    rfl
  all := fun _ => List.flatMap_eq_nil_iff.2 fun ev hev => (h ev hev).2.1

/-- a pair submitted on its own -/
theorem Took.single (tx : ℕ) (p : HeaderPair) (n v rc : ℤ) :
    Took [p] [Event.call (.engine tx (.addRequestHeader p n v)) rc] where
  plain := plain_single.2 rfl
  count := by
    by_cases h : rc < 0
    · simp [Trace.requestPairs, Event.requestPairs, Event.declinesHeader, h]
    · simp [Trace.requestPairs, Event.requestPairs, Event.declinesHeader, h]
  all := fun hno => by
    have h : ¬ rc < 0 := by simpa [Event.declinesHeader] using hno _ (List.mem_singleton_self _)
    simp [Trace.requestPairs, Event.requestPairs, h]

/-- a stretch without declined headers, from what the engine took -/
theorem Took.of_pairs {pairs : List HeaderPair} {evs : Trace} (hp : evs.Plain) (hn : evs.NoDecline)
    (h : evs.requestPairs = pairs) : Took pairs evs where
  plain := hp
  count := by
    rw [h, List.countP_eq_zero.2 fun ev hev => by rw [hn ev hev]; exact Bool.false_ne_true]
    rfl
  all := fun _ => h

/-! ## The two ways of submitting -/

/-- what the live entry at an address is submitted as -/
def livePair (x : TableElt × ℕ) : List HeaderPair := if x.1.hash = 0 then [] else [⟨x.1.key, x.1.value, some x.2⟩]

theorem livePairs_eq (l : List TableElt) : livePairs l = l.zipIdx.flatMap livePair := by
  unfold livePairs
  induction l.zipIdx with
  | nil => rfl
  | cons x xs ih =>
    rw [List.flatMap_cons, livePair, ← ih, List.filter_cons]
    by_cases h : x.1.hash = 0 <;> simp [h]

theorem livePairs_nil {l : List TableElt} (h : countLive l = 0) : livePairs l = [] := by
  rw [livePairs_eq, List.flatMap_eq_nil_iff]
  intro x hx
  have hmem : x.1 ∈ l := (List.mem_zipIdx' hx).2 ▸ List.getElem_mem _
  have h0 := List.countP_eq_zero.1 h x.1 hmem
  rw [livePair, if_pos (by simpa using h0)]

/-- a live header with a part longer than an int can count -/
def TooLong (x : TableElt) : Prop := x.hash ≠ 0 ∧ (intMax < x.key.length ∨ intMax < x.value.length)

instance (x : TableElt) : Decidable (TooLong x) := by unfold TooLong; infer_instance

/-- the entries of the list are the headers -/
theorem exists_zipIdx_iff {P : TableElt → Prop} {l : List TableElt} : (∃ x ∈ l.zipIdx, P x.1) ↔ ∃ x ∈ l, P x := by
  constructor
  · rintro ⟨x, hx, hP⟩
    exact ⟨x.1, (List.mem_zipIdx' hx).2 ▸ List.getElem_mem _, hP⟩
  · rintro ⟨x, hx, hP⟩
    rw [← List.zipIdx_map_fst 0 l] at hx
    obtain ⟨y, hy, rfl⟩ := List.mem_map.1 hx
    exact ⟨y, hy, hP⟩

/-- what the bulk submission logs: nothing without live headers, else the allocations, and the batch when it could be
packed, with the records, their number of bytes and the number of pairs -/
inductive BatchLog (tx : ℕ) (pairs : List HeaderPair) : Bool → Trace → Prop where
  | empty (none : pairs = []) : BatchLog tx pairs true []
  | unsent (evs : Trace) (allocs : ∀ ev ∈ evs, ev.isAlloc = true) : BatchLog tx pairs false evs
  | sent (evs : Trace) (packed : Bytes) (rc : ℤ) (allocs : ∀ ev ∈ evs, ev.isAlloc = true)
      (framing : Packing.Framing pairs packed) : BatchLog tx pairs (decide (0 ≤ rc))
        (evs ++ [.call (.engine tx (.addRequestHeaders pairs packed packed.length pairs.length)) rc])

theorem bulkRequestHeaders_logs {Q : Bool → St → Prop} {E : ρ → St → Prop}
    (h : ∀ ok evs, BatchLog s.ctx.corazaTransaction (livePairs s.r.headersIn.toList) ok evs → Q ok (s.logs evs)) :
    wp (bulkRequestHeaders : Handler ρ Bool) Q E e s := by
  rw [bulkRequestHeaders, wp_call, wp_bind, wp_get, wp_bind]
  refine (wp_when _ _).2 ⟨fun h0 => ?_, fun _ => ?_⟩
  · have hempty := h true [] (.empty (livePairs_nil h0))
    rwa [St.logs_nil] at hempty
  rw [wp_bind, wp_alloc, wp_bind]
  set ev := Event.call (.alloc (countLive s.r.headersIn.toList * 32)) _
  have hev : ∀ x ∈ [ev], x.isAlloc = true := by
    intro x hx
    rw [List.mem_singleton.1 hx]
    rfl
  refine (wp_when _ _).2 ⟨fun _ => h false [ev] (.unsent _ hev), fun _ => ?_⟩
  rw [wp_bind]
  refine Packing.packHeaders_framed (s := s.log ev) _ fun res evs hevs hframe => ?_
  have hallocs : ∀ x ∈ [ev] ++ evs, x.isAlloc = true := List.forall_mem_append.2 ⟨hev, hevs.forall fun _ => rfl⟩
  rw [St.log_logs]
  cases res with
  | none => exact h false _ (.unsent _ hallocs)
  | some packed =>
    have hf := hframe packed rfl
    rw [wp_bind, wp_engine, wp_pure, St.logs_log, cInt_of_le hf.whole, cInt_of_le hf.count]
    exact h _ _ (.sent _ packed _ hallocs hf)

/-- the batch is taken whole, or nothing of it -/
theorem BatchLog.took {tx : ℕ} {pairs : List HeaderPair} {ok : Bool} {evs : Trace} (h : BatchLog tx pairs ok evs) :
    Took (if ok then pairs else []) evs ∧ evs.NoDecline := by
  cases h with
  | empty hnone =>
    rw [if_pos rfl, hnone]
    exact ⟨Took.nil, fun _ hev => absurd hev List.not_mem_nil⟩
  | unsent evs hallocs =>
    have hall : ∀ ev ∈ evs, ev.Apart := fun ev hev => Event.apart_of_aux (Event.isAux_of_alloc (hallocs ev hev))
    exact ⟨Took.apart hall, fun ev hev => (hall ev hev).2.2⟩
  | sent evs packed rc hallocs hf =>
    have hall : ∀ ev ∈ evs, ev.Apart := fun ev hev => Event.apart_of_aux (Event.isAux_of_alloc (hallocs ev hev))
    set batch := Event.call (.engine tx (.addRequestHeaders pairs packed packed.length pairs.length)) rc
    have hno : Trace.NoDecline [batch] := by
      intro ev hev
      rw [List.mem_singleton.1 hev]
      rfl
    have hpairs : Trace.requestPairs [batch] = if decide (0 ≤ rc) then pairs else [] := by
      simp only [Trace.requestPairs, Event.requestPairs, batch, List.flatMap_cons, List.flatMap_nil, List.append_nil,
        decide_eq_true_eq]
      split_ifs <;> first | rfl | omega
    refine ⟨(Took.apart hall).append (Took.of_pairs (plain_single.2 rfl) hno hpairs), noDecline_append.2 ⟨?_, hno⟩⟩
    exact fun ev hev => (hall ev hev).2.2

/-- a description of what has been logged that adds up over the headers submitted on their own -/
structure Describes (tx : ℕ) (D : List HeaderPair → Trace → Prop) : Prop where
  nil : D [] []
  append : ∀ {ps qs : List HeaderPair} {a b : Trace}, D ps a → D qs b → D (ps ++ qs) (a ++ b)
  single : ∀ (p : HeaderPair) (rc : ℤ), D [p] [.call (.engine tx (.addRequestHeader p p.name.length p.value.length)) rc]

theorem took_describes (tx : ℕ) : Describes tx Took := ⟨Took.nil, Took.append, fun p rc => Took.single tx p _ _ rc⟩

section
variable {D : List HeaderPair → Trace → Prop}

/-- one header with its true lengths, or the handler gives up -/
theorem submitRequestHeader_spec (hD : Describes s.ctx.corazaTransaction D) (x : TableElt × ℕ) {Q : Unit → St → Prop}
    {E : ℤ → St → Prop} (hok : ∀ evs, D (livePair x) evs → ¬ TooLong x.1 → Q () (s.logs evs))
    (hbad : TooLong x.1 → E ngxHttpInternalServerError s.trigger) : wp (submitRequestHeader x) Q E e s := by
  rw [submitRequestHeader]
  refine (wp_ite _ _ _).2 ⟨fun h0 => ?_, fun h0 => ?_⟩
  · have hskip := hok [] (by rw [livePair, if_pos h0]; exact hD.nil) fun hl => hl.1 h0
    rwa [St.logs_nil] at hskip
  rw [wp_bind]
  refine (wp_when _ _).2 ⟨fun hl => ?_, fun hl => ?_⟩
  · rw [wp_bind, wp_trigger, wp_exit]
    exact hbad ⟨h0, hl⟩
  · rw [not_or, not_lt, not_lt] at hl
    rw [wp_bind, wp_engine, cInt_of_le hl.1, cInt_of_le hl.2]
    refine hok [_] ?_ fun hlong => hlong.2.elim (not_lt.2 hl.1) (not_lt.2 hl.2)
    rw [livePair, if_neg h0]
    exact hD.single ⟨x.1.key, x.1.value, some x.2⟩ _

/-- the loop over the headers: by induction on them -/
theorem submitAll_spec (hD : Describes s.ctx.corazaTransaction D) (xs : List (TableElt × ℕ)) {Q : Unit → St → Prop}
    {E : ℤ → St → Prop} (hok : ∀ evs, D (xs.flatMap livePair) evs → (∀ x ∈ xs, ¬ TooLong x.1) → Q () (s.logs evs))
    (hbad : ∀ ps evs, D ps evs → (∃ x ∈ xs, TooLong x.1) → E ngxHttpInternalServerError (s.logs evs).trigger) :
    wp (forEach xs submitRequestHeader) Q E e s := by
  induction xs generalizing s with
  | nil =>
    have hdone := hok [] hD.nil fun _ h => absurd h List.not_mem_nil
    rwa [St.logs_nil] at hdone
  | cons x xs ih =>
    rw [forEach, wp_bind]
    refine submitRequestHeader_spec hD x (fun evs hevs hx => ?_) (fun hx => ?_)
    · refine ih (s := s.logs evs) hD (fun evs' hevs' hxs => ?_) (fun ps evs' hevs' hxs => ?_)
      · rw [St.logs_logs]
        apply hok
        · rw [List.flatMap_cons]
          exact hD.append hevs hevs'
        · exact List.forall_mem_cons.2 ⟨hx, hxs⟩
      · rw [St.logs_logs]
        obtain ⟨y, hy, hlong⟩ := hxs
        exact hbad _ _ (hD.append hevs hevs') ⟨y, List.mem_cons_of_mem _ hy, hlong⟩
    · have hstop := hbad [] [] hD.nil ⟨x, List.mem_cons_self, hx⟩
      rwa [St.logs_nil] at hstop

end

/-! ## The handler -/

/-- nothing but calls that have to do neither with headers nor with phases -/
def Apart (s t : St) : Prop := ∃ evs : Trace, t = s.logs evs ∧ ∀ ev ∈ evs, ev.Apart

theorem Apart.trans (s t u : St) (h : Apart s t) (h' : Apart t u) : Apart s u := by
  obtain ⟨evs, rfl, hevs⟩ := h
  obtain ⟨evs', rfl, hevs'⟩ := h'
  exact ⟨evs ++ evs', St.logs_logs _ _ _, List.forall_mem_append.2 ⟨hevs, hevs'⟩⟩

/-- a block that prepares the submission, or gives up with an internal error -/
def Prepares (m : Handler ℤ α) : Prop :=
  Ends (fun _ => True) Apart (fun s rc t => rc = ngxHttpInternalServerError ∧ Apart s t) m

theorem prepares_composes : Composes (fun _ : St => True) Apart
    (fun s rc t => rc = ngxHttpInternalServerError ∧ Apart s t) where
  refl := fun s => ⟨[], (St.logs_nil s).symm, fun _ h => absurd h List.not_mem_nil⟩
  trans := Apart.trans
  keep := fun _ _ _ _ => trivial
  after := fun _ _ _ _ h h' => ⟨h'.1, Apart.trans _ _ _ h h'.2⟩

theorem Prepares.fail : Prepares (exit ngxHttpInternalServerError : Handler ℤ α) :=
  Ends.exit fun s => ⟨rfl, prepares_composes.refl s⟩

theorem Prepares.log (c : Call) (h : ∀ rc, (Event.call c rc).Apart) (s : St) (rc : ℤ) : Apart s (s.log (.call c rc)) :=
  ⟨[_], rfl, fun ev hev => by rw [List.mem_singleton.1 hev]; exact h rc⟩

theorem Prepares.strToChar (a : Bytes) : Prepares (CorazaNginx.strToChar a : Handler ℤ Bool) := fun _ s _ =>
  Prepares.log (.alloc _) (fun _ => ⟨rfl, rfl, rfl⟩) s _

theorem Prepares.localSockaddr : Prepares (invoke .localSockaddr : Handler ℤ ℤ) := fun _ s _ =>
  Prepares.log .localSockaddr (fun _ => ⟨rfl, rfl, rfl⟩) s _

theorem Prepares.failWhen {c : Prop} [Decidable c] : Prepares (when c (exit ngxHttpInternalServerError)) :=
  Ends.when prepares_composes Prepares.fail

/-- an address converted if there is one -/
theorem Prepares.address {c : Prop} [Decidable c] (a : Bytes) : Prepares (when c do
    when (!(← CorazaNginx.strToChar a)) do exit ngxHttpInternalServerError) :=
  Ends.when prepares_composes (Ends.bind prepares_composes (Prepares.strToChar a) fun _ => Prepares.failWhen)

/-- what follows a preparing block starts from the same request and context -/
theorem Prepares.then_spec {β : Type} {m : Handler ℤ α} (hm : Prepares m) {k : α → Handler ℤ β} {u : St}
    (hu : Apart s u) {Q : β → St → Prop} {E : ℤ → St → Prop} (hk : ∀ a t, Apart s t → wp (k a) Q E e t)
    (hE : ∀ t, Apart s t → E ngxHttpInternalServerError t) : wp (m >>= k) Q E e u := by
  rw [wp_bind]
  refine wp_mono (hm e u trivial) (fun a t ht => hk a t (Apart.trans _ _ _ hu ht)) fun rc t ht => ?_
  rw [ht.1]
  exact hE t (Apart.trans _ _ _ hu ht.2)

/-- what follows a call on the engine that prepares the submission -/
theorem Apart.engine_spec {β : Type} {c : EngineCall} (hc : ∀ tx rc, (Event.call (.engine tx c) rc).Apart)
    {k : ℤ → Handler ℤ β} {u : St} (hu : Apart s u) {Q : β → St → Prop} {E : ℤ → St → Prop}
    (hk : ∀ rc t, Apart s t → wp (k rc) Q E e t) : wp (engine c >>= k) Q E e u := by
  rw [wp_bind, wp_engine]
  exact hk _ _ (Apart.trans _ _ _ hu (Prepares.log _ (hc _) u _))

/-- phase 1 has been evaluated: what is behind it, and that an error of the engine fails closed -/
structure Evaluated1 (s : St) (rc : ℤ) (t : St) : Prop where
  trace : ∃ pret rest,
    t.trace = s.trace ++ .call (.engine s.ctx.corazaTransaction .processRequestHeaders) pret :: rest ∧
    Trace.Tail rest ∧ (pret < 0 → s.r.errorPage = false →
      rc = ngxHttpInternalServerError ∧ t.ctx.interventionTriggered = true)

theorem evaluate1_spec {Q : ℤ → St → Prop} (hQ : ∀ rc t, Evaluated1 s rc t → Q rc t) :
    wp (do
      let pret ← engine .processRequestHeaders
      afterPhasePoll (← pollAfterProcess true pret)
      return ngxDeclined : Handler ℤ ℤ) Q Q e s := by
  rw [wp_bind, wp_engine, wp_bind]
  set pret := e.ret s.trace (.engine s.ctx.corazaTransaction .processRequestHeaders)
  set ev := Event.call (.engine s.ctx.corazaTransaction .processRequestHeaders) pret
  -- whatever the branch on the poll's result does, once `rest` has been logged
  have branch : ∀ (ret : ℤ) (u : St) (rest : Trace), u.trace = s.trace ++ ev :: rest → rest.Tail → 0 ≤ pret →
      wp (do
        afterPhasePoll ret
        return ngxDeclined : Handler ℤ ℤ) Q Q e u := by
    intro ret u rest htr htail h0
    have hend : ∀ rc t, t.trace = u.trace → Q rc t := fun rc t ht =>
      hQ rc t ⟨pret, rest, ht.trans htr, htail, fun hneg => absurd hneg (not_lt.2 h0)⟩
    rw [wp_bind, afterPhasePoll, wp_bind, wp_get, wp_bind]
    refine (wp_when _ _).2 ⟨fun _ => hend _ _ rfl, fun _ => ?_⟩
    rw [wp_bind]
    refine (wp_when _ _).2 ⟨fun _ => ?_, fun _ => (wp_when _ _).2 ⟨fun _ => ?_, fun _ => hend _ _ rfl⟩⟩
    · rw [wp_bind, wp_trigger, wp_exit]
      exact hend _ _ rfl
    · rw [wp_bind, wp_trigger, wp_exit]
      exact hend _ _ rfl
  have hnil : Trace.Tail [] := fun _ h => absurd h List.not_mem_nil
  refine pollAfterProcess_spec true pret (fun hneg => ?_) (fun h0 _ => branch _ _ [] rfl hnil h0) (fun hint => ?_)
  · rw [wp_bind, afterPhasePoll, wp_bind, wp_get, wp_bind]
    refine (wp_when _ _).2 ⟨fun hep => ?_, fun _ => ?_⟩
    · exact hQ _ _ ⟨pret, [], rfl, hnil, fun _ h => absurd (hep.symm.trans h) (by decide)⟩
    · rw [wp_bind]
      refine (wp_when _ _).2 ⟨fun h => absurd h (by decide), fun _ => (wp_when _ _).2 ⟨fun _ => ?_, fun h => ?_⟩⟩
      · rw [wp_bind, wp_trigger, wp_exit]
        exact hQ _ _ ⟨pret, [], rfl, hnil, fun _ _ => ⟨rfl, rfl⟩⟩
      · exact absurd (by decide) h
  · refine processIntervention_spec true fun u evs h' l hu haux _ _ _ => ?_
    subst hu
    refine branch _ _ (pollEvent e (s.log ev) :: evs) ?_ ?_ (hint ▸ by decide)
    · exact List.append_assoc _ _ _
    · exact List.forall_mem_cons.2 ⟨Or.inl rfl, fun x hx => Or.inr (haux x hx)⟩

/-- what the rewrite handler can come to once the context has been created -/
inductive RewriteOutcome (s : St) : ℤ → St → Prop where
  /-- it has given up before phase 1 -/
  | gaveUp (evs : Trace) (t : St) (trace : t.trace = s.trace ++ evs) (plain : evs.Plain)
      (why : (∃ x ∈ s.r.headersIn.toList, TooLong x) ∨ evs.NoDecline) : RewriteOutcome s ngxHttpInternalServerError t
  /-- it has submitted the headers and evaluated phase 1 -/
  | evaluated (evs : Trace) (rc : ℤ) (t : St) (took : Took (livePairs s.r.headersIn.toList) evs)
      (why : (∃ x ∈ s.r.headersIn.toList, TooLong x) → evs.NoDecline) (out : Evaluated1 (s.logs evs) rc t) :
      RewriteOutcome s rc t

/-- **The rewrite handler.** -/
theorem rewriteInspect_outcome : wp (rewriteInspect : Handler ℤ ℤ) (RewriteOutcome s) (RewriteOutcome s) e s := by
  -- a return before the submission
  have early : ∀ t, Apart s t → RewriteOutcome s ngxHttpInternalServerError t := by
    rintro t ⟨evs, rfl, hevs⟩
    exact .gaveUp evs _ rfl (fun ev hev => (hevs ev hev).1) (Or.inr fun ev hev => (hevs ev hev).2.2)
  rw [rewriteInspect, wp_call, wp_bind, wp_get]
  refine Prepares.then_spec (Prepares.address _) (prepares_composes.refl s) (fun _ t1 h1 => ?_) early
  refine Prepares.then_spec Prepares.localSockaddr h1 (fun _ t2 h2 => ?_) early
  refine Prepares.then_spec Prepares.failWhen h2 (fun _ t3 h3 => ?_) early
  refine Prepares.then_spec (Prepares.address _) h3 (fun _ t4 h4 => ?_) early
  refine Apart.engine_spec (fun _ _ => ⟨rfl, rfl, rfl⟩) h4 fun _ t5 h5 => ?_
  refine Prepares.then_spec (Prepares.strToChar _) h5 (fun _ t6 h6 => ?_) early
  refine Prepares.then_spec Prepares.failWhen h6 (fun _ t7 h7 => ?_) early
  refine Prepares.then_spec (Prepares.strToChar _) h7 (fun _ t8 h8 => ?_) early
  refine Prepares.then_spec Prepares.failWhen h8 (fun _ t9 h9 => ?_) early
  refine Apart.engine_spec (fun _ _ => ⟨rfl, rfl, rfl⟩) h9 fun _ t10 h10 => ?_
  obtain ⟨evs, rfl, hevs⟩ := h10
  have hprep : Took [] evs := Took.apart hevs
  have hno : evs.NoDecline := fun ev hev => (hevs ev hev).2.2
  rw [wp_bind]
  refine bulkRequestHeaders_logs (s := s.logs evs) fun ok evs1 hlog => ?_
  obtain ⟨htook, hno1⟩ := hlog.took
  rw [St.logs_logs, wp_bind]
  have hno1' : Trace.NoDecline (evs ++ evs1) := noDecline_append.2 ⟨hno, hno1⟩
  have hsofar := hprep.append htook
  cases ok with
  | true =>
    refine (wp_when _ _).2 ⟨fun h => absurd h (by decide), fun _ => ?_⟩
    exact evaluate1_spec fun rc t ht => .evaluated _ rc t hsofar (fun _ => hno1') ht
  | false =>
    refine (wp_when _ _).2 ⟨fun _ => ?_, fun h => absurd rfl h⟩
    refine submitAll_spec (s := s.logs (evs ++ evs1)) (took_describes _) _ (fun evs2 hevs2 hfits => ?_)
      (fun ps evs2 hevs2 hx => ?_)
    · rw [St.logs_logs]
      rw [← livePairs_eq] at hevs2
      refine evaluate1_spec fun rc t ht => .evaluated _ rc t (hsofar.append hevs2) (fun hx => ?_) ht
      obtain ⟨y, hy, hlong⟩ := exists_zipIdx_iff.2 hx
      exact absurd hlong (hfits y hy)
    · rw [St.logs_logs]
      exact .gaveUp _ _ rfl (plain_append.2 ⟨hsofar.plain, hevs2.plain⟩) (Or.inl (exists_zipIdx_iff.1 hx))

/-! ## Is every header inspected? -/

/-- what a call of the rewrite handler adds to the trace -/
def rewriteEvents (e : Env) (s : St) : Trace := ((rewriteInspect : Handler ℤ ℤ).run e s).2.trace.drop s.trace.length

/-- phase 1 is evaluated with every live header taken, each once, or the handler returns an internal error -/
def HeadersInspected (e : Env) (s : St) : Prop :=
  ((∃ ev ∈ rewriteEvents e s, ev.isPhase1 = true) →
    (rewriteEvents e s).requestPairs.Perm (livePairs s.r.headersIn.toList)) ∧
  ((∀ ev ∈ rewriteEvents e s, ev.isPhase1 = false) →
    ((rewriteInspect : Handler ℤ ℤ).run e s).1 = ngxHttpInternalServerError)

/-- the engine takes every header that is submitted on its own, or a live header is too long for it -/
def HeadersTaken (e : Env) (s : St) : Prop :=
  (∃ x ∈ s.r.headersIn.toList, TooLong x) ∨ (rewriteEvents e s).NoDecline

theorem Trace.Tail.requestPairs {t : Trace} (h : t.Tail) :
    t.requestPairs = [] ∧ t.NoDecline ∧ ∀ ev ∈ t, ev.isPhase1 = false := by
  have hall : ∀ ev ∈ t, ev.requestPairs = [] ∧ ev.declinesHeader = false ∧ ev.isPhase1 = false := by
    intro ev hev
    rcases h ev hev with hp | ha
    · cases ev with
      | poll => exact ⟨rfl, rfl, rfl⟩
      | call => cases hp
    · exact ⟨(Event.apart_of_aux ha).2.1, (Event.apart_of_aux ha).2.2,
        Event.isPhase1_of_plain (Event.isPlain_of_aux ha)⟩
  exact ⟨List.flatMap_eq_nil_iff.2 fun ev hev => (hall ev hev).1, fun ev hev => (hall ev hev).2.1,
    fun ev hev => (hall ev hev).2.2⟩

/-- **Every header is inspected exactly where taken.** -/
theorem headers_inspected_iff (e : Env) (s : St) : HeadersInspected e s ↔ HeadersTaken e s := by
  have hout : RewriteOutcome s ((rewriteInspect : Handler ℤ ℤ).run e s).1 ((rewriteInspect : Handler ℤ ℤ).run e s).2 :=
    (wp_run (Q := RewriteOutcome s) rewriteInspect).1 rewriteInspect_outcome
  unfold HeadersInspected HeadersTaken rewriteEvents
  generalize ((rewriteInspect : Handler ℤ ℤ).run e s).1 = rc at hout ⊢
  generalize ((rewriteInspect : Handler ℤ ℤ).run e s).2 = t at hout ⊢
  cases hout with
  | gaveUp evs t htr hplain hwhy =>
    rw [htr, List.drop_left]
    refine ⟨fun _ => hwhy, fun _ => ⟨fun ⟨ev, hev, h1⟩ => ?_, fun _ => rfl⟩⟩
    rw [Event.isPhase1_of_plain (hplain ev hev)] at h1
    cases h1
  | evaluated evs rc t htook hwhy hev =>
    obtain ⟨pret, rest, htr, htail, -⟩ := hev.trace
    rw [St.logs_trace, List.append_assoc] at htr
    rw [htr, List.drop_left]
    obtain ⟨hrest, hnoRest, -⟩ := htail.requestPairs
    set ev1 := Event.call (.engine (s.logs evs).ctx.corazaTransaction .processRequestHeaders) pret
    have hpairs : Trace.requestPairs (evs ++ ev1 :: rest) = evs.requestPairs := by
      rw [Trace.requestPairs_append]
      change evs.requestPairs ++ Trace.requestPairs rest = evs.requestPairs
      rw [hrest, List.append_nil]
    have hdecl : Trace.NoDecline (evs ++ ev1 :: rest) ↔ evs.NoDecline := by
      refine noDecline_append.trans ⟨And.left, fun h => ⟨h, List.forall_mem_cons.2 ⟨rfl, hnoRest⟩⟩⟩
    rw [hpairs, hdecl]
    constructor
    · rintro ⟨hall, -⟩
      -- as many pairs taken as submitted leaves none declined
      have hlen := (hall ⟨ev1, by simp, rfl⟩).length_eq
      have hcount := htook.count
      refine Or.inr fun ev hev => ?_
      have hzero : evs.countP Event.declinesHeader = 0 := by omega
      simpa using List.countP_eq_zero.1 hzero ev hev
    · intro h
      have hno : evs.NoDecline := h.elim hwhy id
      refine ⟨fun _ => by rw [htook.all hno], fun hnone => ?_⟩
      have habsurd := hnone ev1 (by simp)
      cases habsurd

/-- an engine that takes no header, neither in a batch nor on its own -/
def decliningEnv : Env := { Env.calm (.fill 1) with
  ret := fun t call => match call with
    | .engine _ (.addRequestHeaders ..) => -1
    | .engine _ (.addRequestHeader ..) => -1
    | _ => (Env.calm (.fill 1)).ret t call }

/-- a request with one header -/
def oneHeader : St :=
  { r := { headersIn := (default : Parts TableElt).push ⟨1, ascii "X-Header", ascii "value"⟩ }, ctx := {} }

/-- **A header goes uninspected.** The engine declines it on its own, and phase 1 is evaluated without it. -/
theorem declined_header_uninspected :
    ((rewriteInspect : Handler ℤ ℤ).run decliningEnv oneHeader).1 = ngxDeclined ∧
    (∃ ev ∈ rewriteEvents decliningEnv oneHeader, ev.isPhase1 = true) ∧
    (rewriteEvents decliningEnv oneHeader).requestPairs = [] ∧
    ¬ ∀ (e : Env) (s : St), HeadersInspected e s := by
  refine ⟨by decide +kernel, by decide +kernel, by decide +kernel, fun h => ?_⟩
  have hperm := (h decliningEnv oneHeader).1 (by decide +kernel)
  have hlen := hperm.length_eq
  revert hlen
  decide +kernel

end CorazaNginx
