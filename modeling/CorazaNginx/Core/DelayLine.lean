/-
A delay line: a channel that may hold a message's head back, together with everything that follows it, and let go later.
Nothing here names the filter under verification.

A `Line` either holds a head `h` and the items `q` that arrived behind it, or is open. `feed` gives it a batch of items
and says whether it lets go now. What comes out is a list of `Out`: heads, and non-empty bodies (`emit` drops an empty
one, so that a batch without items leaves no mark).
- `run_conserves`: what has come out and what is still held is what was held and fed, in order;
- `run_live`: an open line passes everything on;
- `run_flush`: once some batch lets go, the head has come out exactly once, first, and behind it exactly what was fed.
-/
import Mathlib.Tactic

namespace CorazaNginx.Core

/-- what comes out of a channel: a head, or items behind it -/
inductive Out (η α : Type) where
  | head (h : η)
  | body (l : List α)
deriving DecidableEq

namespace Out

variable {η α : Type}

/-- the items of an output -/
def items : Out η α → List α
  | head _ => []
  | body l => l

/-- items on their way out; an empty batch leaves no mark -/
def emit (l : List α) : List (Out η α) := if l = [] then [] else [body l]

@[simp] theorem emit_nil : emit ([] : List α) = ([] : List (Out η α)) := rfl

@[simp] theorem emit_items (l : List α) : (emit l : List (Out η α)).flatMap items = l := by
  unfold emit
  split_ifs with h
  · exact h.symm
  · simp [items]

/-- an output without a head -/
def Headless (o : List (Out η α)) : Prop := ∀ x ∈ o, ∀ h, x ≠ head h

theorem Headless.emit (l : List α) : Headless (Out.emit l : List (Out η α)) := by
  intro x hx h
  unfold Out.emit at hx
  split_ifs at hx
  · cases hx
  · rw [List.mem_singleton.1 hx]
    nofun

theorem Headless.append {o o' : List (Out η α)} (h : Headless o) (h' : Headless o') : Headless (o ++ o') := by
  intro x hx
  rcases List.mem_append.1 hx with hx | hx
  · exact h x hx
  · exact h' x hx

/-- an output without a head is a sequence of bodies -/
theorem Headless.eq_bodies {o : List (Out η α)} (h : Headless o) : ∃ bs : List (List α), o = bs.map body := by
  induction o with
  | nil => exact ⟨[], rfl⟩
  | cons x o ih =>
    obtain ⟨bs, rfl⟩ := ih fun y hy => h y (List.mem_cons_of_mem _ hy)
    cases x with
    | head k => exact absurd rfl (h _ List.mem_cons_self k)
    | body l => exact ⟨l :: bs, rfl⟩

@[simp] theorem bodies_items (bs : List (List α)) : (bs.map (body (η := η))).flatMap items = bs.flatten := by
  induction bs with
  | nil => rfl
  | cons l bs ih => simp [items, ih]

end Out

/-- the state of a delay line -/
inductive Line (η α : Type) where
  | held (h : η) (q : List α)
  | live
deriving DecidableEq

namespace Line

variable {η α : Type}

/-- feed a batch; `flush` says whether the line lets go -/
def feed (s : Line η α) (l : List α) (flush : Bool) : Line η α × List (Out η α) :=
  match s, flush with
  | held h q, false => (held h (q ++ l), [])
  | held h q, true => (live, .head h :: Out.emit (q ++ l))
  | live, _ => (live, Out.emit l)

/-- feed batch after batch -/
def run (s : Line η α) : List (List α × Bool) → Line η α × List (Out η α)
  | [] => (s, [])
  | x :: xs => ((run (feed s x.1 x.2).1 xs).1, (feed s x.1 x.2).2 ++ (run (feed s x.1 x.2).1 xs).2)

/-- the items a line holds -/
def queued : Line η α → List α
  | held _ q => q
  | live => []

theorem feed_conserves (s : Line η α) (l : List α) (flush : Bool) :
    (s.feed l flush).2.flatMap Out.items ++ (s.feed l flush).1.queued = s.queued ++ l := by
  cases s with
  | held h q => cases flush <;> simp [feed, queued, Out.items]
  | live => simp [feed, queued]

/-- **Conservation.** By induction on the batches, from what one batch does. -/
theorem run_conserves (s : Line η α) (xs : List (List α × Bool)) :
    (s.run xs).2.flatMap Out.items ++ (s.run xs).1.queued = s.queued ++ xs.flatMap Prod.fst := by
  induction xs generalizing s with
  | nil => simp [run]
  | cons x xs ih =>
    calc (s.run (x :: xs)).2.flatMap Out.items ++ (s.run (x :: xs)).1.queued
        = (s.feed x.1 x.2).2.flatMap Out.items ++
            (((s.feed x.1 x.2).1.run xs).2.flatMap Out.items ++ ((s.feed x.1 x.2).1.run xs).1.queued) := by
          simp [run]
      _ = ((s.feed x.1 x.2).2.flatMap Out.items ++ (s.feed x.1 x.2).1.queued) ++ xs.flatMap Prod.fst := by
          rw [ih, List.append_assoc]
      _ = s.queued ++ (x :: xs).flatMap Prod.fst := by
          rw [feed_conserves, List.flatMap_cons, List.append_assoc]

theorem run_live (xs : List (List α × Bool)) : ∃ o : List (Out η α),
    run live xs = (live, o) ∧ Out.Headless o ∧ o.flatMap Out.items = xs.flatMap Prod.fst := by
  induction xs with
  | nil => exact ⟨[], rfl, fun x hx => absurd hx List.not_mem_nil, rfl⟩
  | cons x xs ih =>
    obtain ⟨o, ho, hless, hitems⟩ := ih
    refine ⟨Out.emit x.1 ++ o, ?_, (Out.Headless.emit x.1).append hless, ?_⟩
    · simp [run, feed, ho]
    · simp [hitems]

/-- **A delay line loses nothing.** Once some batch lets go, exactly one head has come out, first, and behind it
exactly the items held at the start and those fed since, in order. -/
theorem run_flush (h : η) (q : List α) (xs : List (List α × Bool)) (hx : ∃ x ∈ xs, x.2 = true) :
    ∃ bs : List (List α), run (held h q) xs = (live, .head h :: bs.map .body) ∧
      bs.flatten = q ++ xs.flatMap Prod.fst := by
  induction xs generalizing q with
  | nil => simp at hx
  | cons x xs ih =>
    cases hf : x.2 with
    | false =>
      have hrest : ∃ y ∈ xs, y.2 = true := by
        obtain ⟨y, hy, hy'⟩ := hx
        rcases List.mem_cons.1 hy with rfl | hy
        · rw [hf] at hy'; cases hy'
        · exact ⟨y, hy, hy'⟩
      obtain ⟨bs, hbs, hflat⟩ := ih (q ++ x.1) hrest
      refine ⟨bs, ?_, by simp [hflat]⟩
      simp [run, feed, hf, hbs]
    | true =>
      obtain ⟨o, ho, hless, hitems⟩ := run_live (η := η) xs
      obtain ⟨bs, hbs⟩ := ((Out.Headless.emit (η := η) (q ++ x.1)).append hless).eq_bodies
      refine ⟨bs, ?_, ?_⟩
      · simp only [run, feed, hf, ho]
        rw [← hbs]
        rfl
      · have hsum := congrArg (List.flatMap Out.items) hbs
        rw [List.flatMap_append, Out.emit_items, hitems, Out.bodies_items] at hsum
        rw [List.flatMap_cons, ← List.append_assoc, hsum]

end Line

end CorazaNginx.Core
