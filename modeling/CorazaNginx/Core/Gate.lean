/-
A gate: a delay line whose head can be lost, and whose message can be replaced by another one. Nothing here names the
filter under verification.

`Step R g x g' o`: given the batch `x` (its items, and whether it closes the message), the gate `g` puts out `o` and is
then `g'`. A line feeds; a head that does not get through takes everything held with it (`sever`), and what arrives
later trickles out behind it; any gate that is still open can be replaced by a head `R` allows (`replace`), after which
later batches are swallowed, or pass as the new message's.
- `Runs.split`: a run replaces the message at most once, and the batch at which it does is not let out;
- `Runs.passed`: what a run that replaces nothing has let out (`Passed`): nothing while no batch closes the message, or
  the head and every item, or what arrived behind the loss;
- `Runs.cut`: the two together, for a gate that starts with a head held back.
-/
import Mathlib.Tactic
import CorazaNginx.Core.DelayLine

namespace CorazaNginx.Core

/-- the state of a gate -/
inductive Gate (η α : Type) where
  | line (l : Line η α)
  /-- the head is gone, and with it what was held behind it -/
  | severed
  /-- another message is on its way -/
  | ended (swallows : Bool)
deriving DecidableEq

namespace Gate

variable {η α : Type} {R : η → Prop} {g g' : Gate η α} {o : List (Out η α)} {x : List α × Bool}
  {xs : List (List α × Bool)}

/-- the items of batches -/
def fed (xs : List (List α × Bool)) : List α := xs.flatMap Prod.fst

@[simp] theorem fed_nil : fed ([] : List (List α × Bool)) = [] := rfl
@[simp] theorem fed_cons (x : List α × Bool) (xs : List (List α × Bool)) : fed (x :: xs) = x.1 ++ fed xs := rfl

/-- the message is still the one the gate was opened with -/
def Open (g : Gate η α) : Prop := ∀ b, g ≠ .ended b

/-- what one batch can do -/
inductive Step (R : η → Prop) : Gate η α → List α × Bool → Gate η α → List (Out η α) → Prop where
  | feed (l : Line η α) (x : List α × Bool) (flush : Bool) (due : x.2 = true → flush = true) :
      Step R (.line l) x (.line (l.feed x.1 flush).1) (l.feed x.1 flush).2
  | sever (h : η) (q : List α) (x : List α × Bool) (o : List (Out η α)) (lost : o = [] ∨ o = [.head h]) :
      Step R (.line (.held h q)) x .severed o
  | trickle (x : List α × Bool) : Step R .severed x .severed (Out.emit x.1)
  | replace (g : Gate η α) (x : List α × Bool) (k : η) (b : Bool) (still : g.Open) (allowed : R k) :
      Step R g x (.ended b) [.head k]
  | swallow (x : List α × Bool) : Step R (.ended true) x (.ended true) []
  | pass (x : List α × Bool) : Step R (.ended false) x (.ended false) (Out.emit x.1)

/-- batch after batch -/
inductive Runs (R : η → Prop) : Gate η α → List (List α × Bool) → Gate η α → List (Out η α) → Prop where
  | nil (g : Gate η α) : Runs R g [] g []
  | cons {g g' g'' : Gate η α} {x : List α × Bool} {xs : List (List α × Bool)} {o o' : List (Out η α)}
      (step : Step R g x g' o) (rest : Runs R g' xs g'' o') : Runs R g (x :: xs) g'' (o ++ o')

/-- an output that is only bodies, with these items -/
def Bodies (d : List α) (o : List (Out η α)) : Prop := ∃ bs : List (List α), o = bs.map .body ∧ bs.flatten = d

theorem Bodies.nil : Bodies ([] : List α) ([] : List (Out η α)) := ⟨[], rfl, rfl⟩

theorem Bodies.emit (l : List α) : Bodies l (Out.emit l : List (Out η α)) := by
  obtain ⟨bs, hbs⟩ := (Out.Headless.emit (η := η) l).eq_bodies
  refine ⟨bs, hbs, ?_⟩
  calc bs.flatten = (Out.emit l : List (Out η α)).flatMap Out.items := by rw [hbs, Out.bodies_items]
    _ = l := Out.emit_items l

theorem Bodies.append {d d' : List α} {o o' : List (Out η α)} (h : Bodies d o) (h' : Bodies d' o') :
    Bodies (d ++ d') (o ++ o') := by
  obtain ⟨bs, rfl, rfl⟩ := h
  obtain ⟨bs', rfl, rfl⟩ := h'
  exact ⟨bs ++ bs', by simp, by simp⟩

/-! ## Runs that stay in one state -/

theorem Runs.ended {b : Bool} (h : Runs R (.ended b) xs g' o) :
    g' = .ended b ∧ Bodies (if b then [] else fed xs) o := by
  generalize hg : Gate.ended b = g at h
  induction h with
  | nil => exact ⟨rfl, by cases b <;> exact Bodies.nil⟩
  | cons step rest ih =>
    subst hg
    cases step with
    | replace _ _ k b' still => exact absurd rfl (still b)
    | swallow =>
      obtain ⟨rfl, hb⟩ := ih rfl
      exact ⟨rfl, hb⟩
    | pass =>
      obtain ⟨rfl, hb⟩ := ih rfl
      exact ⟨rfl, (Bodies.emit _).append hb⟩

/-- a gate that is open at the end was open all along -/
theorem Runs.open_of (h : Runs R g xs g' o) (hopen : g'.Open) : g.Open := by
  rintro b rfl
  exact hopen b h.ended.1

theorem Runs.severed (h : Runs R .severed xs g' o) (hopen : g'.Open) : g' = .severed ∧ Bodies (fed xs) o := by
  generalize hg : Gate.severed = g at h
  induction h with
  | nil => exact ⟨rfl, Bodies.nil⟩
  | cons step rest ih =>
    subst hg
    cases step with
    | trickle =>
      obtain ⟨hs, hb⟩ := ih hopen rfl
      exact ⟨hs, (Bodies.emit _).append hb⟩
    | replace _ _ k b => exact absurd rfl (rest.open_of hopen b)

theorem Runs.live (h : Runs R (.line .live) xs g' o) (hopen : g'.Open) : g' = .line .live ∧ Bodies (fed xs) o := by
  generalize hg : Gate.line Line.live = g at h
  induction h with
  | nil => exact ⟨rfl, Bodies.nil⟩
  | cons step rest ih =>
    subst hg
    cases step with
    | feed _ _ flush =>
      obtain ⟨hs, hb⟩ := ih hopen rfl
      exact ⟨hs, (Bodies.emit _).append hb⟩
    | replace _ _ k b => exact absurd rfl (rest.open_of hopen b)

/-! ## What comes out -/

/-- what a gate that held `q` behind the head `h` has let out of it and the batches `xs`, nothing being replaced -/
inductive Passed (h : η) (q : List α) (xs : List (List α × Bool)) : List (Out η α) → Prop where
  | withheld (waits : ∀ x ∈ xs, x.2 = false) : Passed h q xs []
  | whole (o : List (Out η α)) (let_go : xs ≠ []) (items : Bodies (q ++ fed xs) o) : Passed h q xs (.head h :: o)
  | severed (pre : List (List α × Bool)) (x : List α × Bool) (post : List (List α × Bool)) (lost o : List (Out η α))
      (split : xs = pre ++ x :: post) (head : lost = [] ∨ lost = [.head h]) (items : Bodies (fed post) o) :
      Passed h q xs (lost ++ o)

/-- **A run that replaces nothing.** By induction on the run; once the head has gone or been lost the gate stays as it
is. -/
theorem Runs.passed {h : η} {q : List α} (hr : Runs R (.line (.held h q)) xs g' o) (hopen : g'.Open) :
    Passed h q xs o := by
  generalize hg : Gate.line (Line.held h q) = g at hr
  induction hr generalizing q with
  | nil => exact .withheld fun x hx => absurd hx List.not_mem_nil
  | @cons _ _ _ x xs _ o' step rest ih =>
    subst hg
    cases step with
    | feed _ _ flush due =>
      cases flush with
      | true =>
        obtain ⟨-, hb⟩ := Runs.live rest hopen
        refine .whole _ (List.cons_ne_nil _ _) ?_
        rw [fed_cons, ← List.append_assoc]
        exact (Bodies.emit _).append hb
      | false =>
        have hx : x.2 = false := by
          by_contra hne
          exact absurd (due (by simpa using hne)) (by decide)
        cases ih hopen rfl with
        | withheld waits =>
          refine .withheld fun y hy => ?_
          rcases List.mem_cons.1 hy with rfl | hy
          · exact hx
          · exact waits y hy
        | whole o _ items => exact .whole o (List.cons_ne_nil _ _) (by rwa [fed_cons, ← List.append_assoc])
        | severed pre y post lost o split head items =>
          exact .severed (x :: pre) y post lost o (by rw [split, List.cons_append]) head items
    | sever _ _ _ _ head =>
      obtain ⟨-, hb⟩ := Runs.severed rest hopen
      exact .severed [] x xs _ o' rfl head hb
    | replace _ _ k b => exact absurd rfl (rest.open_of hopen b)

/-- **At most one replacement.** A run from an open gate leaves it open, or splits at the batch that replaced the
message: the run up to there, the new head, and behind it later batches only. -/
theorem Runs.split (h : Runs R g xs g' o) (hopen : g.Open) :
    g'.Open ∨ ∃ pre x post gm before k b after, xs = pre ++ x :: post ∧ Runs R g pre gm before ∧ gm.Open ∧ R k ∧
      g' = .ended b ∧ o = before ++ .head k :: after ∧ Bodies (if b then [] else fed post) after := by
  induction h with
  | nil => exact Or.inl hopen
  | @cons g g1 _ x xs o o' step rest ih =>
    by_cases h1 : g1.Open
    · rcases ih h1 with hend | ⟨pre, y, post, gm, before, k, b, after, rfl, hpre, hgm, hk, hb, rfl, hafter⟩
      · exact Or.inl hend
      · exact Or.inr ⟨x :: pre, y, post, gm, o ++ before, k, b, after, rfl, .cons step hpre, hgm, hk, hb,
          (List.append_assoc _ _ _).symm, hafter⟩
    · cases step with
      | replace _ _ k b still allowed =>
        obtain ⟨hend, hafter⟩ := Runs.ended rest
        exact Or.inr ⟨[], x, xs, g, [], k, b, o', rfl, .nil g, hopen, allowed, hend, rfl, hafter⟩
      | feed => exact absurd (fun _ h => by cases h) h1
      | sever => exact absurd (fun _ h => by cases h) h1
      | trickle => exact absurd (fun _ h => by cases h) h1
      | swallow => exact absurd rfl (hopen true)
      | pass => exact absurd rfl (hopen false)

/-- **What a gate lets out.** It is still open and has let out what `Passed` says, or it let that out of the batches
before one batch, replaced the message there, and let out of the rest nothing or everything. -/
theorem Runs.cut {h : η} {q : List α} (hr : Runs R (.line (.held h q)) xs g' o) :
    (g'.Open ∧ Passed h q xs o) ∨
      ∃ pre x post before k b after, xs = pre ++ x :: post ∧ g' = .ended b ∧ R k ∧ o = before ++ .head k :: after ∧
        Passed h q pre before ∧ Bodies (if b then [] else fed post) after := by
  rcases hr.split (fun _ h => by cases h) with hopen | ⟨pre, x, post, gm, before, k, b, after, hxs, hpre, hgm, hk, hb,
    ho, hafter⟩
  · exact Or.inl ⟨hopen, hr.passed hopen⟩
  · exact Or.inr ⟨pre, x, post, before, k, b, after, hxs, hb, hk, ho, hpre.passed hgm, hafter⟩

end Gate

end CorazaNginx.Core
