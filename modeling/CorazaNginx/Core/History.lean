/-
Histories: lists that grow at their end, and properties of each item that depend on what came before it. Nothing here
names the filter under verification.

`Each P l`: every item of `l` is as `P` asks, given the items in front of it. A history that is extended keeps what it
has (`each_append`, `each_concat`), so a safety property of a run is a property of what each step adds.
-/
import Mathlib.Tactic

namespace CorazaNginx.Core

variable {α β : Type} {P Q : List α → α → Prop} {a b : List α}

/-- every item is as `P` asks, given what is in front of it -/
def Each (P : List α → α → Prop) (l : List α) : Prop := ∀ pre x post, l = pre ++ x :: post → P pre x

theorem each_nil : Each P [] := by
  intro pre x post h
  have hlen := congrArg List.length h
  simp at hlen

/-- what a history gets added -/
theorem each_append : Each P (a ++ b) ↔ Each P a ∧ Each (fun pre x => P (a ++ pre) x) b := by
  constructor
  · intro h
    refine ⟨fun pre x post ha => h pre x (post ++ b) ?_, fun pre x post hb => h (a ++ pre) x post ?_⟩
    · rw [ha, List.append_assoc, List.cons_append]
    · rw [hb, List.append_assoc]
  · rintro ⟨ha, hb⟩ pre x post hl
    rcases List.append_eq_append_iff.1 hl with ⟨m, rfl, hm⟩ | ⟨m, rfl, hm⟩
    · exact hb m x post hm
    · cases m with
      | nil =>
        rw [List.nil_append] at hm
        have h := hb [] x post hm.symm
        simpa using h
      | cons y m =>
        rw [List.cons_append] at hm
        obtain ⟨rfl, hpost⟩ := List.cons.inj hm
        exact ha pre x m rfl

theorem each_single {x : α} : Each P [x] ↔ P [] x := by
  constructor
  · exact fun h => h [] x [] rfl
  · intro h pre y post hl
    rcases List.append_eq_singleton_iff.1 hl.symm with ⟨rfl, hy⟩ | ⟨-, hy⟩
    · obtain ⟨rfl, -⟩ := List.cons.inj hy
      exact h
    · cases hy

theorem each_concat {x : α} : Each P (a ++ [x]) ↔ Each P a ∧ P a x := by
  rw [each_append, each_single, List.append_nil]

/-- a history from its first item on -/
theorem each_cons {x : α} : Each P (x :: a) ↔ P [] x ∧ Each (fun pre y => P (x :: pre) y) a := by
  rw [← List.singleton_append, each_append, each_single]
  rfl

/-- items that are fine wherever they stand -/
theorem each_of_forall (h : ∀ x ∈ a, ∀ pre, P pre x) : Each P a := by
  rintro pre x post rfl
  exact h x (List.mem_append_right _ List.mem_cons_self) pre

/-- items that are fine behind any items of the same list -/
theorem each_of_mem (h : ∀ pre x, (∀ y ∈ pre, y ∈ a) → x ∈ a → P pre x) : Each P a := by
  intro pre x post hl
  refine h pre x (fun y hy => ?_) ?_
  · rw [hl]
    exact List.mem_append_left _ hy
  · rw [hl]
    exact List.mem_append_right _ List.mem_cons_self

end CorazaNginx.Core
