/-
Lines and words: trimming a line, and the first word of a text. Nothing here names the filter under verification.

`blank` says which items separate words. `trim` drops them at both ends (`trim_split`), `firstWord` is what stands
before the first of them (`firstWord_append_blank`, `firstWord_of_solid`).
-/
import Mathlib.Tactic
import Mathlib.Data.List.DropRight
import Mathlib.Data.List.TakeWhile

namespace CorazaNginx.Core

variable {α : Type} {blank : α → Bool} {l m : List α} {x y : α}

/-! ## Trimming -/

/-- without the blanks at both ends -/
def trim (blank : α → Bool) (l : List α) : List α := (l.dropWhile blank).rdropWhile blank

/-- what has been trimmed off is blank -/
theorem trim_split (blank : α → Bool) (l : List α) : ∃ lead trail, l = lead ++ trim blank l ++ trail ∧
    (∀ x ∈ lead, blank x = true) ∧ (∀ x ∈ trail, blank x = true) := by
  refine ⟨l.takeWhile blank, (l.dropWhile blank).rtakeWhile blank, ?_, fun x hx => List.mem_takeWhile_imp hx,
    fun x hx => List.mem_rtakeWhile_imp hx⟩
  rw [List.append_assoc, trim, List.rdropWhile_append_rtakeWhile, List.takeWhile_append_dropWhile]

theorem trim_last (h : trim blank l = m ++ [x]) : blank x = false := by
  have hne : (l.dropWhile blank).rdropWhile blank ≠ [] := by
    rw [trim] at h
    rw [h]
    simp
  have hlast := List.rdropWhile_last_not blank (l.dropWhile blank) hne
  have hx : ((l.dropWhile blank).rdropWhile blank).getLast hne = x := by
    have h' : (l.dropWhile blank).rdropWhile blank = m ++ [x] := h
    simp [h']
  rw [hx] at hlast
  simpa using hlast

theorem trim_head (h : trim blank l = x :: m) : blank x = false := by
  obtain ⟨rest, hrest⟩ : trim blank l <+: l.dropWhile blank := List.rdropWhile_prefix blank _
  rw [h, List.cons_append] at hrest
  have hne : l.dropWhile blank ≠ [] := by
    rw [← hrest]
    simp
  have hhead := List.head_dropWhile_not blank hne
  have hx : (l.dropWhile blank).head hne = x := by simp [← hrest]
  rw [hx] at hhead
  simpa using hhead

/-! ## The first word -/

/-- no item is blank -/
def Solid (blank : α → Bool) (l : List α) : Prop := ∀ x ∈ l, blank x = false

/-- the first word of a text -/
def firstWord (blank : α → Bool) (l : List α) : List α := (l.dropWhile blank).takeWhile fun x => !blank x

theorem Solid.append (hl : Solid blank l) (hm : Solid blank m) : Solid blank (l ++ m) := fun x hx =>
  (List.mem_append.1 hx).elim (hl x) (hm x)

/-- a word at the start of a text -/
theorem firstWord_append (hl : Solid blank l) (hne : l ≠ []) :
    firstWord blank (l ++ m) = l ++ m.takeWhile fun x => !blank x := by
  obtain ⟨x, t, rfl⟩ := List.exists_cons_of_ne_nil hne
  have hx : blank x = false := hl x List.mem_cons_self
  rw [firstWord, List.cons_append, List.dropWhile_cons_of_neg (by simp [hx]), ← List.cons_append,
    List.takeWhile_append_of_pos fun y hy => by simp [hl y hy]]

theorem firstWord_of_solid (h : Solid blank l) : firstWord blank l = l := by
  by_cases hne : l = []
  · rw [hne]
    rfl
  · have hword := firstWord_append (m := []) h hne
    simpa using hword

/-- the word ends at the first blank -/
theorem firstWord_append_blank (hl : Solid blank l) (hne : l ≠ []) (hx : blank x = true) :
    firstWord blank (l ++ x :: m) = l := by
  rw [firstWord_append hl hne, List.takeWhile_cons_of_neg (by simp [hx]), List.append_nil]

/-- the first word of a text that goes on -/
theorem prefix_firstWord (hl : Solid blank l) (m : List α) : l <+: firstWord blank (l ++ m) := by
  by_cases hne : l = []
  · rw [hne]
    exact List.nil_prefix
  · rw [firstWord_append hl hne]
    exact List.prefix_append _ _

/-- a text is solid, or has a first blank -/
theorem solid_or_split (blank : α → Bool) (l : List α) :
    Solid blank l ∨ ∃ w x m, l = w ++ x :: m ∧ Solid blank w ∧ blank x = true := by
  induction l with
  | nil => exact Or.inl fun x hx => absurd hx List.not_mem_nil
  | cons y l ih =>
    cases hy : blank y with
    | true => exact Or.inr ⟨[], y, l, rfl, fun x hx => absurd hx List.not_mem_nil, hy⟩
    | false =>
      have hsingle : Solid blank [y] := fun x hx => List.mem_singleton.1 hx ▸ hy
      rcases ih with h | ⟨w, x, m, rfl, hw, hx⟩
      · exact Or.inl (hsingle.append h)
      · exact Or.inr ⟨y :: w, x, m, rfl, hsingle.append hw, hx⟩

end CorazaNginx.Core
