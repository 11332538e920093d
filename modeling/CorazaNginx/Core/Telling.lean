/-
What a log has told, and where a program that writes it can stop.

An event tells a list of tokens (`tok`). `Tells tok a b l`: from the log `a` to the log `b` exactly `l` has been told;
`TellsPart`: the first part of it. A block that `Says l` tells `l` when it falls through, and a part of `l` when the
enclosing function returns in it. Blocks in sequence say the concatenation (`Says.bind`), and so do the rounds of a loop
(`Says.forEach`): wherever a program stops, what it has told is a prefix of what it would have told.
-/
import Mathlib.Tactic
import CorazaNginx.Core.Prog

namespace CorazaNginx.Core

variable {κ σ ε τ ρ α β : Type}

section
variable (tok : ε → List τ)

/-- from the log `a` to the log `b`, exactly `l` has been told -/
def Tells (a b : List ε) (l : List τ) : Prop := ∃ evs, b = a ++ evs ∧ evs.flatMap tok = l

/-- the first part of it -/
def TellsPart (a b : List ε) (l : List τ) : Prop := ∃ l', l' <+: l ∧ Tells tok a b l'

variable {tok} {a b c : List ε} {l l' : List τ}

namespace Tells

theorem silent {evs : List ε} (h : b = a ++ evs) (hs : ∀ ev ∈ evs, tok ev = []) : Tells tok a b [] :=
  ⟨evs, h, List.flatMap_eq_nil_iff.2 hs⟩

theorem refl (a : List ε) : Tells tok a a [] := .silent (List.append_nil a).symm fun _ h => absurd h List.not_mem_nil

theorem single (a : List ε) (ev : ε) : Tells tok a (a ++ [ev]) (tok ev) := ⟨[ev], rfl, List.flatMap_singleton _ _⟩

theorem trans (h : Tells tok a b l) (h' : Tells tok b c l') : Tells tok a c (l ++ l') := by
  obtain ⟨evs, rfl, rfl⟩ := h
  obtain ⟨evs', rfl, rfl⟩ := h'
  exact ⟨evs ++ evs', List.append_assoc _ _ _, List.flatMap_append⟩

/-- behind it nothing more is told -/
theorem idly (h : Tells tok a b l) (h' : Tells tok b c []) : Tells tok a c l := by
  have hall := h.trans h'
  rwa [List.append_nil] at hall

theorem part (h : Tells tok a b l) (l' : List τ) : TellsPart tok a b (l ++ l') := ⟨l, List.prefix_append _ _, h⟩

theorem whole (h : Tells tok a b l) : TellsPart tok a b l := ⟨l, List.prefix_refl _, h⟩

theorem after (h : Tells tok a b l) (h' : TellsPart tok b c l') : TellsPart tok a c (l ++ l') := by
  obtain ⟨l'', hpre, htells⟩ := h'
  exact ⟨l ++ l'', (List.prefix_append_right_inj l).2 hpre, h.trans htells⟩

end Tells

namespace TellsPart

theorem idly (h : TellsPart tok a b l) (h' : Tells tok b c []) : TellsPart tok a c l := by
  obtain ⟨l', hpre, htells⟩ := h
  exact ⟨l', hpre, htells.idly h'⟩

/-- nothing is a part of everything -/
theorem none (h : Tells tok a b []) (l : List τ) : TellsPart tok a b l := ⟨[], List.nil_prefix, h⟩

theorem more (h : TellsPart tok a b l) (l' : List τ) : TellsPart tok a b (l ++ l') := by
  obtain ⟨l'', hpre, htells⟩ := h
  exact ⟨l'', hpre.trans (List.prefix_append _ _), htells⟩

end TellsPart

end

/-! ## Blocks -/

section
variable (tok : ε → List τ) (log : σ → List ε) (e : κ) (I J : σ → Prop)

/-- from a state with `I`, the block tells `l` and leaves one with `I`, or returns with `J` and a part of `l` told -/
def Says (l : List τ) (m : Prog κ σ ρ α) : Prop := ∀ s, I s → Prog.wp m
  (fun _ t => I t ∧ Tells tok (log s) (log t) l) (fun _ t => J t ∧ TellsPart tok (log s) (log t) l) e s

variable {tok log e I J} {l l' : List τ}

namespace Says

open Prog

theorem pure (a : α) : Says tok log e I J [] (pure a : Prog κ σ ρ α) := fun s hs => ⟨hs, .refl (log s)⟩

theorem bind {m : Prog κ σ ρ α} {f : α → Prog κ σ ρ β} (hm : Says tok log e I J l m)
    (hf : ∀ a, Says tok log e I J l' (f a)) : Says tok log e I J (l ++ l') (m >>= f) := by
  intro s hs
  rw [wp_bind]
  refine wp_mono (hm s hs) (fun a t ht => ?_) (fun _ t ht => ⟨ht.1, ht.2.more l'⟩)
  refine wp_mono (hf a t ht.1) (fun _ u hu => ⟨hu.1, ht.2.trans hu.2⟩) (fun _ u hu => ⟨hu.1, ht.2.after hu.2⟩)

theorem ite {c : Prop} [Decidable c] {m n : Prog κ σ ρ α} (hm : c → Says tok log e I J l m)
    (hn : ¬ c → Says tok log e I J l' n) : Says tok log e I J (if c then l else l') (if c then m else n) := by
  by_cases hc : c
  · rw [if_pos hc, if_pos hc]
    exact hm hc
  · rw [if_neg hc, if_neg hc]
    exact hn hc

theorem when {c : Prop} [Decidable c] {m : Prog κ σ ρ Unit} (hm : c → Says tok log e I J l m) :
    Says tok log e I J (if c then l else []) (Prog.when c m) := .ite hm fun _ => .pure ()

/-- the rounds of a loop: by induction on what it is over -/
theorem forEach {xs : List β} {f : β → Prog κ σ ρ Unit} {g : β → List τ}
    (hf : ∀ x ∈ xs, Says tok log e I J (g x) (f x)) :
    Says tok log e I J (xs.flatMap g) (forEach xs f) := by
  induction xs with
  | nil => exact .pure ()
  | cons x xs ih =>
    rw [List.flatMap_cons]
    exact .bind (hf x List.mem_cons_self) fun _ => ih fun y hy => hf y (List.mem_cons_of_mem x hy)

end Says

end

end CorazaNginx.Core
