/-
Sharing one resource among all holders with the same key. Nothing here names the module under verification.

An `Entry` is a holder: the key it needs a resource for, the resource it holds, whether it owns it. `Shared l`: in the
list of holders, resources are the same exactly when keys are, and every resource that is held has exactly one owner. A
holder may join by borrowing from an owner with its key (`Shared.borrow`), or, when no owner has it, with a resource of
its own that nobody holds (`Shared.build`). There are then as many owners as keys (`Shared.owners_length`).
-/
import Mathlib.Tactic

namespace CorazaNginx.Core

variable {K H : Type}

/-- a holder -/
structure Entry (K H : Type) where
  key : K
  resource : H
  owner : Bool
deriving DecidableEq

/-- the holders that own what they hold -/
def owners (l : List (Entry K H)) : List (Entry K H) := l.filter (·.owner)

theorem mem_owners {l : List (Entry K H)} {x : Entry K H} : x ∈ owners l ↔ x ∈ l ∧ x.owner = true := List.mem_filter

/-- the holders share exactly -/
structure Shared (l : List (Entry K H)) : Prop where
  same : ∀ x ∈ l, ∀ y ∈ l, x.resource = y.resource ↔ x.key = y.key
  owned : ∀ x ∈ l, ∃ o ∈ owners l, o.resource = x.resource
  once : ((owners l).map (·.resource)).Nodup

namespace Shared

variable {l : List (Entry K H)}

theorem nil : Shared ([] : List (Entry K H)) := ⟨nofun, nofun, List.nodup_nil⟩

/-- joining next to the other holders -/
theorem same_concat (h : Shared l) {x : Entry K H} (hx : ∀ y ∈ l, y.resource = x.resource ↔ y.key = x.key) :
    ∀ y ∈ l ++ [x], ∀ z ∈ l ++ [x], y.resource = z.resource ↔ y.key = z.key := by
  intro y hy z hz
  rcases List.mem_append.1 hy with hy | hy <;> rcases List.mem_append.1 hz with hz | hz
  · exact h.same y hy z hz
  · rw [List.mem_singleton.1 hz]
    exact hx y hy
  · rw [List.mem_singleton.1 hy, eq_comm, hx z hz, eq_comm]
  · rw [List.mem_singleton.1 hy, List.mem_singleton.1 hz]
    exact ⟨fun _ => rfl, fun _ => rfl⟩

theorem borrow (h : Shared l) {o : Entry K H} (ho : o ∈ owners l) {k : K} (hk : o.key = k) :
    Shared (l ++ [⟨k, o.resource, false⟩]) := by
  have hol := (mem_owners.1 ho).1
  have howners : owners (l ++ [⟨k, o.resource, false⟩]) = owners l := by simp [owners]
  refine ⟨h.same_concat fun y hy => ?_, fun x hx => ?_, by rw [howners]; exact h.once⟩
  · rw [← hk]
    exact h.same y hy o hol
  · rw [howners]
    rcases List.mem_append.1 hx with hx | hx
    · exact h.owned x hx
    · rw [List.mem_singleton.1 hx]
      exact ⟨o, ho, rfl⟩

theorem build (h : Shared l) {k : K} {r : H} (hnew : ∀ o ∈ owners l, o.resource ≠ r) (hno : ∀ o ∈ owners l, o.key ≠ k) :
    Shared (l ++ [⟨k, r, true⟩]) := by
  have howners : owners (l ++ [⟨k, r, true⟩]) = owners l ++ [⟨k, r, true⟩] := by simp [owners]
  -- whatever is held is held by an owner
  have hres : ∀ y ∈ l, y.resource ≠ r := by
    intro y hy hyr
    obtain ⟨o, ho, hor⟩ := h.owned y hy
    exact hnew o ho (hor.trans hyr)
  have hkey : ∀ y ∈ l, y.key ≠ k := by
    intro y hy hyk
    obtain ⟨o, ho, hor⟩ := h.owned y hy
    exact hno o ho (((h.same o (mem_owners.1 ho).1 y hy).1 hor).trans hyk)
  refine ⟨h.same_concat fun y hy => ⟨fun he => absurd he (hres y hy), fun he => absurd he (hkey y hy)⟩,
    fun x hx => ?_, ?_⟩
  · rw [howners]
    rcases List.mem_append.1 hx with hx | hx
    · obtain ⟨o, ho, hor⟩ := h.owned x hx
      exact ⟨o, List.mem_append_left _ ho, hor⟩
    · rw [List.mem_singleton.1 hx]
      exact ⟨_, List.mem_append_right _ (List.mem_singleton_self _), rfl⟩
  · rw [howners, List.map_append, List.nodup_append]
    refine ⟨h.once, List.nodup_singleton _, fun a ha b hb => ?_⟩
    obtain ⟨o, ho, rfl⟩ := List.mem_map.1 ha
    rw [List.map_singleton, List.mem_singleton] at hb
    rw [hb]
    exact hnew o ho

/-- one owner for each resource that is held -/
theorem owner_unique (h : Shared l) {o o' : Entry K H} (ho : o ∈ owners l) (ho' : o' ∈ owners l)
    (heq : o.resource = o'.resource) : o = o' := List.inj_on_of_nodup_map h.once ho ho' heq

/-- as many owners as keys -/
theorem owners_length [DecidableEq K] (h : Shared l) : (owners l).length = (l.map (·.key)).toFinset.card := by
  have hnodup : ((owners l).map (·.key)).Nodup := by
    refine List.Nodup.map_on (fun x hx y hy hk => ?_) (List.Nodup.of_map _ h.once)
    exact h.owner_unique hx hy ((h.same x (mem_owners.1 hx).1 y (mem_owners.1 hy).1).2 hk)
  have hset : (l.map (·.key)).toFinset = ((owners l).map (·.key)).toFinset := by
    ext k
    rw [List.mem_toFinset, List.mem_toFinset, List.mem_map, List.mem_map]
    constructor
    · rintro ⟨x, hx, rfl⟩
      obtain ⟨o, ho, hor⟩ := h.owned x hx
      exact ⟨o, ho, (h.same o (mem_owners.1 ho).1 x hx).1 hor⟩
    · rintro ⟨o, ho, rfl⟩
      exact ⟨o, (mem_owners.1 ho).1, rfl⟩
  rw [hset, List.toFinset_card_of_nodup hnodup, List.length_map]

end Shared

end CorazaNginx.Core
