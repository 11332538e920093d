/-
Independent components that take steps in any order. Nothing here names the filter under verification.

A schedule is a list of steps, each with the component that takes it. `own i` is what of a tagged list belongs to the
component `i`; a component goes where its own steps take it (`runAll_apply`), and when its log only grows, its log is
its part of the common record (`own_record`). Resources: a component holds some, and a step may get it more. When what a
step gets is new to all components (`FreshAlong`), no two components ever hold the same resource (`disjoint_runAll`),
and what the record says about a resource is what its holder's log says about it (`filterMap_own`).
-/
import Mathlib.Tactic
import CorazaNginx.Core.History

namespace CorazaNginx.Core

variable {ι σ α β γ κ : Type} [DecidableEq ι] {i j : ι} {step : σ → α → σ} {f : ι → σ}

/-! ## Tagged lists -/

/-- what belongs to `i` -/
def own (i : ι) (l : List (ι × α)) : List α := l.filterMap fun x => if x.1 = i then some x.2 else none

@[simp] theorem own_nil : own i ([] : List (ι × α)) = [] := rfl

@[simp] theorem own_append (l m : List (ι × α)) : own i (l ++ m) = own i l ++ own i m := List.filterMap_append

@[simp] theorem own_self (x : α) : own i [(i, x)] = [x] := by simp [own]

theorem own_other (x : α) (h : j ≠ i) : own i [(j, x)] = [] := by simp [own, h]

theorem mem_own {l : List (ι × α)} {x : α} : x ∈ own i l ↔ (i, x) ∈ l := by
  rw [own, List.mem_filterMap]
  constructor
  · rintro ⟨⟨j, y⟩, hy, h⟩
    rw [Option.ite_none_right_eq_some] at h
    obtain ⟨rfl, h⟩ := h
    cases h
    exact hy
  · exact fun h => ⟨_, h, if_pos rfl⟩

/-- one component's items, tagged -/
theorem own_map_self (l : List α) : own i (l.map fun x => (i, x)) = l := by
  simp [own]

theorem own_map_other (l : List α) (h : j ≠ i) : own i (l.map fun x => (j, x)) = [] := by
  simp [own, h]

/-- what only `i` has to do with -/
theorem filterMap_own {g : α → Option γ} {l : List (ι × α)} (h : ∀ j, j ≠ i → ∀ x ∈ own j l, g x = none) :
    (l.map Prod.snd).filterMap g = (own i l).filterMap g := by
  induction l with
  | nil => rfl
  | cons x l ih =>
    obtain ⟨j, x⟩ := x
    have htail := ih fun k hk y hy => h k hk y (mem_own.2 (List.mem_cons_of_mem _ (mem_own.1 hy)))
    have hcons : ∀ k, own k ((j, x) :: l) = own k [(j, x)] ++ own k l := fun k => own_append [(j, x)] l
    by_cases hj : j = i
    · subst hj
      rw [hcons, own_self, List.map_cons, List.singleton_append, List.filterMap_cons, List.filterMap_cons, htail]
    · have hnone : g x = none := h j hj x (mem_own.2 List.mem_cons_self)
      rw [hcons, own_other x hj, List.nil_append, List.map_cons, List.filterMap_cons_none hnone, htail]

/-! ## Runs -/

/-- the components behind a schedule -/
def runAll (step : σ → α → σ) (f : ι → σ) (sched : List (ι × α)) : ι → σ :=
  sched.foldl (fun f x => Function.update f x.1 (step (f x.1) x.2)) f

@[simp] theorem runAll_nil : runAll step f [] = f := rfl

theorem runAll_concat (sched : List (ι × α)) (x : ι × α) : runAll step f (sched ++ [x]) =
    Function.update (runAll step f sched) x.1 (step (runAll step f sched x.1) x.2) := List.foldl_append ..

theorem runAll_concat_self (sched : List (ι × α)) (x : α) :
    runAll step f (sched ++ [(i, x)]) i = step (runAll step f sched i) x := by
  rw [runAll_concat]
  exact Function.update_self _ _ _

theorem runAll_concat_other (sched : List (ι × α)) (x : α) (h : j ≠ i) :
    runAll step f (sched ++ [(i, x)]) j = runAll step f sched j := by
  rw [runAll_concat]
  exact Function.update_of_ne h _ _

/-- **Projection.** A component is where its own steps take it. -/
theorem runAll_apply (sched : List (ι × α)) (i : ι) : runAll step f sched i = (own i sched).foldl step (f i) := by
  induction sched using List.reverseRecOn with
  | nil => rfl
  | append_singleton sched x ih =>
    obtain ⟨j, x⟩ := x
    by_cases hj : j = i
    · subst hj
      rw [runAll_concat_self, own_append, own_self, List.foldl_append, ih]
      rfl
    · rw [runAll_concat_other sched x (Ne.symm hj), own_append, own_other x hj, List.append_nil, ih]

/-! ## The common record -/

/-- what the steps of a schedule add to their components' logs, in the order of the schedule -/
def record (step : σ → α → σ) (log : σ → List β) (f : ι → σ) (sched : List (ι × α)) : List (ι × β) :=
  match sched with
  | [] => []
  | x :: rest => ((log (step (f x.1) x.2)).drop (log (f x.1)).length).map (fun y => (x.1, y)) ++
      record step log (Function.update f x.1 (step (f x.1) x.2)) rest

/-- **The record** holds each component's log. -/
theorem own_record {log : σ → List β} (hgrows : ∀ s a, log s <+: log (step s a)) (sched : List (ι × α)) (i : ι) :
    log (f i) ++ own i (record step log f sched) = log (runAll step f sched i) := by
  induction sched generalizing f with
  | nil => exact List.append_nil _
  | cons x sched ih =>
    obtain ⟨j, x⟩ := x
    have hrest : log (Function.update f j (step (f j) x) i) ++
        own i (record step log (Function.update f j (step (f j) x)) sched) =
          log (runAll step f ((j, x) :: sched) i) := ih
    rw [record, own_append, ← hrest]
    by_cases hj : j = i
    · subst hj
      obtain ⟨added, hadded⟩ := hgrows (f j) x
      rw [Function.update_self, own_map_self, ← hadded, List.drop_left, List.append_assoc]
    · rw [Function.update_of_ne (Ne.symm hj), own_map_other _ hj, List.nil_append]

/-! ## Resources -/

/-- what a step gets is new to every component -/
def FreshAlong (step : σ → α → σ) (held : σ → List κ) (f : ι → σ) (sched : List (ι × α)) : Prop :=
  Each (fun pre x => ∀ k ∈ held (step (runAll step f pre x.1) x.2), k ∉ held (runAll step f pre x.1) →
    ∀ j, k ∉ held (runAll step f pre j)) sched

/-- **Disjointness.** No two components ever hold the same resource. -/
theorem disjoint_runAll {held : σ → List κ} (h0 : ∀ i, held (f i) = []) {sched : List (ι × α)}
    (hfresh : FreshAlong step held f sched) (i j : ι) (k : κ) (hi : k ∈ held (runAll step f sched i))
    (hj : k ∈ held (runAll step f sched j)) : i = j := by
  induction sched using List.reverseRecOn generalizing i j with
  | nil =>
    rw [runAll_nil, h0 i] at hi
    exact absurd hi List.not_mem_nil
  | append_singleton sched x ih =>
    obtain ⟨a, x⟩ := x
    obtain ⟨hbefore, hstep⟩ := each_concat.1 hfresh
    -- the component that took the step holds what it held, or what nobody held
    have hstepped : ∀ b, b ≠ a → k ∈ held (runAll step f (sched ++ [(a, x)]) a) →
        k ∈ held (runAll step f (sched ++ [(a, x)]) b) → a = b := by
      intro b hb ha hother
      rw [runAll_concat_self] at ha
      rw [runAll_concat_other sched x hb] at hother
      by_cases hheld : k ∈ held (runAll step f sched a)
      · exact ih hbefore a b hheld hother
      · exact absurd hother (hstep k ha hheld b)
    by_cases hia : i = a
    · subst hia
      by_cases hji : j = i
      · exact hji.symm
      · exact hstepped j hji hi hj
    · by_cases hja : j = a
      · subst hja
        exact (hstepped i hia hj hi).symm
      · rw [runAll_concat_other sched x hia] at hi
        rw [runAll_concat_other sched x hja] at hj
        exact ih hbefore i j hi hj

end CorazaNginx.Core
