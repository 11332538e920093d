/-
Parties that ask once for something that may come only later.

Parties turn up, and each asks at most once: what it asks for is there at once, or it waits and is resumed. `Awaiting`
is where each party stands with the signals so far, `Step` what can happen, to any party and in any order. `Balanced` is
what the signals then tell: as many were requests as parties have asked, and as many of these had to wait as have been
resumed or still wait. So no party asks twice, and none is resumed but one that waits (`balanced_of_steps`).
-/
import Mathlib.Tactic

namespace CorazaNginx.Core

/-- where a party stands -/
inductive Stand where
  | idle
  | settled
  | waiting
deriving DecidableEq

inductive Signal where
  | ask (waits : Bool)
  | resume
deriving DecidableEq

structure Awaiting where
  stands : ℕ → Stand
  /-- how many parties there are -/
  count : ℕ
  signals : List Signal

namespace Awaiting

variable {s s' : Awaiting} {a : ℕ} {p : Stand → Bool}

/-- how many parties stand as `p` says -/
def number (s : Awaiting) (p : Stand → Bool) : ℕ := ∑ a ∈ Finset.range s.count, (p (s.stands a)).toNat

/-- only the party `a` stands elsewhere -/
structure Changes (a : ℕ) (s s' : Awaiting) : Prop where
  bound : a < s.count
  count : s'.count = s.count
  others : ∀ b < s.count, b ≠ a → s'.stands b = s.stands b

/-- one thing that happens -/
inductive Step (s s' : Awaiting) : Prop where
  /-- parties turn up, which have not asked yet -/
  | grow (count : s.count ≤ s'.count) (old : ∀ a < s.count, s'.stands a = s.stands a)
      (new : ∀ a, s.count ≤ a → a < s'.count → s'.stands a = .idle) (signals : s'.signals = s.signals)
  | ask (a : ℕ) (waits : Bool) (change : Changes a s s') (was : s.stands a = .idle)
      (now : s'.stands a = if waits then .waiting else .settled) (signals : s'.signals = s.signals ++ [.ask waits])
  | resume (a : ℕ) (change : Changes a s s') (was : s.stands a = .waiting) (now : s'.stands a = .settled)
      (signals : s'.signals = s.signals ++ [.resume])

/-- the signals tell where the parties stand -/
structure Balanced (s : Awaiting) : Prop where
  asked : s.signals.countP (· ≠ .resume) = s.number (· ≠ .idle)
  resumed : s.signals.countP (· = .ask true) = s.signals.countP (· = .resume) + s.number (· = .waiting)

/-! ## Numbers -/

/-- the party that stands elsewhere counts for itself -/
theorem Changes.number (h : Changes a s s') (p : Stand → Bool) :
    s'.number p + (p (s.stands a)).toNat = s.number p + (p (s'.stands a)).toNat := by
  have hin : a ∈ Finset.range s.count := Finset.mem_range.2 h.bound
  have hrest : ∑ b ∈ (Finset.range s.count).erase a, (p (s'.stands b)).toNat =
      ∑ b ∈ (Finset.range s.count).erase a, (p (s.stands b)).toNat := by
    refine Finset.sum_congr rfl fun b hb => ?_
    obtain ⟨hne, hb⟩ := Finset.mem_erase.1 hb
    rw [h.others b (Finset.mem_range.1 hb) hne]
  rw [Awaiting.number, Awaiting.number, h.count, ← Finset.add_sum_erase _ _ hin, ← Finset.add_sum_erase _ _ hin, hrest]
  omega

/-- parties that turn up are idle -/
theorem number_grow (count : s.count ≤ s'.count) (old : ∀ a < s.count, s'.stands a = s.stands a)
    (new : ∀ a, s.count ≤ a → a < s'.count → s'.stands a = .idle) (hp : p .idle = false) :
    s'.number p = s.number p := by
  have hsub : Finset.range s.count ⊆ Finset.range s'.count := Finset.range_subset_range.2 count
  rw [number, number, ← Finset.sum_subset hsub fun a hin hout => ?_]
  · exact Finset.sum_congr rfl fun a ha => by rw [old a (Finset.mem_range.1 ha)]
  · rw [new a (not_lt.1 fun hlt => hout (Finset.mem_range.2 hlt)) (Finset.mem_range.1 hin), hp]
    rfl

/-- no party stands so -/
theorem stands_of_number_eq_zero (h : s.number p = 0) (ha : a < s.count) : p (s.stands a) = false := by
  have hzero := Finset.sum_eq_zero_iff.1 h a (Finset.mem_range.2 ha)
  cases hp : p (s.stands a) with
  | false => rfl
  | true => simp [hp] at hzero

/-! ## Steps -/

/-- **One step.** -/
theorem Step.balanced (h : Step s s') (hs : Balanced s) : Balanced s' := by
  cases h with
  | grow count old new signals =>
    refine ⟨?_, ?_⟩
    · rw [signals, number_grow count old new rfl, hs.asked]
    · rw [signals, number_grow count old new rfl, hs.resumed]
  | ask a waits change was now signals =>
    have hasked : s'.number (· ≠ .idle) = s.number (· ≠ .idle) + 1 := by
      have h := change.number (· ≠ .idle)
      rw [was, now] at h
      cases waits <;> exact h
    have hwaits : s'.number (· = .waiting) = s.number (· = .waiting) + waits.toNat := by
      have h := change.number (· = .waiting)
      rw [was, now] at h
      cases waits <;> exact h
    refine ⟨?_, ?_⟩
    · rw [signals, List.countP_append, hs.asked, hasked]
      rfl
    · have hlast : [Signal.ask waits].countP (· = .ask true) = waits.toNat := by cases waits <;> rfl
      have hnone : [Signal.ask waits].countP (· = .resume) = 0 := by cases waits <;> rfl
      rw [signals, List.countP_append, List.countP_append, hs.resumed, hwaits, hlast, hnone]
      omega
  | resume a change was now signals =>
    have hasked : s'.number (· ≠ .idle) = s.number (· ≠ .idle) := by
      have h := change.number (· ≠ .idle)
      rw [was, now] at h
      exact Nat.succ_injective h
    have hwaits : s'.number (· = .waiting) + 1 = s.number (· = .waiting) := by
      have h := change.number (· = .waiting)
      rw [was, now] at h
      exact h
    refine ⟨?_, ?_⟩
    · rw [signals, List.countP_append, hs.asked, hasked]
      rfl
    · rw [signals, List.countP_append, List.countP_append, hs.resumed, ← hwaits]
      exact Nat.add_right_comm _ _ 1

/-- **Any number of steps.** -/
theorem balanced_of_steps (h : Relation.ReflTransGen Step s s') (hs : Balanced s) : Balanced s' := by
  induction h with
  | refl => exact hs
  | tail _ last ih => exact last.balanced ih

/-- with no party, and no signal yet -/
theorem balanced_empty (stands : ℕ → Stand) : Balanced ⟨stands, 0, []⟩ := ⟨rfl, rfl⟩

end Awaiting

end CorazaNginx.Core
