/-
The scan and the first word of a record.

`glue` is what one byte does to the word in hand. As long as no blank has come, the word is the whole record
(`Growing`); once a blank has come, the buffer is full or the word has a byte that no directive's name has, the verdict
on the record is the verdict on the word, whatever follows (`Settled`). `WordSim` says that one of the two holds of the
record in hand, and a line of it keeps that: the record is complete (`WordSim.completed`), a list is open behind it
(`WordSim.listed`), or it goes on (`WordSim.continued`). A byte NUL settles the record (`WordSim.nul`).
-/
import Mathlib.Tactic
import CorazaNginx.Config.Scanning
import CorazaNginx.Spec.SecLang

namespace CorazaNginx.RulesScan

open CorazaNginx.Core SecLang

variable {s : RulesScan} {t trail text more : Bytes} {w : Bytes × Bool} {c : UInt8} {cut : Bool}

/-! ## The verdict on a word -/

theorem scanWord_eq (s : RulesScan) :
    s.scanWord = if isRemoteRules s.word then some (ascii "SecRemoteRules") else none := by
  rw [scanWord, unsupportedDirectives, isRemoteRules]
  by_cases h : s.word.map lower = (ascii "SecRemoteRules").map lower
  · have hlength : s.word.length = (ascii "SecRemoteRules").length := by simpa using congrArg List.length h
    simp [h, hlength]
  · simp [h]

theorem not_remote_of_mem {word : Bytes} (hc : c ∈ word) (hno : lower c ∉ (ascii "SecRemoteRules").map lower) :
    isRemoteRules word = false := by
  rw [isRemoteRules, decide_eq_false_iff_not]
  intro h
  apply hno
  rw [← h]
  exact List.mem_map_of_mem hc

theorem not_remote_of_length {word : Bytes} (h : word.length ≠ 14) : isRemoteRules word = false := by
  rw [isRemoteRules, decide_eq_false_iff_not]
  intro heq
  apply h
  have hlength := congrArg List.length heq
  simpa [ascii] using hlength

/-- a word with a backslash is no directive -/
theorem not_remote_of_backslash {word : Bytes} (h : 0x5c ∈ word) : isRemoteRules word = false :=
  not_remote_of_mem h (by decide +kernel)

/-- the word has a byte that stays in it and that no directive's name has -/
def Foreign (word : Bytes) : Prop := ∃ c ∈ word, c = 0x60 ∨ c = 0

theorem Foreign.not_remote {word : Bytes} (h : Foreign word) : isRemoteRules word = false := by
  obtain ⟨c, hin, rfl | rfl⟩ := h
  · exact not_remote_of_mem hin (by decide +kernel)
  · exact not_remote_of_mem hin (by decide +kernel)

theorem Foreign.of_prefix {word word' : Bytes} (h : Foreign word) (hpre : word <+: word') : Foreign word' := by
  obtain ⟨c, hin, hc⟩ := h
  exact ⟨c, hpre.subset hin, hc⟩

/-- the backslash is none of those bytes -/
theorem Foreign.of_continued {m : Bytes} (h : Foreign (m ++ [0x5c])) : Foreign m := by
  obtain ⟨c, hin, hc⟩ := h
  rcases List.mem_append.1 hin with hin | hin
  · exact ⟨c, hin, hc⟩
  · rw [List.mem_singleton.1 hin] at hc
    exact absurd hc (by decide)

/-- a record whose first word outgrows the buffer is not refused -/
theorem not_remote_of_long (hsolid : Solid isBlank text) (hlong : wordSize ≤ text.length) (more : Bytes) :
    isRemoteRules (firstWord isBlank (text ++ more)) = false := by
  have hle := (prefix_firstWord hsolid more).length_le
  apply not_remote_of_length
  rw [wordSize] at hlong
  omega

/-! ## The word, as the record grows -/

/-- the word and whether it is complete, behind one more byte -/
def glue (w : Bytes × Bool) (c : UInt8) : Bytes × Bool :=
  if isBlank c then (w.1, w.2 || w.1 ≠ [])
  else if w.2 then w else if w.1.length < wordSize then (w.1 ++ [c], false) else ([], true)

/-- the word cannot become a directive, or cease to be one -/
def Fixed (w : Bytes × Bool) : Prop := w.2 = true ∨ Foreign w.1

theorem Fixed.glue (h : Fixed w) (c : UInt8) : Fixed (glue w c) ∧ isRemoteRules (glue w c).1 = isRemoteRules w.1 := by
  obtain ⟨word, done⟩ := w
  rw [RulesScan.glue]
  by_cases hc : isBlank c = true
  · rw [if_pos hc]
    refine ⟨?_, rfl⟩
    rcases h with hdone | hin
    · exact Or.inl (by simp [show done = true from hdone])
    · exact Or.inr hin
  · rw [if_neg hc]
    rcases h with hdone | hin
    · rw [if_pos hdone]
      exact ⟨Or.inl hdone, rfl⟩
    · split_ifs with hdone hroom
      · exact ⟨Or.inr hin, rfl⟩
      · have hin' : Foreign (word ++ [c]) := hin.of_prefix (List.prefix_append _ _)
        exact ⟨Or.inr hin', hin'.not_remote.trans hin.not_remote.symm⟩
      · exact ⟨Or.inl rfl, (not_remote_of_length (by decide)).trans hin.not_remote.symm⟩

theorem Fixed.fold (h : Fixed w) (l : Bytes) :
    Fixed (l.foldl RulesScan.glue w) ∧ isRemoteRules (l.foldl RulesScan.glue w).1 = isRemoteRules w.1 := by
  induction l generalizing w with
  | nil => exact ⟨h, rfl⟩
  | cons c l ih =>
    obtain ⟨hfixed, hsame⟩ := h.glue c
    obtain ⟨hfixed', hsame'⟩ := ih hfixed
    exact ⟨hfixed', hsame'.trans hsame⟩

/-- without the backslash that continues a word which is not complete -/
def unglue (w : Bytes × Bool) : Bytes × Bool := (if !w.2 && w.1.getLast? = some 0x5c then w.1.dropLast else w.1, w.2)

theorem Fixed.unglue (h : Fixed w) : Fixed (unglue w) ∧ isRemoteRules (unglue w).1 = isRemoteRules w.1 := by
  obtain ⟨word, done⟩ := w
  rw [RulesScan.unglue]
  split_ifs with hlast
  · rcases h with hdone | hin
    · rw [show done = true from hdone] at hlast
      exact absurd hlast (by simp)
    · have hlast' : word.getLast? = some 0x5c := by simpa using (Bool.and_eq_true_iff.1 hlast).2
      obtain ⟨m, rfl⟩ := List.getLast?_eq_some_iff.1 hlast'
      have hin' : Foreign m := Foreign.of_continued hin
      rw [List.dropLast_concat]
      exact ⟨Or.inr hin', hin'.not_remote.trans (Foreign.not_remote hin).symm⟩
  · exact ⟨h, rfl⟩

/-- no blank has come: the word is the record -/
structure Growing (text : Bytes) (w : Bytes × Bool) : Prop where
  word : w = (text, false)
  solid : Solid isBlank text
  fits : text.length ≤ wordSize

/-- the verdict on the record is the verdict on the word, whatever follows; a record that is cut is not refused -/
structure Settled (text : Bytes) (cut : Bool) (w : Bytes × Bool) : Prop where
  fixed : Fixed w
  verdict : ∀ more, (isRemoteRules (firstWord isBlank (text ++ more)) && !cut) = isRemoteRules w.1

theorem Settled.append (h : Settled text cut w) (t : Bytes) : Settled (text ++ t) cut w := by
  refine ⟨h.fixed, fun more => ?_⟩
  rw [List.append_assoc]
  exact h.verdict _

theorem Settled.fold (h : Settled text cut w) (l : Bytes) : Settled text cut (l.foldl glue w) := by
  obtain ⟨hfixed, hsame⟩ := h.fixed.fold l
  exact ⟨hfixed, fun more => (h.verdict more).trans hsame.symm⟩

theorem Settled.unglue (h : Settled text cut w) : Settled text cut (unglue w) := by
  obtain ⟨hfixed, hsame⟩ := h.fixed.unglue
  exact ⟨hfixed, fun more => (h.verdict more).trans hsame.symm⟩

/-- a settled record without a blank is not refused -/
theorem Settled.not_remote (h : Settled text cut w) (hsolid : Solid isBlank text) : isRemoteRules w.1 = false := by
  by_contra hyes
  rw [Bool.not_eq_false] at hyes
  have hnow := h.verdict []
  have hlater := h.verdict [0x7a]
  have hsolid' : Solid isBlank (text ++ [0x7a]) := hsolid.append fun x hx => by
    rw [List.mem_singleton.1 hx]
    decide
  rw [hyes, List.append_nil, firstWord_of_solid hsolid, Bool.and_eq_true, isRemoteRules, decide_eq_true_eq] at hnow
  rw [hyes, firstWord_of_solid hsolid', Bool.and_eq_true, isRemoteRules, decide_eq_true_eq] at hlater
  have hlength := congrArg List.length (hlater.1.trans hnow.1.symm)
  simp at hlength

/-- cutting the word of a settled record makes no difference where no blank has come -/
theorem Settled.cuts (h : Settled text cut w) {b : Bool} (hb : b = true → Solid isBlank text) :
    Settled text (cut || b) w := by
  cases b with
  | false => rwa [Bool.or_false]
  | true =>
    refine ⟨h.fixed, fun more => ?_⟩
    rw [h.not_remote (hb rfl), Bool.or_true, Bool.not_true, Bool.and_false]

theorem fold_done (word : Bytes) (l : Bytes) : l.foldl glue (word, true) = (word, true) := by
  induction l with
  | nil => rfl
  | cons c l ih =>
    have hstep : glue (word, true) c = (word, true) := by
      by_cases hc : isBlank c = true
      · rw [glue, if_pos hc]
        rfl
      · rw [glue, if_neg hc, if_pos rfl]
    rw [List.foldl_cons, hstep, ih]

/-- bytes without a blank, behind a word that is not complete -/
theorem fold_solid {l : Bytes} (hl : Solid isBlank l) (hfits : text.length ≤ wordSize) : l.foldl glue (text, false) =
    if (text ++ l).length ≤ wordSize then (text ++ l, false) else ([], true) := by
  induction l generalizing text with
  | nil => simp [hfits]
  | cons c l ih =>
    have hc : isBlank c = false := hl c List.mem_cons_self
    have hl' : Solid isBlank l := fun x hx => hl x (List.mem_cons_of_mem c hx)
    rw [List.foldl_cons, glue, if_neg (by simp [hc]), if_neg Bool.false_ne_true]
    split_ifs with hroom hwhole hwhole
    · rw [ih hl' (by rw [List.length_append]; exact hroom), List.append_assoc]
      exact if_pos hwhole
    · rw [ih hl' (by rw [List.length_append]; exact hroom), List.append_assoc]
      exact if_neg hwhole
    · rw [List.length_append, List.length_cons] at hwhole
      exact absurd hroom (by dsimp only; omega)
    · exact fold_done _ _

theorem Settled.long (hsolid : Solid isBlank text) (hlong : wordSize ≤ text.length) (cut : Bool) (l : Bytes) :
    Settled (text ++ l) cut ([], true) := by
  refine ⟨Or.inl rfl, fun more => ?_⟩
  rw [List.append_assoc, not_remote_of_long hsolid hlong, not_remote_of_length (by decide)]
  rfl

/-- **More bytes.** A record that is growing goes on growing, or is settled. -/
theorem Growing.fold (h : Growing text w) (l : Bytes) (hstart : ∀ x m, text ++ l = x :: m → isBlank x = false) :
    Growing (text ++ l) (l.foldl glue w) ∨ Settled (text ++ l) false (l.foldl glue w) := by
  rw [h.word]
  rcases solid_or_split isBlank l with hsolid | ⟨v, x, m, rfl, hv, hx⟩
  · rw [fold_solid hsolid h.fits]
    split_ifs with hfits
    · exact Or.inl ⟨rfl, h.solid.append hsolid, hfits⟩
    · right
      have hlong := Settled.long (h.solid.append hsolid) (Nat.le_of_lt (Nat.lt_of_not_le hfits)) false []
      rwa [List.append_nil] at hlong
  · right
    have hword : Solid isBlank (text ++ v) := h.solid.append hv
    have hne : text ++ v ≠ [] := by
      intro hnil
      have hfirst := hstart x m (by rw [← List.append_assoc, hnil]; rfl)
      exact absurd (hx.symm.trans hfirst) nofun
    rw [List.foldl_append, fold_solid hv h.fits, ← List.append_assoc]
    split_ifs with hfits
    · have hclosed : glue (text ++ v, false) x = (text ++ v, true) := by
        rw [glue, if_pos hx]
        exact congrArg (Prod.mk _) (decide_eq_true hne)
      rw [List.foldl_cons, hclosed, fold_done]
      refine ⟨Or.inl rfl, fun more => ?_⟩
      rw [List.append_assoc, List.cons_append, firstWord_append_blank hword hne hx, Bool.not_false, Bool.and_true]
    · rw [fold_done]
      exact Settled.long hword (Nat.le_of_lt (Nat.lt_of_not_le hfits)) false (x :: m)

/-- one more byte: it is taken, or there is no room for it -/
theorem Growing.byte (h : Growing text w) (hc : isBlank c = false) :
    glue w c = (text ++ [c], false) ∨ (glue w c = ([], true) ∧ wordSize ≤ text.length) := by
  rw [h.word, glue, if_neg (by simp [hc]), if_neg Bool.false_ne_true]
  by_cases hroom : text.length < wordSize
  · exact Or.inl (if_pos hroom)
  · exact Or.inr ⟨if_neg hroom, Nat.le_of_not_lt hroom⟩

/-- **A byte of no directive's name.** It settles the record: it stays in the word, or there is no room for it. -/
theorem Growing.foreign (h : Growing text w) (hblank : isBlank c = false) (hc : c = 0x60 ∨ c = 0) :
    Settled (text ++ [c]) false (glue w c) := by
  rcases h.byte hblank with hbyte | ⟨hbyte, hlong⟩
  · rw [hbyte]
    have hsolid : Solid isBlank (text ++ [c]) := h.solid.append fun x hx => by
      rw [List.mem_singleton.1 hx]
      exact hblank
    have hin : Foreign (text ++ [c]) := ⟨c, by simp, hc⟩
    refine ⟨Or.inr hin, fun more => ?_⟩
    rw [hin.not_remote, (hin.of_prefix (prefix_firstWord hsolid more)).not_remote]
    rfl
  · rw [hbyte]
    exact Settled.long h.solid hlong false [c]

/-! ## The word, behind a line -/

/-- the record begins with a byte that is not blank -/
theorem Growing.start {t₀ : Bytes} (h : Growing text w) (ht : ∀ x m, t = x :: m → isBlank x = false) (hpre : t₀ <+: t) :
    ∀ x m, text ++ t₀ = x :: m → isBlank x = false := by
  intro x m hx
  cases text with
  | nil =>
    obtain ⟨rest, rfl⟩ := hpre
    have hx' : t₀ = x :: m := hx
    exact ht x (m ++ rest) (by rw [hx']; rfl)
  | cons y text =>
    have hin : x ∈ y :: text := by
      rw [List.cons_append] at hx
      rw [(List.cons.inj hx).1]
      exact List.mem_cons_self
    exact h.solid x hin

/-- blanks leave the word as it is -/
theorem fold_blank (w : Bytes × Bool) (htrail : ∀ x ∈ trail, isBlank x = true) : (trail.foldl glue w).1 = w.1 := by
  induction trail generalizing w with
  | nil => rfl
  | cons c trail ih =>
    obtain ⟨hc, htrail⟩ := List.forall_mem_cons.1 htrail
    rw [List.foldl_cons, ih _ htrail, glue, if_pos hc]

/-- the record in hand, as the word tells of it -/
def WordSim (p : Pending) (w : Bytes × Bool) : Prop :=
  (Growing p.text w ∧ p.inList = false ∧ p.cut = false) ∨ Settled p.text p.cut w

/-- **A line that completes the record.** -/
theorem WordSim.completed {p : Pending} (h : WordSim p w) (ht : ∀ x m, t = x :: m → isBlank x = false)
    (htrail : ∀ x ∈ trail, isBlank x = true) : isRemoteRules ((t ++ trail).foldl glue w).1 =
      (isRemoteRules (firstWord isBlank (p.text ++ t)) && !p.cut) := by
  rcases h with ⟨hgrow, -, hcut⟩ | hsettled
  · rw [List.foldl_append, fold_blank _ htrail, hcut, Bool.not_false, Bool.and_true]
    rcases hgrow.fold t (hgrow.start ht (List.prefix_refl t)) with hgrow' | hsettled
    · rw [hgrow'.word, firstWord_of_solid hgrow'.solid]
    · have hverdict := hsettled.verdict []
      rw [List.append_nil, Bool.not_false, Bool.and_true] at hverdict
      exact hverdict.symm
  · exact ((hsettled.fold (t ++ trail)).verdict t).symm

theorem fold_concat (w : Bytes × Bool) (l : Bytes) (c : UInt8) (trail : Bytes) :
    (l ++ [c] ++ trail).foldl glue w = trail.foldl glue (glue (l.foldl glue w) c) := by
  rw [List.foldl_append, List.foldl_append, List.foldl_cons, List.foldl_nil]

/-- **A line behind which a list is open.** -/
theorem WordSim.listed {p : Pending} (h : WordSim p w) (ht : ∀ x m, t = x :: m → isBlank x = false)
    (hlist : p.inList = true ∨ t.getLast? = some 0x60) (sep trail : Bytes) :
    Settled (p.text ++ t ++ sep) p.cut ((t ++ trail).foldl glue w) := by
  rcases h with ⟨hgrow, hno, hcut⟩ | hsettled
  · obtain ⟨t₀, rfl⟩ := List.getLast?_eq_some_iff.1 (hlist.resolve_left (by simp [hno]))
    rw [hcut, fold_concat, ← List.append_assoc]
    rcases hgrow.fold t₀ (hgrow.start ht (List.prefix_append _ _)) with hgrow' | hsettled
    · exact ((hgrow'.foreign (by decide) (Or.inl rfl)).fold trail).append sep
    · exact ((hsettled.fold ([0x60] ++ trail)).append [0x60]).append sep
  · exact ((hsettled.fold (t ++ trail)).append t).append sep

/-- the backslash behind a record that is growing: it leaves the word, or blanks close the word behind it -/
theorem Growing.backslash (h : Growing text w) (htrail : ∀ x ∈ trail, isBlank x = true) (start : Option ℕ) :
    WordSim ⟨start, text, false, !trail.isEmpty⟩ (unglue (trail.foldl glue (glue w 0x5c))) := by
  rcases h.byte (c := 0x5c) (by decide) with hbyte | ⟨hbyte, hlong⟩
  · rw [hbyte]
    cases trail with
    | nil =>
      left
      have hword : unglue (text ++ [0x5c], false) = (text, false) := by simp [unglue]
      exact ⟨⟨hword, h.solid, h.fits⟩, rfl, rfl⟩
    | cons b trail =>
      right
      have hclosed : glue (text ++ [0x5c], false) b = (text ++ [0x5c], true) := by
        rw [glue, if_pos (htrail b List.mem_cons_self)]
        exact congrArg (Prod.mk _) (decide_eq_true (by simp))
      have hword : unglue (text ++ [0x5c], true) = (text ++ [0x5c], true) := by simp [unglue]
      rw [List.foldl_cons, hclosed, fold_done, hword]
      have hno : isRemoteRules (text ++ [0x5c]) = false := not_remote_of_backslash (by simp)
      exact ⟨Or.inl rfl, fun more => (Bool.and_false _).trans hno.symm⟩
  · right
    rw [hbyte, fold_done]
    have hlong' := Settled.long h.solid hlong (!trail.isEmpty) []
    rw [List.append_nil] at hlong'
    exact hlong'

/-- **A line that goes on.** The backslash leaves the word, unless blanks have closed it behind the backslash. -/
theorem WordSim.continued {p : Pending} (h : WordSim p w) (ht : ∀ x m, t = x :: m → isBlank x = false) {t₀ : Bytes}
    (hlast : t = t₀ ++ [0x5c]) (htrail : ∀ x ∈ trail, isBlank x = true) (start : Option ℕ) {cuts : Bool}
    (hcuts : cuts = ((p.text ++ t).all (fun c => !isBlank c) && !trail.isEmpty)) :
    WordSim ⟨start, p.text ++ t₀, false, p.cut || cuts⟩ (unglue ((t ++ trail).foldl glue w)) := by
  have hsolid_of_cuts : cuts = true → Solid isBlank (p.text ++ t₀) := by
    intro hc
    rw [hcuts, Bool.and_eq_true, List.all_eq_true, hlast, ← List.append_assoc] at hc
    intro x hx
    simpa using hc.1 x (List.mem_append_left _ hx)
  rcases h with ⟨hgrow, -, hcut⟩ | hsettled
  · rw [hlast, fold_concat]
    have hpre : t₀ <+: t := ⟨[0x5c], hlast.symm⟩
    have hstart := hgrow.start ht hpre
    rcases hgrow.fold t₀ hstart with hgrow' | hsettled
    · have hall : (p.text ++ t).all (fun c => !isBlank c) = true := by
        rw [List.all_eq_true, hlast, ← List.append_assoc]
        intro x hx
        rcases List.mem_append.1 hx with hx | hx
        · simp [hgrow'.solid x hx]
        · rw [List.mem_singleton.1 hx]
          decide
      rw [hcut, hcuts, hall, Bool.false_or, Bool.true_and]
      exact hgrow'.backslash htrail start
    · right
      have hend := ((hsettled.fold ([0x5c] ++ trail)).unglue).cuts hsolid_of_cuts
      rw [hcut]
      exact hend
  · right
    exact (((hsettled.fold (t ++ trail)).unglue).append t₀).cuts hsolid_of_cuts

/-- **A byte NUL.** It settles the record. -/
theorem WordSim.nul {p : Pending} (h : WordSim p w) : Settled (p.text ++ [0]) p.cut (glue w 0) := by
  rcases h with ⟨hgrow, -, hcut⟩ | hsettled
  · rw [hcut]
    exact hgrow.foreign (by decide) (Or.inr rfl)
  · exact (hsettled.fold [0]).append [0]

end CorazaNginx.RulesScan
