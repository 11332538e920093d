/-
The scan of SecLang text, byte by byte: what it makes of a text does not depend on how the text is cut.

A scan carries its whole state from one chunk to the next, so it goes through two texts as it goes through their
concatenation (`scan_append`), and any number of chunks comes to the same as one (`scanChunks_flatten`). `Reached` is
every state that a scan can be in; in each the word fits into its buffer.
-/
import Mathlib.Tactic
import CorazaNginx.Model.Config

namespace CorazaNginx.RulesScan

open Config

variable {s : RulesScan} {p q : Bytes}

/-! ## The end of a line -/

/-- an action list is open behind the line -/
def ticks (s : RulesScan) : Bool :=
  if !s.inBackticks && s.last = 0x60 then true else if s.inBackticks && s.first = 0x60 then false else s.inBackticks

/-- the word, without the backslash that continues it -/
def glued (s : RulesScan) : Bytes :=
  if !s.ticks && s.last = 0x5c && !s.wordDone && s.word.getLast? = some 0x5c then s.word.dropLast else s.word

theorem eol_ignored (h : s.first = 0 ∨ s.first = 0x23) : s.eol = (none, { s with first := 0, last := 0 }) := by
  rw [eol, if_pos h]

theorem eol_text (h : ¬ (s.first = 0 ∨ s.first = 0x23)) : s.eol =
    if s.ticks || s.last = 0x5c then (none, { s with inBackticks := s.ticks, word := s.glued, first := 0, last := 0 })
    else (scanWord { s with inBackticks := s.ticks, word := s.glued, first := 0, last := 0 },
      { s with inBackticks := s.ticks, word := [], first := 0, last := 0, inRecord := false, wordDone := false }) := by
  rw [eol, if_neg h]
  rfl

/-! ## Chunks -/

/-- the outcome of a scan, and what follows when nothing has been refused -/
def andThen (r : Option Bytes × RulesScan) (k : RulesScan → Option Bytes × RulesScan) : Option Bytes × RulesScan :=
  match r with
  | (some bad, s) => (some bad, s)
  | (none, s) => k s

theorem scan_newline (s : RulesScan) (p : Bytes) :
    s.scan (0x0a :: p) = andThen s.eol fun s => scan { s with line := s.line + 1 } p := by
  rw [scan, if_pos rfl]
  rfl

/-- **A text in two parts.** -/
theorem scan_append (s : RulesScan) (p q : Bytes) : s.scan (p ++ q) = andThen (s.scan p) fun s => s.scan q := by
  induction p generalizing s with
  | nil => rfl
  | cons c p ih =>
    rw [List.cons_append]
    by_cases hc : c = 0x0a
    · subst hc
      rw [scan_newline, scan_newline]
      rcases s.eol with ⟨_ | bad, s'⟩
      · exact ih _
      · rfl
    · rw [scan, if_neg hc, scan, if_neg hc]
      split_ifs
      · exact ih _
      · exact ih _
      · exact ih _

theorem scanChunks_cons (s : RulesScan) (atEnd : Bool) (p : Bytes) (chunks : List Bytes) :
    s.scanChunks atEnd (p :: chunks) = andThen (s.scan p) fun s => s.scanChunks atEnd chunks := rfl

/-- **Any number of chunks.** -/
theorem scanChunks_flatten (s : RulesScan) (atEnd : Bool) (chunks : List Bytes) :
    s.scanChunks atEnd chunks = s.scanChunks atEnd [chunks.flatten] := by
  induction chunks generalizing s with
  | nil => rfl
  | cons p chunks ih =>
    rw [scanChunks_cons, List.flatten_cons, scanChunks_cons, scan_append]
    rcases s.scan p with ⟨_ | bad, s'⟩
    · exact ih s'
    · rfl

/-! ## The word -/

theorem length_scanByte (c : UInt8) (h : s.word.length ≤ wordSize) : (s.scanByte c).word.length ≤ wordSize := by
  have hword : ∀ u : RulesScan, u.word = s.word →
      (if u.first = 0x23 ∨ u.wordDone = true then u
        else if u.word.length < wordSize then { u with word := u.word ++ [c] }
        else { u with word := [], wordDone := true }).word.length ≤ wordSize := by
    intro u hu
    split_ifs with hskip hroom
    · rw [hu]
      exact h
    · rw [List.length_append]
      exact hroom
    · exact Nat.zero_le _
  rw [scanByte]
  apply hword
  split_ifs <;> rfl

theorem length_eol (h : s.word.length ≤ wordSize) : s.eol.2.word.length ≤ wordSize := by
  by_cases hignored : s.first = 0 ∨ s.first = 0x23
  · rw [eol_ignored hignored]
    exact h
  · rw [eol_text hignored]
    have hglued : s.glued.length ≤ wordSize := by
      rw [glued]
      split_ifs
      · rw [List.length_dropLast]
        omega
      · exact h
    split_ifs
    · exact hglued
    · exact Nat.zero_le _

theorem length_scan (p : Bytes) (h : s.word.length ≤ wordSize) : (s.scan p).2.word.length ≤ wordSize := by
  induction p generalizing s with
  | nil => exact h
  | cons c p ih =>
    by_cases hc : c = 0x0a
    · subst hc
      rw [scan_newline]
      have heol := length_eol h
      rcases heq : s.eol with ⟨_ | bad, s'⟩
      · rw [heq] at heol
        exact ih (s := { s' with line := s'.line + 1 }) heol
      · rw [heq] at heol
        exact heol
    · rw [scan, if_neg hc]
      split_ifs
      · exact ih h
      · exact ih h
      · exact ih (length_scanByte c h)

theorem length_done (h : s.word.length ≤ wordSize) : s.done.2.word.length ≤ wordSize := by
  have heol := length_eol h
  rw [done]
  rcases heq : s.eol with ⟨_ | bad, s'⟩
  · rw [heq] at heol
    exact heol
  · rw [heq] at heol
    exact heol

/-- the states a scan can be in, between any two bytes and behind its end -/
inductive Reached : RulesScan → Prop where
  | init : Reached {}
  | scan {s : RulesScan} (h : Reached s) (p : Bytes) : Reached (s.scan p).2
  | done {s : RulesScan} (h : Reached s) : Reached s.done.2

theorem Reached.length_word (h : Reached s) : s.word.length ≤ wordSize := by
  induction h with
  | init => exact Nat.zero_le _
  | scan _ p ih => exact length_scan p ih
  | done _ ih => exact length_done ih

/-! ## A file and a text -/

/-- **However the text is read.** Two ways of cutting a text into chunks come to the same verdict, with the same
directive and the same line; a rules file that is read to its end is judged as the same text given inline; and the word
never outgrows its buffer. -/
theorem scan_independent_of_chunks (chunks chunks' : List Bytes) (h : chunks.flatten = chunks'.flatten) :
    scanChunks {} true chunks = scanChunks {} true chunks' ∧
      (∀ (e : Config.Env) (path full : Bytes), e.fullName path = some full → e.file full = some ⟨chunks, true⟩ →
        checkRulesFile e path = if refusesText chunks'.flatten then none else some full) ∧
      ∀ s, Reached s → s.word.length ≤ wordSize := by
  have hsame : scanChunks {} true chunks = scanChunks {} true chunks' := by
    rw [scanChunks_flatten, h, ← scanChunks_flatten]
  refine ⟨hsame, fun e path full hname hfile => ?_, fun s hs => hs.length_word⟩
  rw [checkRulesFile, hname]
  dsimp only
  rw [hfile]
  dsimp only
  rw [scanChunks_flatten, h, refusesText]

/-- a directive cut in two, in a file and in one piece -/
theorem scan_independent_of_chunks_split :
    scanChunks {} true [ascii "# x\nSecRemote", ascii "Rules y"] = (some (ascii "SecRemoteRules"),
      (scanChunks {} true [ascii "# x\nSecRemoteRules y"]).2) ∧
      (scanChunks {} true [ascii "# x\nSecRemote", ascii "Rules y"]).2.recLine = 2 := by
  have hflat : [ascii "# x\nSecRemote", ascii "Rules y"].flatten = [ascii "# x\nSecRemoteRules y"].flatten := by
    decide +kernel
  have hsame := (scan_independent_of_chunks _ _ hflat).1
  rw [hsame]
  decide +kernel

end CorazaNginx.RulesScan
