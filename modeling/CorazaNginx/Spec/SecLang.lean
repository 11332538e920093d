/-
SecLang text as the engine's parser reads it: physical lines, trimmed, assembled into records.

A line that is blank or a comment is ignored. A line that ends in a backtick opens an action list, which runs until a
line that starts with one; a line that ends in a backslash, outside a list, goes on in the next line, without the
backslash; any other line completes the record. `records` lists the completed records, and the one that an open list
leaves at the end of the text; a record that a backslash leaves there is never read. `refuses` is the line on which the
first record that is refused starts. This is what the text means, line by line; the scan of `Model.RulesScan` goes byte
by byte.
-/
import Mathlib.Tactic
import CorazaNginx.Core.Words
import CorazaNginx.Model.RulesScan

namespace CorazaNginx.SecLang

open CorazaNginx.Core RulesScan

/-- a record that is being assembled -/
structure Pending where
  /-- the line it starts on; `none` when no line has been read of it -/
  start : Option ℕ := none
  text : Bytes := []
  inList : Bool := false
  cut : Bool := false

/-- a record, the line it starts on, and whether a line of it goes on within its first word although blanks stand behind
the backslash -/
structure Record where
  start : ℕ
  text : Bytes
  cut : Bool

/-- the line ends in blanks, behind the first word of the record or within it -/
def cutsWord (text line : Bytes) : Bool :=
  (text ++ trim isBlank line).all (fun c => !isBlank c) && line.getLast?.any isBlank

/-- a list is open behind the trimmed line `t` -/
def listBehind (inList : Bool) (t : Bytes) : Bool := if inList then t.head? ≠ some 0x60 else t.getLast? = some 0x60

/-- line `n`: the record goes on, or it is complete; `sep` stands behind each line of a list -/
def Pending.step (sep : Bytes) (p : Pending) (n : ℕ) (line : Bytes) : Pending ⊕ Record :=
  let t := trim isBlank line
  if t = [] ∨ t.head? = some 0x23 then .inl p
  else if listBehind p.inList t = true then .inl ⟨some (p.start.getD n), p.text ++ t ++ sep, true, p.cut⟩
  else if t.getLast? = some 0x5c then
    .inl ⟨some (p.start.getD n), p.text ++ t.dropLast, false, p.cut || cutsWord p.text line⟩
  else .inr ⟨p.start.getD n, p.text ++ t, p.cut⟩

/-- the records of the lines from `n` on -/
def records (sep : Bytes) (p : Pending) (n : ℕ) : List Bytes → List Record
  | [] => if p.inList then [⟨p.start.getD n, p.text, p.cut⟩] else []
  | line :: lines =>
    match p.step sep n line with
    | .inl p => records sep p (n + 1) lines
    | .inr rec => rec :: records sep {} (n + 1) lines

/-- the word is SecRemoteRules, in upper or lower case -/
def isRemoteRules (word : Bytes) : Bool := word.map lower = (ascii "SecRemoteRules").map lower

/-- the record is refused -/
def Record.refused (rec : Record) : Bool := isRemoteRules (firstWord isBlank rec.text)

/-- the records of a text -/
def recordsOf (sep text : Bytes) : List Record := records sep {} 1 (text.splitOn 0x0a)

/-- the line on which the first record that is refused starts -/
def refuses (sep text : Bytes) : Option ℕ := ((recordsOf sep text).find? Record.refused).map Record.start

/-! ## The lines of the records -/

theorem start_of_step {sep line : Bytes} {p : Pending} {n : ℕ} {rec : Record} (h : p.step sep n line = .inr rec) :
    rec.start = p.start.getD n := by
  simp only [Pending.step] at h
  split_ifs at h
  injection h with h
  rw [← h]

theorem start_of_goes_on {sep line : Bytes} {p p' : Pending} {n : ℕ} (h : p.step sep n line = .inl p')
    (hp : p.start.getD n ≤ n) : p'.start.getD (n + 1) ≤ n + 1 := by
  simp only [Pending.step] at h
  split_ifs at h <;> injection h with h <;> rw [← h]
  · cases hs : p.start with
    | none => exact Nat.le_refl _
    | some k =>
      rw [hs, Option.getD_some] at hp
      exact Nat.le_succ_of_le hp
  · exact Nat.le_succ_of_le hp
  · exact Nat.le_succ_of_le hp

end CorazaNginx.SecLang
