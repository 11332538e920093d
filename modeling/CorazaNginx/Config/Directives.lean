/-
The scan against the grammar it mirrors.

`readLine` is what the scan does with the bytes of one line, `scanLines` what it does with a text, line by line
(`scanChunks_lines`). `Sim` ties the scan's state at the start of a line to the record in hand, and `line_step` takes it
through one line. Two things come out differently. Blanks behind the backslash of a line that goes on within the first
word close the word, and the backslash stays in it: a record is cut (`Record.cut`). And NUL stands for a line of which
no byte has come yet, so the scan may take a line that begins with NUL for another line than it is (`misread`).
`scan_exact_iff` is about the texts in which no line is misread up to the first record that is refused (`legible`):
there the scan refuses what the grammar refuses exactly when that record is not cut. What stands behind it makes no
difference, since a refusal behind it names a later line (`Later`).
-/
import Mathlib.Tactic
import CorazaNginx.Config.FirstWord

namespace CorazaNginx.RulesScan

open CorazaNginx.Core SecLang

variable {s : RulesScan} {line t lead trail text more : Bytes} {w : Bytes × Bool} {c d : UInt8} {cut : Bool}
  {p : Pending} {n : ℕ}

/-! ## Lines -/

/-- one byte of a line -/
def readByte (s : RulesScan) (c : UInt8) : RulesScan :=
  if isBlank c then (if s.first ≠ 0 ∧ s.first ≠ 0x23 ∧ s.word ≠ [] then { s with wordDone := true } else s)
  else s.scanByte c

def readLine (s : RulesScan) (line : Bytes) : RulesScan := line.foldl readByte s

/-- at the start of the next line -/
def nextLine (s : RulesScan) : RulesScan := { s with line := s.line + 1 }

/-- the lines of a text, and its end -/
def scanLines (s : RulesScan) : List Bytes → Option Bytes × RulesScan
  | [] => (if s.inBackticks then s.scanWord else none, s)
  | line :: lines => andThen (s.readLine line).eol fun s => scanLines s.nextLine lines

/-- the line that a refusal names -/
def verdict : Option Bytes × RulesScan → Option ℕ
  | (some _, s) => some s.recLine
  | (none, _) => none

/-- **A text is its lines.** -/
theorem scanChunks_lines (s : RulesScan) (text : Bytes) :
    verdict (s.scanChunks true [text]) = verdict (s.scanLines (text.splitOn 0x0a)) := by
  change verdict (andThen (s.scan text) done) = _
  induction text generalizing s with
  | nil =>
    change verdict s.done = verdict (andThen s.eol fun s => s.nextLine.scanLines [])
    rw [done]
    rcases s.eol with ⟨_ | bad, s'⟩
    · change verdict (if s'.inBackticks then s'.scanWord else none, s') =
        verdict (if s'.inBackticks then s'.scanWord else none, s'.nextLine)
      rcases (if s'.inBackticks then s'.scanWord else none) with _ | bad <;> rfl
    · rfl
  | cons c text ih =>
    obtain ⟨line, lines, hsplit⟩ := List.exists_cons_of_ne_nil (List.splitOn_ne_nil 0x0a text)
    by_cases hc : c = 0x0a
    · subst hc
      have hlines : (0x0a :: text : Bytes).splitOn 0x0a = [] :: text.splitOn 0x0a := by
        rw [List.splitOn_eq_splitOnP, List.splitOnP_cons_eq_if_modifyHead, if_pos (by decide),
          ← List.splitOn_eq_splitOnP]
      rw [hlines, scan_newline]
      change _ = verdict (andThen s.eol fun s => s.nextLine.scanLines (text.splitOn 0x0a))
      rcases s.eol with ⟨_ | bad, s'⟩
      · exact ih _
      · rfl
    · have hlines : (c :: text).splitOn 0x0a = (c :: line) :: lines := by
        rw [List.splitOn_eq_splitOnP, List.splitOnP_cons_eq_if_modifyHead, if_neg (by simpa using hc),
          ← List.splitOn_eq_splitOnP, hsplit]
        rfl
      have hbyte : s.scanLines ((c :: line) :: lines) = (s.readByte c).scanLines (line :: lines) := rfl
      rw [hlines, hbyte, ← hsplit, ← ih, scan, if_neg hc, readByte]
      split_ifs <;> rfl

/-! ## What a line does to the state -/

theorem readLine_append (s : RulesScan) (l m : Bytes) : s.readLine (l ++ m) = (s.readLine l).readLine m :=
  List.foldl_append

/-- blanks at the start of a line -/
theorem readLine_lead (h0 : s.first = 0) (hlead : ∀ x ∈ lead, isBlank x = true) : s.readLine lead = s := by
  induction lead with
  | nil => rfl
  | cons c lead ih =>
    obtain ⟨hc, hlead⟩ := List.forall_mem_cons.1 hlead
    have hbyte : s.readByte c = s := by
      rw [readByte, if_pos hc, if_neg fun h => h.1 h0]
    rw [readLine, List.foldl_cons, hbyte]
    exact ih hlead

/-- the last byte that is not blank -/
def lastText (a : UInt8) (l : Bytes) : UInt8 := l.foldl (fun a c => if isBlank c then a else c) a

theorem lastText_concat (a : UInt8) (l : Bytes) (hc : isBlank c = false) (htrail : ∀ x ∈ trail, isBlank x = true) :
    lastText a (l ++ [c] ++ trail) = c := by
  have hblank : ∀ b, lastText b trail = b := by
    intro b
    induction trail with
    | nil => rfl
    | cons x trail ih =>
      obtain ⟨hx, htrail⟩ := List.forall_mem_cons.1 htrail
      rw [lastText, List.foldl_cons, if_pos hx]
      exact ih htrail
  have hsplit : lastText a (l ++ [c] ++ trail) = lastText (lastText a (l ++ [c])) trail := List.foldl_append
  rw [hsplit, hblank, lastText, List.foldl_append, List.foldl_cons, List.foldl_nil, if_neg (by simp [hc])]

/-- in a line whose first byte is `c` and whose last is `d`, with the word `w` behind it -/
def behind (s : RulesScan) (c d : UInt8) (w : Bytes × Bool) : RulesScan :=
  { s with
    first := c
    last := d
    inRecord := true
    recLine := if s.inRecord then s.recLine else s.line
    word := w.1
    wordDone := w.2 }

/-- a byte behind the first one of a text line -/
theorem readByte_text (h0 : c ≠ 0) (hc : c ≠ 0x23) (x : UInt8) :
    (s.behind c d w).readByte x = s.behind c (if isBlank x then d else x) (glue w x) := by
  obtain ⟨word, wordDone⟩ := w
  by_cases hx : isBlank x = true
  · by_cases hw : word = []
    · simp [readByte, behind, glue, hx, hw]
    · simp [readByte, behind, glue, hx, hw, h0, hc]
  · cases wordDone with
    | true => simp [readByte, scanByte, behind, glue, hx, h0]
    | false =>
      by_cases hroom : word.length < wordSize
      · simp [readByte, scanByte, behind, glue, hx, h0, hc, hroom]
      · simp [readByte, scanByte, behind, glue, hx, h0, hc, hroom]

theorem readLine_rest (h0 : c ≠ 0) (hc : c ≠ 0x23) (l : Bytes) :
    (s.behind c d w).readLine l = s.behind c (lastText d l) (l.foldl glue w) := by
  induction l generalizing d w with
  | nil => rfl
  | cons x l ih =>
    have hstep : (s.behind c d w).readLine (x :: l) = ((s.behind c d w).readByte x).readLine l := rfl
    rw [hstep, readByte_text h0 hc, ih]
    rfl

/-- the first byte of a text line -/
theorem readByte_first (h0 : s.first = 0) (hblank : isBlank c = false) (hc : c ≠ 0x23) :
    s.readByte c = s.behind c c (glue (s.word, s.wordDone) c) := by
  obtain ⟨line, recLine, inRecord, inBackticks, wordDone, first, last, word⟩ := s
  have h0' : first = 0 := h0
  by_cases hroom : word.length < wordSize
  · cases inRecord <;> cases wordDone <;> simp [readByte, scanByte, behind, glue, hblank, hc, h0', hroom]
  · cases inRecord <;> cases wordDone <;> simp [readByte, scanByte, behind, glue, hblank, hc, h0', hroom]

/-- **A text line.** -/
theorem readLine_text (h0 : s.first = 0) (hlead : ∀ x ∈ lead, isBlank x = true)
    (htrail : ∀ x ∈ trail, isBlank x = true) (ht : t = c :: more) (hlast : t.getLast? = some d)
    (hblank : isBlank c = false) (hd : isBlank d = false) (hnul : c ≠ 0) (hc : c ≠ 0x23) :
    s.readLine (lead ++ t ++ trail) = s.behind c d ((t ++ trail).foldl glue (s.word, s.wordDone)) := by
  obtain ⟨m, hm⟩ := List.getLast?_eq_some_iff.1 hlast
  have hbytes : s.readLine (lead ++ t ++ trail) = (s.readByte c).readLine (more ++ trail) := by
    rw [List.append_assoc, readLine_append, readLine_lead h0 hlead, ht]
    rfl
  have hlastText : lastText c (more ++ trail) = d := by
    have hwhole := lastText_concat 0 m hd htrail
    rw [← hm, ht, List.cons_append, lastText, List.foldl_cons, if_neg (by simp [hblank])] at hwhole
    exact hwhole
  rw [hbytes, readByte_first h0 hblank hc, readLine_rest hnul hc, hlastText, ht]
  rfl

/-- a comment -/
theorem readLine_comment (h0 : s.first = 0) (hlead : ∀ x ∈ lead, isBlank x = true) (l : Bytes) :
    ∃ y, s.readLine (lead ++ 0x23 :: l) = { s with first := 0x23, last := y } := by
  have hrest : ∀ (u : RulesScan), u.first = 0x23 → ∃ y, u.readLine l = { u with last := y } := by
    induction l with
    | nil => exact fun u _ => ⟨u.last, rfl⟩
    | cons x l ih =>
      intro u hu
      by_cases hx : isBlank x = true
      · have hbyte : u.readByte x = u := by
          rw [readByte, if_pos hx, if_neg fun h => h.2.1 hu]
        rw [readLine, List.foldl_cons, hbyte]
        exact ih u hu
      · have hbyte : u.readByte x = { u with last := x } := by
          simp [readByte, scanByte, hx, hu]
        rw [readLine, List.foldl_cons, hbyte]
        exact ih { u with last := x } hu
  have hfirst : s.readByte 0x23 = { s with first := 0x23, last := 0x23 } := by
    rw [readByte, if_neg (by decide), scanByte, if_pos h0]
    simp
  rw [readLine_append, readLine_lead h0 hlead, readLine, List.foldl_cons, hfirst]
  exact hrest _ rfl

/-- the first byte of a line that is neither blank nor NUL, or NUL -/
def scanFirst (line : Bytes) : UInt8 := (line.find? fun c => !isBlank c && c ≠ 0).getD 0

theorem scanFirst_cons (x : UInt8) (l : Bytes) :
    scanFirst (x :: l) = if isBlank x = false ∧ x ≠ 0 then x else scanFirst l := by
  rw [scanFirst]
  split_ifs with hx
  · rw [List.find?_cons_of_pos (by simp [hx]), Option.getD_some]
  · rw [List.find?_cons_of_neg (by simpa using hx), scanFirst]

theorem scanFirst_lead (hlead : ∀ x ∈ lead, isBlank x = true) (l : Bytes) : scanFirst (lead ++ l) = scanFirst l := by
  induction lead with
  | nil => rfl
  | cons x lead ih =>
    obtain ⟨hx, hlead⟩ := List.forall_mem_cons.1 hlead
    rw [List.cons_append, scanFirst_cons, if_neg (by simp [hx])]
    exact ih hlead

/-- a byte behind a NUL at the start of a line: it goes into the word or not -/
theorem readByte_nul (x : UInt8) : ∃ w', (w' = w ∨ w' = glue w x) ∧ (s.behind c d w).readByte x =
    s.behind (if c = 0 ∧ isBlank x = false then x else c) (if isBlank x then d else x) w' := by
  obtain ⟨word, wordDone⟩ := w
  by_cases hx : isBlank x = true
  · by_cases hclose : c ≠ 0 ∧ c ≠ 0x23 ∧ word ≠ []
    · refine ⟨_, Or.inr rfl, ?_⟩
      simp [readByte, behind, glue, hx, hclose]
    · refine ⟨_, Or.inl rfl, ?_⟩
      have hsame : (s.behind c d (word, wordDone)).readByte x = s.behind c d (word, wordDone) := by
        rw [readByte, if_pos hx]
        exact if_neg hclose
      rw [hsame]
      simp [hx]
  · rw [Bool.not_eq_true] at hx
    rw [readByte, if_neg (by simp [hx])]
    by_cases hskip : (if c = 0 then x else c) = 0x23 ∨ wordDone = true
    · refine ⟨_, Or.inl rfl, ?_⟩
      by_cases h0 : c = 0 <;> simp_all [scanByte, behind]
    · refine ⟨_, Or.inr rfl, ?_⟩
      by_cases h0 : c = 0 <;> simp_all [scanByte, behind, glue] <;> split_ifs <;> rfl

/-- the word of a settled record, whatever of the line goes into it -/
theorem readLine_nul (h : Settled text cut w) (l : Bytes) : ∃ w', Settled text cut w' ∧
    (s.behind c d w).readLine l = s.behind (if c = 0 then scanFirst l else c) (lastText d l) w' := by
  induction l generalizing c d w with
  | nil =>
    refine ⟨w, h, ?_⟩
    have hfirst : (if c = 0 then scanFirst [] else c) = c := by
      split_ifs with h0
      · rw [h0]
        rfl
      · rfl
    rw [hfirst]
    rfl
  | cons x l ih =>
    obtain ⟨w₁, hw₁, hbyte⟩ := readByte_nul (s := s) (c := c) (d := d) (w := w) x
    have hsettled : Settled text cut w₁ := by
      rcases hw₁ with rfl | rfl
      · exact h
      · exact h.fold [x]
    obtain ⟨w', hw', hline⟩ := ih (c := if c = 0 ∧ isBlank x = false then x else c)
      (d := if isBlank x then d else x) hsettled
    have hstep : (s.behind c d w).readLine (x :: l) = ((s.behind c d w).readByte x).readLine l := rfl
    have hfirst : (if (if c = 0 ∧ isBlank x = false then x else c) = 0 then scanFirst l
        else if c = 0 ∧ isBlank x = false then x else c) = if c = 0 then scanFirst (x :: l) else c := by
      rw [scanFirst_cons]
      grind
    refine ⟨w', hw', ?_⟩
    rw [hstep, hbyte, hline, hfirst]
    rfl

/-! ## The verdict of the grammar on a line -/

/-- the scan takes the line for another one than it is: outside a list for a blank line or a comment, which neither
completes a record nor opens a list; inside a list for the line that closes it -/
def misread (inList : Bool) (line : Bytes) : Bool :=
  (trim isBlank line).head? = some 0 &&
    if inList then scanFirst line = 0x60
    else (scanFirst line = 0 || scanFirst line = 0x23) && (trim isBlank line).getLast? ≠ some 0x5c

/-- no line is misread up to the end of the first record that is refused -/
def legible (sep : Bytes) (p : Pending) (n : ℕ) : List Bytes → Bool
  | [] => true
  | line :: lines => !misread p.inList line &&
    match p.step sep n line with
    | .inl p => legible sep p (n + 1) lines
    | .inr rec => rec.refused || legible sep {} (n + 1) lines

/-- what the word behind a line tells of the record, whatever becomes of it there; `d` is the last byte of the text -/
structure Tells (p : Pending) (line : Bytes) (d : UInt8) (w : Bytes × Bool) : Prop where
  last : (trim isBlank line).getLast? = some d
  listed : listBehind p.inList (trim isBlank line) = true → ∀ sep, Settled (p.text ++ trim isBlank line ++ sep) p.cut w
  continued : d = 0x5c → ∀ start, WordSim
    ⟨start, p.text ++ (trim isBlank line).dropLast, false, p.cut || cutsWord p.text line⟩ (unglue w)
  completed : isRemoteRules w.1 = (isRemoteRules (firstWord isBlank (p.text ++ trim isBlank line)) && !p.cut)

/-- the grammar takes the blanks behind the text for what closes the word -/
theorem cutsWord_split {text : Bytes} (hline : line = lead ++ trim isBlank line ++ trail)
    (htrail : ∀ x ∈ trail, isBlank x = true) (hlast : (trim isBlank line).getLast? = some d) :
    cutsWord text line = ((text ++ trim isBlank line).all (fun c => !isBlank c) && !trail.isEmpty) := by
  obtain ⟨m, hm⟩ := List.getLast?_eq_some_iff.1 hlast
  have hd : isBlank d = false := trim_last hm
  rw [cutsWord]
  congr 1
  cases htr : trail.getLast? with
  | none =>
    have hnil : trail = [] := List.getLast?_eq_none_iff.1 htr
    rw [hline, hnil, List.append_nil, List.getLast?_append, hlast]
    simpa using hd
  | some b =>
    obtain ⟨l, rfl⟩ := List.getLast?_eq_some_iff.1 htr
    rw [hline, ← List.append_assoc, List.getLast?_concat]
    simp [htrail b (by simp)]

/-- a word that is cut has no blank -/
theorem solid_of_cutsWord {text : Bytes} (h : cutsWord text line = true) :
    Solid isBlank (text ++ (trim isBlank line).dropLast) := by
  rw [cutsWord, Bool.and_eq_true, List.all_eq_true] at h
  intro x hx
  have hin : x ∈ text ++ trim isBlank line := by
    rcases List.mem_append.1 hx with hx | hx
    · exact List.mem_append_left _ hx
    · exact List.mem_append_right _ (List.dropLast_subset _ hx)
  simpa using h.1 x hin

/-- the word of a record that a byte NUL has settled -/
theorem Settled.continued (h : Settled (p.text ++ [0]) p.cut w) (ht : trim isBlank line = 0 :: more)
    (hlast : (trim isBlank line).getLast? = some 0x5c) :
    Settled (p.text ++ (trim isBlank line).dropLast) (p.cut || cutsWord p.text line) w := by
  have hne : more ≠ [] := by
    rintro rfl
    rw [ht] at hlast
    exact absurd (Option.some.inj hlast) (by decide)
  have hdrop : p.text ++ (trim isBlank line).dropLast = p.text ++ [0] ++ more.dropLast := by
    rw [ht, List.dropLast_cons_of_ne_nil hne, List.append_assoc]
    rfl
  have hcut := (h.append more.dropLast).cuts (b := cutsWord p.text line) fun hc => hdrop ▸ solid_of_cutsWord hc
  rwa [← hdrop] at hcut

theorem Settled.tells (h : Settled (p.text ++ [0]) p.cut w) (ht : trim isBlank line = 0 :: more)
    (hlast : (trim isBlank line).getLast? = some d) : Tells p line d w where
  last := hlast
  listed _ sep := by
    have hlisted := (h.append more).append sep
    rw [List.append_assoc p.text] at hlisted
    rw [ht]
    exact hlisted
  continued hd start := Or.inr (h.unglue.continued ht (hlast.trans (by rw [hd])))
  completed := by
    have hverdict := h.verdict more
    rw [List.append_assoc] at hverdict
    rw [ht]
    exact hverdict.symm

/-! ## One line -/

/-- the scan at the start of line `n`, and the record in hand -/
structure Sim (p : Pending) (n : ℕ) (s : RulesScan) : Prop where
  first : s.first = 0
  line : s.line = n
  ticks : s.inBackticks = p.inList
  inRecord : s.inRecord = p.start.isSome
  recLine : ∀ k, p.start = some k → s.recLine = k
  started : p.inList = true → p.start.isSome = true
  word : WordSim p (s.word, s.wordDone)

theorem Sim.init : Sim {} 1 {} where
  first := rfl
  line := rfl
  ticks := rfl
  inRecord := rfl
  recLine := nofun
  started := nofun
  word := Or.inl ⟨⟨rfl, fun _ h => absurd h List.not_mem_nil, Nat.zero_le _⟩, rfl, rfl⟩

/-- what the scan makes of a line on which the grammar makes `next` of the record in hand -/
def StepsTo (s : RulesScan) (n : ℕ) : Pending ⊕ Record → Prop
  | .inl p => s.eol.1 = none ∧ Sim p (n + 1) s.eol.2.nextLine
  | .inr rec => s.eol.1 = (if rec.refused && !rec.cut then some (ascii "SecRemoteRules") else none) ∧
      s.eol.2.recLine = rec.start ∧ Sim {} (n + 1) s.eol.2.nextLine

/-- a line that is ignored -/
theorem Sim.ignored (h : Sim p n s) {u : RulesScan} {y z : UInt8} (hu : u = { s with first := y, last := z })
    (hy : y = 0 ∨ y = 0x23) : StepsTo u n (.inl p) := by
  subst hu
  have heol := eol_ignored (s := { s with first := y, last := z }) hy
  refine ⟨by rw [heol], ?_⟩
  rw [heol]
  exact ⟨rfl, congrArg (· + 1) h.line, h.ticks, h.inRecord, h.recLine, h.started, h.word⟩

/-- a line without a text, or with a comment, leaves the record in hand alone -/
theorem Sim.skipped (h : Sim p n s) (hskip : trim isBlank line = [] ∨ (trim isBlank line).head? = some 0x23) :
    StepsTo (s.readLine line) n (.inl p) := by
  obtain ⟨lead, trail, hline, hlead, htrail⟩ := trim_split isBlank line
  rcases hskip with hblank | hcomment
  · -- nothing but blanks
    rw [hblank, List.append_nil] at hline
    have hread : s.readLine line = s := readLine_lead h.first fun x hx => by
      rw [hline] at hx
      exact (List.mem_append.1 hx).elim (hlead x) (htrail x)
    rw [hread]
    exact h.ignored (y := 0) (z := s.last) (by rw [← h.first]) (Or.inl rfl)
  · obtain ⟨l, hl⟩ : ∃ l, trim isBlank line = 0x23 :: l := List.head?_eq_some_iff.1 hcomment
    have hsplit : line = lead ++ 0x23 :: (l ++ trail) := by
      rw [hl] at hline
      rw [hline, List.append_assoc]
      rfl
    obtain ⟨y, hread⟩ := readLine_comment h.first hlead (l ++ trail)
    rw [hsplit, hread]
    exact h.ignored rfl (Or.inr rfl)

/-- a line with a text that is no comment and does not begin with NUL -/
theorem Sim.read_text (h : Sim p n s) (hhead : (trim isBlank line).head? = some c) (hnul : c ≠ 0) (hc : c ≠ 0x23) :
    ∃ d w, Tells p line d w ∧ s.readLine line = s.behind c d w := by
  obtain ⟨lead, trail, hline, hlead, htrail⟩ := trim_split isBlank line
  obtain ⟨more, ht⟩ := List.head?_eq_some_iff.1 hhead
  obtain ⟨d, hlast⟩ : ∃ d, (trim isBlank line).getLast? = some d :=
    ⟨_, List.getLast?_eq_some_getLast (by rw [ht]; exact List.cons_ne_nil _ _)⟩
  obtain ⟨m, hm⟩ := List.getLast?_eq_some_iff.1 hlast
  have hstart : ∀ x m, trim isBlank line = x :: m → isBlank x = false := fun _ _ hx => trim_head hx
  refine ⟨d, (trim isBlank line ++ trail).foldl glue (s.word, s.wordDone), ⟨hlast, ?_, ?_, ?_⟩, ?_⟩
  · intro hlist sep
    have hwhy : p.inList = true ∨ (trim isBlank line).getLast? = some 0x60 := by
      rw [listBehind] at hlist
      cases hp : p.inList with
      | true => exact Or.inl rfl
      | false => exact Or.inr (by simpa [hp] using hlist)
    exact h.word.listed hstart hwhy sep trail
  · intro hd start
    have hm' : (trim isBlank line).dropLast = m := by rw [hm, List.dropLast_concat]
    rw [hm']
    exact h.word.continued hstart (hm.trans (by rw [hd])) htrail start (cutsWord_split hline htrail hlast)
  · exact h.word.completed hstart htrail
  · have hread := readLine_text h.first hlead htrail ht hlast (hstart c more ht) (trim_last hm) hnul hc
    rwa [← hline] at hread

/-- a line that begins with NUL -/
theorem Sim.read_nul (h : Sim p n s) (ht : trim isBlank line = 0 :: more)
    (hlast : (trim isBlank line).getLast? = some d) : ∃ w, Settled (p.text ++ [0]) p.cut w ∧
      s.readLine line = s.behind (scanFirst line) d w := by
  obtain ⟨lead, trail, hline, hlead, htrail⟩ := trim_split isBlank line
  obtain ⟨m, hm⟩ := List.getLast?_eq_some_iff.1 hlast
  rw [ht] at hline
  obtain ⟨w, hw, hrest⟩ := readLine_nul (s := s) (c := 0) (d := 0) h.word.nul (more ++ trail)
  have hlastText : lastText 0 (more ++ trail) = d := by
    have hwhole := lastText_concat 0 m (trim_last hm) htrail
    rw [← hm, ht, List.cons_append, lastText, List.foldl_cons, if_neg (by decide)] at hwhole
    exact hwhole
  have hfirst : scanFirst line = scanFirst (more ++ trail) := by
    rw [hline, List.append_assoc, scanFirst_lead hlead, List.cons_append, scanFirst_cons, if_neg (by simp)]
  refine ⟨w, hw, ?_⟩
  have hbytes : s.readLine line = (s.readByte 0).readLine (more ++ trail) := by
    rw [hline, List.append_assoc, readLine_append, readLine_lead h.first hlead]
    rfl
  rw [hbytes, readByte_first h.first (by decide) (by decide), hrest, hlastText, hfirst, if_pos rfl]

/-- the record starts on the line that the scan has noted -/
theorem Sim.noted {p : Pending} {n : ℕ} (h : Sim p n s) :
    (if s.inRecord then s.recLine else s.line) = p.start.getD n := by
  have hin := h.inRecord
  cases hs : p.start with
  | none =>
    rw [hs, Option.isSome_none] at hin
    rw [hin, if_neg Bool.false_ne_true, h.line]
    rfl
  | some k =>
    rw [hs, Option.isSome_some] at hin
    rw [hin, if_pos rfl, h.recLine k hs]
    rfl

/-- a line that begins with NUL and that the scan ignores; the record goes on in the grammar too -/
theorem Sim.unread (h : Sim p n s) (hc : c = 0 ∨ c = 0x23) (hw : Settled text cut w) :
    StepsTo (s.behind c d w) n (.inl ⟨some (p.start.getD n), text, p.inList, cut⟩) := by
  have heol := eol_ignored (s := s.behind c d w) hc
  refine ⟨by rw [heol], ?_⟩
  rw [heol]
  exact ⟨rfl, congrArg (· + 1) h.line, h.ticks, rfl, fun k hk => h.noted.trans (Option.some.inj hk), fun _ => rfl,
    Or.inr hw⟩

/-! ## A line with a text -/

section
variable (h : Sim p n s) (ht : Tells p line d w) (hc : ¬ (c = 0 ∨ c = 0x23))
  (hcloses : p.inList = true → (c = 0x60 ↔ (trim isBlank line).head? = some 0x60))
include h ht hcloses

theorem Sim.ticks_behind : (s.behind c d w).ticks = listBehind p.inList (trim isBlank line) := by
  rw [RulesScan.ticks, listBehind, ht.last, ← h.ticks]
  rw [← h.ticks] at hcloses
  cases hb : s.inBackticks with
  | false => simp [behind, hb]
  | true => simp [behind, hb, hcloses hb]

include hc

theorem Sim.eol_behind : (s.behind c d w).eol =
    if listBehind p.inList (trim isBlank line) || d = 0x5c then
      (none, { s.behind c d w with
        inBackticks := listBehind p.inList (trim isBlank line), word := (s.behind c d w).glued, first := 0, last := 0 })
    else
      (scanWord { s.behind c d w with
        inBackticks := listBehind p.inList (trim isBlank line), word := (s.behind c d w).glued, first := 0, last := 0 },
      { s.behind c d w with
        inBackticks := listBehind p.inList (trim isBlank line), word := [], first := 0, last := 0
        inRecord := false, wordDone := false }) := by
  have heol := eol_text (s := s.behind c d w) hc
  rw [h.ticks_behind ht hcloses] at heol
  exact heol

/-- a list is open behind the line -/
theorem Sim.listed (sep : Bytes) (hlist : listBehind p.inList (trim isBlank line) = true) : StepsTo (s.behind c d w) n
    (.inl ⟨some (p.start.getD n), p.text ++ trim isBlank line ++ sep, true, p.cut⟩) := by
  have hglued : (s.behind c d w).glued = w.1 := by
    rw [glued, h.ticks_behind ht hcloses, hlist]
    rfl
  have heol := h.eol_behind ht hc hcloses
  rw [hlist, Bool.true_or, if_pos rfl, hglued] at heol
  refine ⟨by rw [heol], ?_⟩
  rw [heol]
  exact ⟨rfl, congrArg (· + 1) h.line, rfl, rfl, fun k hk => h.noted.trans (Option.some.inj hk), fun _ => rfl,
    Or.inr (ht.listed hlist sep)⟩

/-- the record goes on in the next line -/
theorem Sim.continued (hlist : listBehind p.inList (trim isBlank line) = false) (hd : d = 0x5c) :
    StepsTo (s.behind c d w) n (.inl
      ⟨some (p.start.getD n), p.text ++ (trim isBlank line).dropLast, false, p.cut || cutsWord p.text line⟩) := by
  have hglued : ((s.behind c d w).glued, w.2) = unglue w := by
    rw [glued, h.ticks_behind ht hcloses, hlist, unglue]
    simp [behind, hd]
  have heol := h.eol_behind ht hc hcloses
  rw [hlist, decide_eq_true hd, Bool.false_or, if_pos rfl] at heol
  have hsim := ht.continued hd (some (p.start.getD n))
  rw [← hglued] at hsim
  refine ⟨by rw [heol], ?_⟩
  rw [heol]
  exact ⟨rfl, congrArg (· + 1) h.line, rfl, rfl, fun k hk => h.noted.trans (Option.some.inj hk), by simp, hsim⟩

/-- the record is complete -/
theorem Sim.completed (hlist : listBehind p.inList (trim isBlank line) = false) (hd : d ≠ 0x5c) :
    StepsTo (s.behind c d w) n (.inr ⟨p.start.getD n, p.text ++ trim isBlank line, p.cut⟩) := by
  have hlast : decide ((s.behind c d w).last = 0x5c) = false := decide_eq_false hd
  have hglued : (s.behind c d w).glued = w.1 := by
    rw [glued, hlast, Bool.and_false, Bool.false_and, Bool.false_and, if_neg Bool.false_ne_true]
    rfl
  have heol := h.eol_behind ht hc hcloses
  rw [hlist, decide_eq_false hd, Bool.or_false, if_neg Bool.false_ne_true, hglued, scanWord_eq] at heol
  refine ⟨?_, ?_, ?_⟩
  · rw [heol, Record.refused]
    dsimp only
    rw [← ht.completed]
  · rw [heol]
    exact h.noted
  · rw [heol]
    exact ⟨rfl, congrArg (· + 1) h.line, rfl, rfl, by simp, by simp,
      Or.inl ⟨⟨rfl, fun _ hx => absurd hx List.not_mem_nil, Nat.zero_le _⟩, rfl, rfl⟩⟩

end

/-- **One line.** On a line that is not misread, the scan does what the grammar does. -/
theorem line_step (h : Sim p n s) (sep line : Bytes) (hread : misread p.inList line = false) :
    StepsTo (s.readLine line) n (p.step sep n line) := by
  rw [Pending.step]
  by_cases hskip : trim isBlank line = [] ∨ (trim isBlank line).head? = some 0x23
  · rw [if_pos hskip]
    exact h.skipped hskip
  rw [if_neg hskip]
  rw [not_or] at hskip
  obtain ⟨c, more, ht⟩ := List.exists_cons_of_ne_nil hskip.1
  have hhead : (trim isBlank line).head? = some c := by rw [ht]; rfl
  have hcomment : c ≠ 0x23 := fun hc => hskip.2 (by rw [hhead, hc])
  -- a line with a text, once its word tells of the record
  have hsteps : ∀ c d w, Tells p line d w → ¬ (c = 0 ∨ c = 0x23) →
      (p.inList = true → (c = 0x60 ↔ (trim isBlank line).head? = some 0x60)) →
      StepsTo (s.behind c d w) n (if listBehind p.inList (trim isBlank line) = true then
          .inl ⟨some (p.start.getD n), p.text ++ trim isBlank line ++ sep, true, p.cut⟩
        else if (trim isBlank line).getLast? = some 0x5c then
          .inl ⟨some (p.start.getD n), p.text ++ (trim isBlank line).dropLast, false, p.cut || cutsWord p.text line⟩
        else .inr ⟨p.start.getD n, p.text ++ trim isBlank line, p.cut⟩) := by
    intro c d w htells hc hcloses
    rw [htells.last]
    split_ifs with hlist hd
    · exact h.listed htells hc hcloses sep hlist
    · exact h.continued htells hc hcloses (by simpa using hlist) (Option.some.inj hd)
    · exact h.completed htells hc hcloses (by simpa using hlist) fun hd' => hd (by rw [hd'])
  by_cases hnul : c = 0
  · subst hnul
    obtain ⟨d, hlast⟩ : ∃ d, (trim isBlank line).getLast? = some d :=
      ⟨_, List.getLast?_eq_some_getLast hskip.1⟩
    obtain ⟨w, hsettled, hline⟩ := h.read_nul ht hlast
    rw [hline]
    rw [misread, hhead] at hread
    by_cases hc : scanFirst line = 0 ∨ scanFirst line = 0x23
    · cases hp : p.inList with
      | true =>
        have hlist : listBehind true (trim isBlank line) = true := by simp [listBehind, hhead]
        rw [if_pos hlist]
        have hunread := h.unread (d := d) hc ((hsettled.tells ht hlast).listed (hp ▸ hlist) sep)
        rwa [hp] at hunread
      | false =>
        have hcont : (trim isBlank line).getLast? = some 0x5c := by
          rcases hc with hc | hc <;> simpa [hp, hc] using hread
        have hlist : listBehind false (trim isBlank line) = false := by simp [listBehind, hcont]
        rw [if_neg (by simp [hlist]), if_pos hcont]
        have hunread := h.unread (d := d) hc (hsettled.continued ht hcont)
        rwa [hp] at hunread
    · refine hsteps _ d w (hsettled.tells ht hlast) hc fun hp => ?_
      have hopen : scanFirst line ≠ 0x60 := by simpa [hp] using hread
      simp [hhead, hopen]
  · obtain ⟨d, w, htells, hline⟩ := h.read_text hhead hnul hcomment
    rw [hline]
    exact hsteps c d w htells (by simp [hnul, hcomment]) fun _ => by simp [hhead]

/-! ## A refusal names a line at or behind the one where the scan stands -/

/-- nothing that the scan has in hand began before line `m` -/
structure Later (m : ℕ) (s : RulesScan) : Prop where
  line : m ≤ s.line
  recLine : s.inRecord = true → m ≤ s.recLine
  begun : s.first ≠ 0 → s.first ≠ 0x23 → s.inRecord = true
  listed : s.inBackticks = true → s.inRecord = true

theorem Later.of_eq {m : ℕ} {s' : RulesScan} (h : Later m s) (hline : s'.line = s.line) (hrec : s'.recLine = s.recLine)
    (hin : s'.inRecord = s.inRecord) (hfirst : s'.first = s.first ∨ s'.first = 0 ∨ s'.first = 0x23)
    (hticks : s'.inBackticks = s.inBackticks) : Later m s' where
  line := hline ▸ h.line
  recLine hr := hrec ▸ h.recLine (hin ▸ hr)
  begun h0 hc := by
    rcases hfirst with hsame | hzero | hcomment
    · rw [hsame] at h0 hc
      exact hin ▸ h.begun h0 hc
    · exact absurd hzero h0
    · exact absurd hcomment hc
  listed hb := hin ▸ h.listed (hticks ▸ hb)

theorem Later.scanByte {m : ℕ} (h : Later m s) (c : UInt8) : Later m (s.scanByte c) := by
  have hfirst : Later m (if s.first = 0 then
      if c ≠ 0x23 ∧ s.inRecord = false then { s with first := c, inRecord := true, recLine := s.line }
      else { s with first := c }
    else s) := by
    split_ifs with h0 hnew
    · exact ⟨h.line, fun _ => h.line, fun _ _ => rfl, fun _ => rfl⟩
    · refine ⟨h.line, h.recLine, fun _ hc => ?_, h.listed⟩
      simpa using fun hin => hnew ⟨hc, hin⟩
    · exact h
  rw [RulesScan.scanByte]
  dsimp only
  generalize (if s.first = 0 then
      if c ≠ 0x23 ∧ s.inRecord = false then { s with first := c, inRecord := true, recLine := s.line }
      else { s with first := c }
    else s) = u at hfirst
  split_ifs
  · exact hfirst.of_eq rfl rfl rfl (Or.inl rfl) rfl
  · exact hfirst.of_eq rfl rfl rfl (Or.inl rfl) rfl
  · exact hfirst.of_eq rfl rfl rfl (Or.inl rfl) rfl

theorem Later.readByte {m : ℕ} (h : Later m s) (c : UInt8) : Later m (s.readByte c) := by
  rw [RulesScan.readByte]
  split_ifs
  · exact h.of_eq rfl rfl rfl (Or.inl rfl) rfl
  · exact h
  · exact h.scanByte c

theorem Later.readLine {m : ℕ} (h : Later m s) (line : Bytes) : Later m (s.readLine line) := by
  induction line generalizing s with
  | nil => exact h
  | cons c line ih => exact ih (h.readByte c)

/-- at the end of a line: nothing older is in hand behind it, and what is refused there is no older -/
theorem Later.eol {m : ℕ} (h : Later m s) : Later m s.eol.2 ∧ (s.eol.1.isSome = true → m ≤ s.eol.2.recLine) := by
  by_cases hignored : s.first = 0 ∨ s.first = 0x23
  · rw [eol_ignored hignored]
    exact ⟨h.of_eq rfl rfl rfl (Or.inr (Or.inl rfl)) rfl, by simp⟩
  · rw [eol_text hignored]
    rw [not_or] at hignored
    have hin := h.begun hignored.1 hignored.2
    split_ifs with hcont
    · exact ⟨⟨h.line, h.recLine, fun h0 => absurd rfl h0, fun _ => hin⟩, by simp⟩
    · have hticks : s.ticks = false := Bool.eq_false_iff.2 fun hopen => hcont (by rw [hopen]; rfl)
      exact ⟨⟨h.line, by simp, fun h0 => absurd rfl h0, fun hb => by simp [hticks] at hb⟩, fun _ => h.recLine hin⟩

/-- **The line of a refusal.** -/
theorem Later.scanLines {m : ℕ} (h : Later m s) (lines : List Bytes) :
    ∀ k, verdict (s.scanLines lines) = some k → m ≤ k := by
  induction lines generalizing s with
  | nil =>
    intro k hk
    rw [RulesScan.scanLines] at hk
    split_ifs at hk with hlist
    · have hrec := h.recLine (h.listed hlist)
      cases hword : s.scanWord with
      | none => rw [hword] at hk; cases hk
      | some bad =>
        rw [hword] at hk
        exact (Option.some.inj hk) ▸ hrec
    · cases hk
  | cons line lines ih =>
    intro k hk
    obtain ⟨hlater, hbad⟩ := (h.readLine line).eol
    rw [RulesScan.scanLines] at hk
    rcases heq : (s.readLine line).eol with ⟨_ | bad, s'⟩
    · rw [heq] at hk hlater
      have hnext : Later m s'.nextLine :=
        ⟨Nat.le_succ_of_le hlater.line, hlater.recLine, hlater.begun, hlater.listed⟩
      exact ih hnext k hk
    · rw [heq] at hk hbad
      exact (Option.some.inj hk) ▸ hbad rfl

/-- the scan at the start of a line, between two records -/
theorem Sim.later (h : Sim {} n s) : Later n s where
  line := h.line.ge
  recLine hin := absurd (h.inRecord.symm.trans hin) (by simp)
  begun h0 := absurd h.first h0
  listed hb := absurd (h.ticks.symm.trans hb) (by simp)

/-! ## A text -/

/-- at the end of the text a list may still be open -/
theorem scanLines_end (sep : Bytes) (h : Sim p n s) :
    verdict (s.scanLines []) = ((records sep p n []).find? Record.refused).map Record.start ↔
      ∀ rec, (records sep p n []).find? Record.refused = some rec → rec.cut = false := by
  rw [scanLines, records, h.ticks]
  cases hlist : p.inList with
  | false => simp [verdict]
  | true =>
    have hsettled := h.word.resolve_left fun hg => absurd (hlist.symm.trans hg.2.1) (by simp)
    have hverdict := hsettled.verdict []
    rw [List.append_nil] at hverdict
    obtain ⟨k, hk⟩ := Option.isSome_iff_exists.1 (h.started hlist)
    have hrec := h.recLine k hk
    have hrefused : ∀ cut, (Record.mk k p.text cut).refused = isRemoteRules (firstWord isBlank p.text) := fun _ => rfl
    rw [if_pos rfl, if_pos rfl, scanWord_eq, ← hverdict, hk, Option.getD_some]
    cases hr : isRemoteRules (firstWord isBlank p.text) <;> cases hcut : p.cut <;>
      simp [verdict, hrefused, hr, hrec]

/-- a record that has been missed stays so: what is refused behind it starts on a later line -/
theorem Sim.missed (h : Sim {} n s) {k : ℕ} (hk : k < n) (lines : List Bytes) :
    verdict (s.scanLines lines) ≠ some k := by
  intro hsame
  have hle : n ≤ k := h.later.scanLines lines k hsame
  omega

/-- **The lines behind a record.** The scan refuses the record that the grammar refuses first, unless it is cut. -/
theorem scanLines_exact_iff (sep : Bytes) (lines : List Bytes) (h : Sim p n s) (hp : p.start.getD n ≤ n)
    (hleg : legible sep p n lines = true) :
    verdict (s.scanLines lines) = ((records sep p n lines).find? Record.refused).map Record.start ↔
      ∀ rec, (records sep p n lines).find? Record.refused = some rec → rec.cut = false := by
  induction lines generalizing s p n with
  | nil => exact scanLines_end sep h
  | cons line lines ih =>
    rw [legible, Bool.and_eq_true, Bool.not_eq_true'] at hleg
    obtain ⟨hread, hleg⟩ := hleg
    have hstep := line_step h sep line hread
    rw [scanLines, records]
    rcases heq : (s.readLine line).eol with ⟨bad, s'⟩
    cases hnext : p.step sep n line with
    | inl p' =>
      rw [hnext] at hstep hleg
      obtain ⟨hnone, hsim⟩ := hstep
      rw [heq] at hnone hsim
      obtain rfl : bad = none := hnone
      exact ih hsim (start_of_goes_on hnext hp) hleg
    | inr rec =>
      rw [hnext] at hstep hleg
      obtain ⟨hbad, hrec, hsim⟩ := hstep
      rw [heq] at hbad hrec hsim
      dsimp only at hbad hrec hsim hleg ⊢
      cases hrefused : rec.refused with
      | false =>
        rw [hrefused, Bool.false_and, if_neg Bool.false_ne_true] at hbad
        rw [hrefused, Bool.false_or] at hleg
        rw [hbad, List.find?_cons_of_neg (by simp [hrefused])]
        exact ih hsim (Nat.le_refl _) hleg
      | true =>
        rw [List.find?_cons_of_pos hrefused, Option.map_some, hbad, hrefused, Bool.true_and]
        cases hcut : rec.cut with
        | false => simp [andThen, verdict, hcut, hrec]
        | true =>
          have hstart : rec.start < n + 1 := Nat.lt_succ_of_le ((start_of_step hnext).trans_le hp)
          constructor
          · intro hsame
            exact absurd hsame (hsim.missed hstart lines)
          · intro hall
            exact absurd (hall rec rfl) (by simp [hcut])

/-- **The scan and the grammar.** On a text of which no line is misread up to the end of the first record that is
refused, however it is cut into chunks and however the lines of a list are joined, the scan refuses what the grammar
refuses, on the same line, exactly when that record has no line that goes on within its first word with blanks behind
the backslash. -/
theorem scan_exact_iff (sep : Bytes) (chunks : List Bytes)
    (hleg : legible sep {} 1 (chunks.flatten.splitOn 0x0a) = true) :
    verdict (scanChunks {} true chunks) = refuses sep chunks.flatten ↔
      ∀ rec, (recordsOf sep chunks.flatten).find? Record.refused = some rec → rec.cut = false := by
  rw [scanChunks_flatten, scanChunks_lines]
  exact scanLines_exact_iff sep _ Sim.init (Nat.le_refl 1) hleg

/-- a directive whose name is continued, without blanks behind the backslash, among lines that begin with NUL: in a
list, where such a line goes on as a comment would, and behind the record that is refused -/
theorem scan_exact_iff_continued :
    verdict (scanChunks {} true [ascii "SecAction `\n\x00#\n`\n\nSecRemote", ascii "Rul\\\n  es y\n\x00\n"]) =
      some 5 := by
  have hleg : legible (ascii "\n") {} 1 ([ascii "SecAction `\n\x00#\n`\n\nSecRemote",
      ascii "Rul\\\n  es y\n\x00\n"].flatten.splitOn 0x0a) = true := by decide +kernel
  have hiff := scan_exact_iff (ascii "\n")
    [ascii "SecAction `\n\x00#\n`\n\nSecRemote", ascii "Rul\\\n  es y\n\x00\n"] hleg
  have hfound : ((recordsOf (ascii "\n") [ascii "SecAction `\n\x00#\n`\n\nSecRemote",
      ascii "Rul\\\n  es y\n\x00\n"].flatten).find? Record.refused).all (fun rec => !rec.cut) = true := by
    decide +kernel
  rw [hiff.2 fun rec hrec => by rw [hrec] at hfound; simpa using hfound]
  decide +kernel

/-- a line that is misread: behind the first one a directive is missed, behind the second one the text of a list is
taken for a directive -/
example : (verdict (scanChunks {} true [ascii "\x00#\nSecRemoteRules x\n"]) = none ∧
      refuses (ascii "\n") (ascii "\x00#\nSecRemoteRules x\n") = some 2) ∧
    verdict (scanChunks {} true [ascii "SecAction `\n\x00`\nSecRemoteRules x\n`\n"]) = some 3 ∧
      refuses (ascii "\n") (ascii "SecAction `\n\x00`\nSecRemoteRules x\n`\n") = none := by
  decide +kernel

/-- a directive whose name is continued, with lines that end in CR and LF: the carriage return stands behind the
backslash -/
theorem scan_misses_directive : ¬ ∀ (sep : Bytes) (chunks : List Bytes),
    verdict (scanChunks {} true chunks) = refuses sep chunks.flatten := by
  intro h
  have hsame := h (ascii "\n") [ascii "SecRemoteRul\\\x0d\nes y\x0d\n"]
  revert hsame
  decide +kernel

end CorazaNginx.RulesScan
