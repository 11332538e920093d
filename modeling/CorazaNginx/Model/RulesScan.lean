/-
The scan of SecLang text for directives the engine rejects (`ngx_http_coraza_module.c`).

A one-pass automaton over the bytes: it keeps the line numbers, a few flags, the first and the last non-blank byte of
the line and up to 32 bytes of the record's first word. A scan returns the refused directive as soon as its record is
complete. `word` holds the bytes of `word[]` below `wlen`.
-/
import Mathlib.Tactic
import CorazaNginx.Model.HeaderFilter

namespace CorazaNginx

/-- `ngx_http_coraza_unsupported_directives` -/
def unsupportedDirectives : List Bytes := [ascii "SecRemoteRules"]

/-- `ngx_http_coraza_rules_scan_t`, as `rules_scan_init` sets it -/
structure RulesScan where
  line : ℕ := 1
  recLine : ℕ := 0
  inRecord : Bool := false
  inBackticks : Bool := false
  wordDone : Bool := false
  first : UInt8 := 0
  last : UInt8 := 0
  word : Bytes := []
deriving DecidableEq

namespace RulesScan

/-- `sizeof(s->word)` -/
def wordSize : ℕ := 32

/-- `ngx_http_coraza_rules_scan_word` -/
def scanWord (s : RulesScan) : Option Bytes :=
  unsupportedDirectives.find? fun d => s.word.length = d.length && s.word.map lower = d.map lower

/-- `ngx_http_coraza_rules_scan_eol` -/
def eol (s : RulesScan) : Option Bytes × RulesScan :=
  if s.first = 0 ∨ s.first = 0x23 then (none, { s with first := 0, last := 0 })
  else
    let inBackticks :=
      if !s.inBackticks && s.last = 0x60 then true
      else if s.inBackticks && s.first = 0x60 then false
      else s.inBackticks
    let s := { s with inBackticks := inBackticks }
    let cont := s.inBackticks || s.last = 0x5c
    let word :=
      if !s.inBackticks && s.last = 0x5c && !s.wordDone && s.word.getLast? = some 0x5c then s.word.dropLast else s.word
    let s := { s with word := word, first := 0, last := 0 }
    if cont then (none, s)
    else (s.scanWord, { s with inRecord := false, wordDone := false, word := [] })

/-- space, tab, CR, VT and FF -/
def isBlank (c : UInt8) : Bool := c = 0x20 || c = 0x09 || c = 0x0d || c = 0x0b || c = 0x0c

/-- one byte that neither ends the line nor is blank -/
def scanByte (s : RulesScan) (c : UInt8) : RulesScan :=
  let s :=
    if s.first = 0 then
      if c ≠ 0x23 ∧ s.inRecord = false then { s with first := c, inRecord := true, recLine := s.line }
      else { s with first := c }
    else s
  let s := { s with last := c }
  if s.first = 0x23 ∨ s.wordDone = true then s
  else if s.word.length < wordSize then { s with word := s.word ++ [c] }
  else { s with word := [], wordDone := true }

/-- `ngx_http_coraza_rules_scan` -/
def scan (s : RulesScan) : Bytes → Option Bytes × RulesScan
  | [] => (none, s)
  | c :: p =>
    if c = 0x0a then
      match s.eol with
      | (some bad, s) => (some bad, s)
      | (none, s) => scan { s with line := s.line + 1 } p
    else if isBlank c then
      scan (if s.first ≠ 0 ∧ s.first ≠ 0x23 ∧ s.word ≠ [] then { s with wordDone := true } else s) p
    else scan (s.scanByte c) p

/-- `ngx_http_coraza_rules_scan_done` -/
def done (s : RulesScan) : Option Bytes × RulesScan :=
  match s.eol with
  | (some bad, s) => (some bad, s)
  | (none, s) => (if s.inBackticks then s.scanWord else none, s)

/-- the chunks of an input one after the other, and its end when there is one -/
def scanChunks (s : RulesScan) (atEnd : Bool) : List Bytes → Option Bytes × RulesScan
  | [] => if atEnd then s.done else (none, s)
  | p :: chunks =>
    match s.scan p with
    | (some bad, s) => (some bad, s)
    | (none, s) => scanChunks s atEnd chunks

end RulesScan

end CorazaNginx
