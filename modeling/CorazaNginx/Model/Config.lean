/-
The module's configuration (`ngx_http_coraza_module.c`): creating, filling and merging the location configurations.

Configurations and rule arrays live at addresses, so that sharing an array is sharing its address. A configuration file
is a `Body`: what a block contains, in the order it is written. nginx creates a location configuration for the http
block and for every block in it and fills it while it reads (`parse`), then merges each block into its parent's, parents
first (`mergeAll`, for any such order), and calls the postconfiguration check. Everything that asks for memory may fail.
-/
import Mathlib.Tactic
import CorazaNginx.Core.Prog
import CorazaNginx.Model.RulesScan

namespace CorazaNginx.Config

open CorazaNginx.Core Prog

/-! ## Data -/

/-- `ngx_http_coraza_rule_type_e` -/
inductive RuleType where
  | inline
  | file
deriving DecidableEq

/-- `ngx_http_coraza_rule_entry_t` -/
@[ext] structure RuleEntry where
  type : RuleType
  value : Bytes
deriving DecidableEq

/-- NGX_CONF_UNSET -/
abbrev confUnset : ℤ := -1

/-- an `ngx_flag_t` that `ngx_conf_set_flag_slot` has set -/
def flag (on : Bool) : ℤ := if on then 1 else 0

/-- `ngx_http_coraza_conf_t`, as `create_conf` sets it; `rules` is the array's address. A transaction id that no
directive has set is NGX_CONF_UNSET_PTR, `none`. -/
structure Conf where
  rules : ℕ
  waf : ℕ := 0
  wafOwner : Bool := false
  enable : ℤ := confUnset
  hasRules : Bool := false
  delayResponseHeaders : ℤ := confUnset
  transactionId : Option (Option Bytes) := none
deriving DecidableEq

/-- `ngx_http_coraza_main_conf_t`; `locConfs` holds addresses of configurations -/
structure MainConf where
  waf : ℕ := 0
  rules : ℕ := 0
  locConfs : List ℕ := []
  rulesInline : ℕ := 0
  rulesFile : ℕ := 0
deriving DecidableEq

/-- the memory; `parents` is nginx's own record of the block a block is in, `allocs` counts the requests for memory -/
structure Memory where
  confs : ℕ → Conf
  parents : ℕ → ℕ
  confCount : ℕ
  arrays : ℕ → List RuleEntry
  arrayCount : ℕ
  main : MainConf
  allocs : ℕ

/-- before the configuration is read -/
def Memory.empty : Memory :=
  ⟨fun _ => ⟨0, 0, false, confUnset, false, confUnset, none⟩, fun _ => 0, 0, fun _ => [], 0, {}, 0⟩

/-- the rules a configuration has -/
def Memory.rulesOf (m : Memory) (a : ℕ) : List RuleEntry := m.arrays (m.confs a).rules

def Memory.setConf (m : Memory) (a : ℕ) (c : Conf) : Memory := { m with confs := Function.update m.confs a c }

/-- what a rules file holds when it is read at config time: the chunks read, and whether its end was reached -/
structure FileContent where
  chunks : List Bytes
  atEnd : Bool

/-- `alloc n`: the n-th request for memory succeeds; `fullName`: `ngx_conf_full_name`; `file`: none when the file cannot
be opened; `compiles`: `ngx_http_compile_complex_value` -/
structure Env where
  alloc : ℕ → Bool
  fullName : Bytes → Option Bytes
  file : Bytes → Option FileContent
  compiles : Bytes → Bool

/-- code that runs while nginx reads its configuration; `false` is NGX_CONF_ERROR -/
abbrev Setup (ρ α : Type) : Type := Prog Env Memory ρ α

section
variable {ρ : Type}

def alloc : Setup ρ Bool := do
  let n := (← get).allocs
  modify fun m => { m with allocs := n + 1 }
  return (← ask).alloc n

/-- `ngx_array_create` -/
def arrayCreate : Setup ρ (Option ℕ) := call do
  when (!(← alloc)) do exit none
  let a := (← get).arrayCount
  modify fun m => { m with arrays := Function.update m.arrays a [], arrayCount := a + 1 }
  return some a

/-- `ngx_array_push` or `ngx_array_push_n`, and the entries then stored -/
def arrayPush (a : ℕ) (entries : List RuleEntry) : Setup ρ Bool := call do
  when (!(← alloc)) do exit false
  modify fun m => { m with arrays := Function.update m.arrays a (m.arrays a ++ entries) }
  return true

/-! ## Creating -/

/-- `ngx_http_coraza_create_main_conf` -/
def createMainConf : Setup ρ Bool := call do
  when (!(← alloc)) do exit false
  match ← arrayCreate with
  | none => return false
  | some rules =>
    when (!(← alloc)) do exit false
    modify fun m => { m with main := { rules := rules } }
    return true

/-- `ngx_http_coraza_create_conf` for a block inside the one at `parent` -/
def createConf (parent : ℕ) : Setup ρ (Option ℕ) := call do
  when (!(← alloc)) do exit none
  match ← arrayCreate with
  | none => return none
  | some rules =>
    let a := (← get).confCount
    modify fun m => { m with
      confs := Function.update m.confs a { rules := rules }
      parents := Function.update m.parents a parent
      confCount := a + 1 }
    return some a

/-! ## Directives -/

inductive Directive where
  | coraza (on : Bool)
  | corazaRules (text : Bytes)
  | corazaRulesFile (path : Bytes)
  | corazaTransactionId (value : Bytes)
  | corazaDelayResponseHeaders (on : Bool)
deriving DecidableEq

/-- the scan refuses a text -/
def refusesText (text : Bytes) : Bool := (RulesScan.scanChunks {} true [text]).1.isSome

/-- `ngx_http_coraza_check_rules_file`: the resolved path, or none -/
def checkRulesFile (e : Env) (path : Bytes) : Option Bytes :=
  match e.fullName path with
  | none => none
  | some full =>
    match e.file full with
    | none => some full
    | some content => if (RulesScan.scanChunks {} content.atEnd content.chunks).1.isSome then none else some full

/-- the common end of `ngx_conf_set_rules` and `ngx_conf_set_rules_file`: store the entry and count it -/
def storeRule (a : ℕ) (entry : RuleEntry) (count : MainConf → MainConf) : Setup ρ Bool := call do
  when (!(← arrayPush ((← get).confs a).rules [entry])) do exit false
  when (!(← alloc)) do exit false
  modify fun m => { m.setConf a { m.confs a with hasRules := true } with main := count m.main }
  return true

/-- `ngx_conf_set_flag_slot` on one field: a second setting in the same block is an error -/
def setFlagSlot (a : ℕ) (old : Conf → ℤ) (set : ℤ → Conf → Conf) (on : Bool) : Setup ρ Bool := call do
  when (old ((← get).confs a) ≠ confUnset) do exit false
  modify fun m => m.setConf a (set (flag on) (m.confs a))
  return true

/-- `ngx_http_coraza_commands`, for a block whose configuration is at `a` -/
def Directive.set (a : ℕ) : Directive → Setup ρ Bool
  | .coraza on => setFlagSlot a Conf.enable (fun v c => { c with enable := v }) on
  | .corazaDelayResponseHeaders on =>
    setFlagSlot a Conf.delayResponseHeaders (fun v c => { c with delayResponseHeaders := v }) on
  | .corazaRules text => call do
    when (refusesText text) do exit false
    storeRule a ⟨.inline, text⟩ fun main => { main with rulesInline := main.rulesInline + 1 }
  | .corazaRulesFile path => call do
    match checkRulesFile (← ask) path with
    | none => return false
    | some full => storeRule a ⟨.file, full⟩ fun main => { main with rulesFile := main.rulesFile + 1 }
  | .corazaTransactionId value => call do
    when (!(← ask).compiles value) do exit false
    when (!(← alloc)) do exit false
    modify fun m => m.setConf a { m.confs a with transactionId := some (some value) }
    return true

/-! ## Reading -/

/-- what a block contains, in the order it is written -/
inductive Body where
  | done
  | directive (d : Directive) (rest : Body)
  | block (inner : Body) (rest : Body)
deriving DecidableEq

/-- read the rest of the block whose configuration is at `a` -/
def parse (a : ℕ) : Body → Setup Bool Unit
  | .done => pure ()
  | .directive d rest => do
    when (!(← d.set a)) do exit false
    parse a rest
  | .block inner rest => do
    match ← createConf a with
    | none => exit false
    | some child =>
      parse child inner
      parse a rest

/-! ## Merging -/

/-- `ngx_conf_merge_value` -/
def mergeValue (conf prev default : ℤ) : ℤ :=
  if conf = confUnset then if prev = confUnset then default else prev else conf

/-- `ngx_conf_merge_ptr_value`, the default being NULL -/
def mergePtr (conf prev : Option (Option Bytes)) : Option (Option Bytes) :=
  match conf, prev with
  | none, none => some none
  | none, some p => some p
  | some c, _ => some c

/-- the rules part of `ngx_http_coraza_merge_conf` -/
def mergeRules (p c : ℕ) : Setup ρ Bool := call do
  let m ← get
  when (m.rulesOf p ≠ []) do
    if m.rulesOf c ≠ [] then
      match ← arrayCreate with
      | none => exit false
      | some merged =>
        when (!(← arrayPush merged (m.rulesOf p))) do exit false
        when (!(← arrayPush merged (m.rulesOf c))) do exit false
        modify fun m => m.setConf c { m.confs c with rules := merged, hasRules := true }
    else
      modify fun m => m.setConf c { m.confs c with
        rules := (m.confs p).rules
        hasRules := (m.confs c).hasRules || (m.confs p).hasRules }
  return true

/-- `ngx_http_coraza_merge_conf` -/
def mergeConf (p c : ℕ) : Setup ρ Bool := call do
  modify fun m => m.setConf c { m.confs c with
    enable := mergeValue (m.confs c).enable (m.confs p).enable 0
    delayResponseHeaders := mergeValue (m.confs c).delayResponseHeaders (m.confs p).delayResponseHeaders 1
    transactionId := mergePtr (m.confs c).transactionId (m.confs p).transactionId }
  when (!(← mergeRules p c)) do exit false
  when (!(← alloc)) do exit false
  modify fun m => { m with main := { m.main with locConfs := m.main.locConfs ++ [c] } }
  return true

/-- the blocks in `order`, each merged with the configuration of the block it is in -/
def mergeAll (order : List ℕ) : Setup Bool Unit :=
  forEach order fun c => do
    when (!(← mergeConf ((← get).parents c) c)) do exit false

/-- the http block is read, and every block in it -/
def readFile (http : Body) : Setup Bool Unit := do
  when (!(← createMainConf)) do exit false
  match ← createConf 0 with
  | none => exit false
  | some root => parse root http

/-- everything up to the postconfiguration check: the file is read, and its blocks are merged in `order` -/
def readAndMerge (http : Body) (order : List ℕ) : Setup Bool Bool := do
  readFile http
  mergeAll order
  return true

/-- `ngx_http_coraza_validate_rules`; the location configuration of the http block is at `http` -/
def validateRules (http : ℕ) (m : Memory) : Bool :=
  if m.main.rulesInline ≠ 0 ∨ m.main.rulesFile ≠ 0 then true
  else if (m.confs http).enable = 1 then false
  else m.main.locConfs.all fun a => (m.confs a).enable ≠ 1

end

end CorazaNginx.Config
