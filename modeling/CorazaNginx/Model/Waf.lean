/-
A worker's WAFs (`ngx_http_coraza_module.c`): compiling rule arrays when the process starts, sharing what they compile
to, and freeing it when the process ends.

The state is the memory the configuration left and the record of the calls made on the engine. What the engine answers,
and whether memory can be had, depends on that record. Calls that only feed a log line are left out.
-/
import Mathlib.Data.List.TakeWhile
import Mathlib.Tactic
import CorazaNginx.Model.Config

namespace CorazaNginx.Config

open CorazaNginx.Core Prog

/-- an entry as the engine is given it: the value as a C string, which ends at its first NUL -/
def RuleEntry.cstr (entry : RuleEntry) : RuleEntry := { entry with value := entry.value.takeWhile (· ≠ 0) }

/-- a value without a NUL is given whole -/
theorem RuleEntry.cstr_eq_self_iff {entry : RuleEntry} : entry.cstr = entry ↔ 0 ∉ entry.value := by
  rw [RuleEntry.cstr, RuleEntry.ext_iff]
  simp only [true_and]
  rw [List.takeWhile_eq_self_iff]
  simp only [ne_eq, decide_eq_true_eq]
  exact ⟨fun h hin => h 0 hin rfl, fun h x hx hz => h (hz ▸ hx)⟩

/-- a call on the engine with its answer; a handle is a number, 0 for none -/
inductive WafCall where
  | newWafConfig (config : ℕ)
  | rulesAdd (config : ℕ) (entry : RuleEntry) (rc : ℤ)
  | newWaf (config waf : ℕ)
  | freeWafConfig (config : ℕ)
  | freeWaf (waf : ℕ)
deriving DecidableEq

abbrev WafTrace : Type := List WafCall

/-- what the engine answers after a record of calls; `dlOpen`: the library can be loaded; `malloc`: memory can be had -/
structure WafEnv where
  dlOpen : Bool
  malloc : WafTrace → Bool
  newWafConfig : WafTrace → ℕ
  rulesAdd : WafTrace → RuleEntry → ℤ
  newWaf : WafTrace → ℕ

structure Worker where
  mem : Memory
  trace : WafTrace

def Worker.log (w : Worker) (c : WafCall) : Worker := { w with trace := w.trace ++ [c] }

def Worker.setConf (w : Worker) (a : ℕ) (c : Conf) : Worker := { w with mem := w.mem.setConf a c }

def Worker.setMainWaf (w : Worker) (waf : ℕ) : Worker :=
  { w with mem := { w.mem with main := { w.mem.main with waf := waf } } }

/-- code that runs in a worker -/
abbrev WorkerCode (ρ α : Type) : Type := Prog WafEnv Worker ρ α

section
variable {ρ : Type}

def newWafConfig : WorkerCode ρ ℕ := do
  let config := (← ask).newWafConfig (← get).trace
  modify fun w => w.log (.newWafConfig config)
  return config

/-- `coraza_rules_add` or `coraza_rules_add_file`, by the entry's type. They take a `char *` and no length. -/
def rulesAdd (config : ℕ) (entry : RuleEntry) : WorkerCode ρ ℤ := do
  let rc := (← ask).rulesAdd (← get).trace entry.cstr
  modify fun w => w.log (.rulesAdd config entry.cstr rc)
  return rc

def newWaf (config : ℕ) : WorkerCode ρ ℕ := do
  let waf := (← ask).newWaf (← get).trace
  modify fun w => w.log (.newWaf config waf)
  return waf

def freeWafConfig (config : ℕ) : WorkerCode ρ Unit := modify fun w => w.log (.freeWafConfig config)

def freeWaf (waf : ℕ) : WorkerCode ρ Unit := modify fun w => w.log (.freeWaf waf)

def malloc : WorkerCode ρ Bool := do
  return (← ask).malloc (← get).trace

/-! ## Compiling -/

/-- `ngx_http_coraza_rules_equal` on the arrays at two addresses -/
def rulesEqual (m : Memory) (a b : ℕ) : Bool :=
  if a = b then true
  else if (m.arrays a).length ≠ (m.arrays b).length then false
  else ((m.arrays a).zip (m.arrays b)).all fun (ea, eb) =>
    ea.type = eb.type && ea.value.length = eb.value.length && ea.value = eb.value

/-- `ngx_http_coraza_build_waf` -/
def buildWaf (rules : List RuleEntry) : WorkerCode ρ ℕ := call do
  when (rules = []) do exit 0
  let config ← newWafConfig
  when (config = 0) do exit 0
  forEach rules fun entry => do
    when (!(← malloc)) do
      freeWafConfig config
      exit 0
    when ((← rulesAdd config entry) < 0) do
      freeWafConfig config
      exit 0
  let waf ← newWaf config
  freeWafConfig config
  return waf

/-! ## Starting -/

/-- the second step of `ngx_http_coraza_init_process`: the main WAF -/
def initMain : WorkerCode ℤ Unit := do
  let m := (← get).mem
  if m.arrays m.main.rules ≠ [] then
    let waf ← buildWaf (m.arrays m.main.rules)
    modify fun w => w.setMainWaf waf
  else
    let cfg ← newWafConfig
    when (cfg ≠ 0) do
      let waf ← newWaf cfg
      modify fun w => w.setMainWaf waf
      freeWafConfig cfg
  when ((← get).mem.main.waf = 0) do exit ngxError

/-- the body of its loop; `earlier` are the configurations before this one -/
def initLoc (earlier : List ℕ) (a : ℕ) : WorkerCode ℤ Unit := do
  let m := (← get).mem
  when ((m.confs a).hasRules ∧ m.rulesOf a ≠ []) do
    if (m.confs a).rules = m.main.rules ∧ m.main.waf ≠ 0 then
      modify fun w => w.setConf a { w.mem.confs a with waf := m.main.waf }
    else
      match earlier.find? fun j =>
        (m.confs j).wafOwner && (m.confs j).waf ≠ 0 && rulesEqual m (m.confs j).rules (m.confs a).rules with
      | some j => modify fun w => w.setConf a { w.mem.confs a with waf := (m.confs j).waf, wafOwner := false }
      | none =>
        let waf ← buildWaf (m.rulesOf a)
        modify fun w => w.setConf a { w.mem.confs a with waf := waf }
        when (waf = 0) do exit ngxError
        modify fun w => w.setConf a { w.mem.confs a with wafOwner := true }

/-- `ngx_http_coraza_init_process` -/
def initProcess : WorkerCode ℤ ℤ := do
  when (!(← ask).dlOpen) do exit ngxError
  initMain
  let locConfs := (← get).mem.main.locConfs
  forEach (List.range locConfs.length) fun i => initLoc (locConfs.take i) (locConfs.getD i 0)
  return ngxOk

/-! ## Ending -/

/-- `ngx_http_coraza_exit_process` -/
def exitProcess : WorkerCode ρ Unit := do
  let locConfs := (← get).mem.main.locConfs
  forEach locConfs fun a => do
    let m := (← get).mem
    when ((m.confs a).wafOwner ∧ (m.confs a).waf ≠ 0 ∧ (m.confs a).waf ≠ m.main.waf) do freeWaf (m.confs a).waf
  forEach locConfs fun a => modify fun w => w.setConf a { w.mem.confs a with waf := 0, wafOwner := false }
  let waf := (← get).mem.main.waf
  when (waf ≠ 0) do
    freeWaf waf
    modify fun w => w.setMainWaf 0

end

end CorazaNginx.Config
