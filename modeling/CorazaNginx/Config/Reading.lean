/-
What nginx has in memory when it has read a configuration file.

`Body.blocks` lists the blocks of a body in the order they begin, each with the block it is in and its `chain`: the
directives (`Own`) of every block from the http block down to it. `parse_spec`: a successful reading creates exactly one
configuration for each of them, at the next address, which holds the directives of the block itself (`Holds`) in an
array of its own (`Laid`), and leaves the configurations that were there alone.
-/
import Mathlib.Tactic
import CorazaNginx.Model.Config

namespace CorazaNginx.Config

open CorazaNginx.Core Prog

variable {ρ : Type} {e : Env} {m m' : Memory} {a : ℕ}

/-! ## What a file says -/

/-- the directives of one block -/
structure Own where
  rules : List RuleEntry := []
  enable : Option Bool := none
  delayResponseHeaders : Option Bool := none
  transactionId : Option Bytes := none
deriving DecidableEq

/-- a rule directive, for `rules_inline` and `rules_file` together -/
def Directive.ruleCount : Directive → ℕ
  | .corazaRules _ | .corazaRulesFile _ => 1
  | _ => 0

/-- the rule directives in a body and in all blocks in it -/
def Body.ruleCount : Body → ℕ
  | .done => 0
  | .directive d rest => d.ruleCount + rest.ruleCount
  | .block inner rest => inner.ruleCount + rest.ruleCount

/-- first `x`, then `y` -/
def Own.add (x y : Own) : Own where
  rules := x.rules ++ y.rules
  enable := y.enable <|> x.enable
  delayResponseHeaders := y.delayResponseHeaders <|> x.delayResponseHeaders
  transactionId := y.transactionId <|> x.transactionId

/-- one directive; a rules file counts under its full name -/
def Directive.own (e : Env) : Directive → Own
  | .coraza on => { enable := some on }
  | .corazaRules text => { rules := [⟨.inline, text⟩] }
  | .corazaRulesFile path => { rules := [⟨.file, (e.fullName path).getD path⟩] }
  | .corazaTransactionId value => { transactionId := some value }
  | .corazaDelayResponseHeaders on => { delayResponseHeaders := some on }

/-- the directives that stand in the block itself -/
def Body.own (e : Env) : Body → Own
  | .done => {}
  | .directive d rest => (d.own e).add (rest.own e)
  | .block _ rest => rest.own e

/-- a block: the address of the one it is in, and the directives of all blocks around it and its own, the outermost
first -/
structure Block where
  parent : ℕ
  chain : List Own
deriving DecidableEq

/-- the blocks in a body in the order they begin; `next` is the address of the first -/
def Body.blocks (e : Env) (a next : ℕ) (chain : List Own) : Body → List Block
  | .done => []
  | .directive _ rest => rest.blocks e a next chain
  | .block inner rest =>
    let mine := chain ++ [inner.own e]
    let below := inner.blocks e next (next + 1) mine
    ⟨a, mine⟩ :: below ++ rest.blocks e a (next + 1 + below.length) chain

/-- all blocks of a file, the http block first -/
def Body.allBlocks (e : Env) (http : Body) : List Block := ⟨0, [http.own e]⟩ :: http.blocks e 0 1 [http.own e]

@[simp] theorem Own.empty_add (x : Own) : Own.add {} x = x := by
  cases x
  simp [Own.add]

@[simp] theorem Own.add_empty (x : Own) : x.add {} = x := by
  cases x
  simp [Own.add]

theorem Own.add_assoc (x y z : Own) : (x.add y).add z = x.add (y.add z) := by
  simp [Own.add, List.append_assoc, Option.orElse_eq_orElse, Option.orElse_eq_or, Option.or_assoc]

/-! ## Memory -/

/-- a flag that may not have been set -/
def flagOf : Option Bool → ℤ
  | none => confUnset
  | some on => flag on

/-- `rules_inline` and `rules_file` together -/
def Memory.ruleCount (m : Memory) : ℕ := m.main.rulesInline + m.main.rulesFile

/-- every configuration has an array of its own, and the main configuration's is empty -/
structure Laid (m : Memory) : Prop where
  main : m.main.rules = 0
  empty : m.arrays 0 = []
  count : m.arrayCount = m.confCount + 1
  own : ∀ i < m.confCount, (m.confs i).rules = i + 1

/-- the configuration at `a` holds these directives, and nothing yet of a WAF -/
structure Holds (o : Own) (m : Memory) (a : ℕ) : Prop where
  rules : m.rulesOf a = o.rules
  hasRules : (m.confs a).hasRules = true ↔ o.rules ≠ []
  enable : (m.confs a).enable = flagOf o.enable
  delay : (m.confs a).delayResponseHeaders = flagOf o.delayResponseHeaders
  transactionId : (m.confs a).transactionId = o.transactionId.map some
  waf : (m.confs a).waf = 0
  wafOwner : (m.confs a).wafOwner = false

/-- of what was there, only the configuration at `a` and its array may have changed -/
structure Only (a : ℕ) (m m' : Memory) : Prop where
  count : m.confCount ≤ m'.confCount
  confs : ∀ i < m.confCount, i ≠ a → m'.confs i = m.confs i
  arrays : ∀ i < m.confCount, i ≠ a → m'.arrays (i + 1) = m.arrays (i + 1)
  parents : ∀ i < m.confCount, m'.parents i = m.parents i
  locConfs : m'.main.locConfs = m.main.locConfs
  waf : m'.main.waf = m.main.waf

theorem Only.refl (a : ℕ) (m : Memory) : Only a m m :=
  ⟨le_rfl, fun _ _ _ => rfl, fun _ _ _ => rfl, fun _ _ => rfl, rfl, rfl⟩

theorem Only.trans {m'' : Memory} (h : Only a m m') (h' : Only a m' m'') : Only a m m'' where
  count := h.count.trans h'.count
  confs := fun i hi ha => (h'.confs i (by have := h.count; omega) ha).trans (h.confs i hi ha)
  arrays := fun i hi ha => (h'.arrays i (by have := h.count; omega) ha).trans (h.arrays i hi ha)
  parents := fun i hi => (h'.parents i (by have := h.count; omega)).trans (h.parents i hi)
  locConfs := h'.locConfs.trans h.locConfs
  waf := h'.waf.trans h.waf

/-- what is not at `a` is still held -/
theorem Only.holds {o : Own} {i : ℕ} (h : Only a m m') (hl : Laid m) (hi : i < m.confCount) (hne : i ≠ a)
    (ho : Holds o m i) : Holds o m' i := by
  have hc := h.confs i hi hne
  have hr : m'.rulesOf i = m.rulesOf i := by
    rw [Memory.rulesOf, Memory.rulesOf, hc, hl.own i hi, h.arrays i hi hne]
  exact ⟨hr.trans ho.rules, by rw [hc]; exact ho.hasRules, by rw [hc]; exact ho.enable, by rw [hc]; exact ho.delay,
    by rw [hc]; exact ho.transactionId, by rw [hc]; exact ho.waf, by rw [hc]; exact ho.wafOwner⟩

/-! ## One directive -/

theorem alloc_spec {Q : Bool → Memory → Prop} {E : ρ → Memory → Prop}
    (h : ∀ ok n, Q ok { m with allocs := n }) : wp (alloc : Setup ρ Bool) Q E e m := h _ _

theorem arrayPush_spec {i : ℕ} {entries : List RuleEntry} {Q : Bool → Memory → Prop} {E : ρ → Memory → Prop}
    (hfail : ∀ n, Q false { m with allocs := n })
    (h : ∀ n, Q true { m with arrays := Function.update m.arrays i (m.arrays i ++ entries), allocs := n }) :
    wp (arrayPush i entries : Setup ρ Bool) Q E e m := by
  rw [arrayPush, wp_call, wp_bind]
  refine alloc_spec fun ok n => ?_
  rw [wp_bind]
  exact (wp_when _ _).2 ⟨fun _ => hfail _, fun _ => h n⟩

theorem arrayCreate_spec {Q : Option ℕ → Memory → Prop} {E : ρ → Memory → Prop}
    (hfail : ∀ n, Q none { m with allocs := n })
    (h : ∀ n, Q (some m.arrayCount) { m with
      arrays := Function.update m.arrays m.arrayCount [], arrayCount := m.arrayCount + 1, allocs := n }) :
    wp (arrayCreate : Setup ρ (Option ℕ)) Q E e m := by
  rw [arrayCreate, wp_call, wp_bind]
  refine alloc_spec fun ok n => ?_
  rw [wp_bind]
  exact (wp_when _ _).2 ⟨fun _ => hfail _, fun _ => h n⟩

/-- a successful directive: `o` is what it adds, `n` how many rules are counted -/
structure Adds (a : ℕ) (pre o : Own) (n : ℕ) (m m' : Memory) : Prop where
  laid : Laid m'
  only : Only a m m'
  count : m'.confCount = m.confCount
  counted : m'.ruleCount = m.ruleCount + n
  holds : Holds (pre.add o) m' a

theorem setFlagSlot_spec {old : Conf → ℤ} {set : ℤ → Conf → Conf} {on : Bool} {Q : Bool → Memory → Prop}
    {E : ρ → Memory → Prop} (hfail : ∀ m', Q false m')
    (h : old (m.confs a) = confUnset → Q true (m.setConf a (set (flag on) (m.confs a)))) :
    wp (setFlagSlot a old set on : Setup ρ Bool) Q E e m := by
  rw [setFlagSlot, wp_call, wp_bind, wp_get, wp_bind]
  exact (wp_when _ _).2 ⟨fun _ => hfail _, fun hu => h (not_not.1 hu)⟩

/-- a directive that only writes to the configuration, outside its rules -/
theorem Adds.of_setConf {pre o : Own} {c : Conf} (hl : Laid m) (hpre : Holds pre m a) (hno : o.rules = [])
    (hrules : c.rules = (m.confs a).rules) (hhas : c.hasRules = (m.confs a).hasRules)
    (henable : c.enable = flagOf (pre.add o).enable)
    (hdelay : c.delayResponseHeaders = flagOf (pre.add o).delayResponseHeaders)
    (hid : c.transactionId = (pre.add o).transactionId.map some) (hwaf : c.waf = (m.confs a).waf)
    (howner : c.wafOwner = (m.confs a).wafOwner) : Adds a pre o 0 m (m.setConf a c) := by
  have hself : (m.setConf a c).confs a = c := Function.update_self _ _ _
  have hadd : (pre.add o).rules = pre.rules := by rw [Own.add, hno, List.append_nil]
  refine ⟨⟨hl.main, hl.empty, hl.count, fun i hi => ?_⟩,
    ⟨le_rfl, fun i _ hne => Function.update_of_ne hne _ _, fun _ _ _ => rfl, fun _ _ => rfl, rfl, rfl⟩, rfl, rfl, ?_⟩
  · by_cases hia : i = a
    · subst hia
      rw [hself, hrules, hl.own i hi]
    · exact (congrArg Conf.rules (Function.update_of_ne hia _ _)).trans (hl.own i hi)
  · refine ⟨?_, ?_, ?_, ?_, ?_, ?_, ?_⟩
    · rw [Memory.rulesOf, hself, hrules, hadd]
      exact hpre.rules
    · rw [hself, hhas, hadd]
      exact hpre.hasRules
    · rw [hself, henable]
    · rw [hself, hdelay]
    · rw [hself, hid]
    · rw [hself, hwaf, hpre.waf]
    · rw [hself, howner, hpre.wafOwner]

theorem storeRule_spec {pre : Own} (entry : RuleEntry) (count : MainConf → MainConf) (hl : Laid m)
    (ha : a < m.confCount) (hpre : Holds pre m a)
    (hcount : ∀ x : MainConf, (count x).rules = x.rules ∧ (count x).locConfs = x.locConfs ∧ (count x).waf = x.waf ∧
      (count x).rulesInline + (count x).rulesFile = x.rulesInline + x.rulesFile + 1)
    {Q : Bool → Memory → Prop} {E : ρ → Memory → Prop} (hfail : ∀ m', Q false m')
    (h : ∀ m', Adds a pre { rules := [entry] } 1 m m' → Q true m') :
    wp (storeRule a entry count : Setup ρ Bool) Q E e m := by
  rw [storeRule, wp_call, wp_bind, wp_get, wp_bind]
  refine arrayPush_spec (fun m' => ?_) fun n => ?_
  · rw [wp_bind]
    exact (wp_when _ _).2 ⟨fun _ => hfail _, fun hno => absurd rfl hno⟩
  rw [wp_bind]
  refine (wp_when _ _).2 ⟨fun hno => absurd hno (by decide), fun _ => ?_⟩
  rw [wp_bind]
  refine alloc_spec fun ok n' => ?_
  rw [wp_bind]
  refine (wp_when _ _).2 ⟨fun _ => hfail _, fun _ => ?_⟩
  rw [wp_bind, wp_modify, wp_pure]
  obtain ⟨h1, h2, h3, h4⟩ := hcount m.main
  have haddr := hl.own a ha
  refine h _ ⟨⟨h1.trans hl.main, ?_, hl.count, fun i hi => ?_⟩, ⟨le_rfl, fun i _ hne => ?_, fun i _ hne => ?_,
    fun _ _ => rfl, h2, h3⟩, rfl, h4, ?_⟩
  · have hne : (0 : ℕ) ≠ (m.confs a).rules := by omega
    exact (Function.update_of_ne hne _ _).trans hl.empty
  · by_cases hia : i = a
    · subst hia
      change (Function.update m.confs i _ i).rules = _
      rw [Function.update_self]
      exact haddr
    · change (Function.update m.confs a _ i).rules = _
      rw [Function.update_of_ne hia, hl.own i hi]
  · exact Function.update_of_ne hne _ _
  · have hne' : i + 1 ≠ (m.confs a).rules := by omega
    exact Function.update_of_ne hne' _ _
  · have hr := hpre.rules
    rw [Memory.rulesOf] at hr
    have hself : Function.update m.confs a { m.confs a with hasRules := true } a =
      { m.confs a with hasRules := true } :=
      Function.update_self _ _ _
    refine ⟨?_, ?_, ?_, ?_, ?_, ?_, ?_⟩
    · change Function.update m.arrays (m.confs a).rules (m.arrays (m.confs a).rules ++ [entry])
        (Function.update m.confs a { m.confs a with hasRules := true } a).rules = pre.rules ++ [entry]
      rw [hself, Function.update_self, hr]
    · exact ⟨fun _ => List.append_ne_nil_of_right_ne_nil _ (List.cons_ne_nil _ _),
        fun _ => congrArg Conf.hasRules hself⟩
    · exact (congrArg Conf.enable hself).trans hpre.enable
    · exact (congrArg Conf.delayResponseHeaders hself).trans hpre.delay
    · exact (congrArg Conf.transactionId hself).trans hpre.transactionId
    · exact (congrArg Conf.waf hself).trans hpre.waf
    · exact (congrArg Conf.wafOwner hself).trans hpre.wafOwner

/-- **One directive.** If it is accepted the block holds it after what it held, and nothing else has changed. -/
theorem Directive.set_spec {pre : Own} (d : Directive) (hl : Laid m) (ha : a < m.confCount) (hpre : Holds pre m a)
    {Q : Bool → Memory → Prop} {E : ρ → Memory → Prop} (hfail : ∀ m', Q false m')
    (h : ∀ m', Adds a pre (d.own e) d.ruleCount m m' → Q true m') : wp (d.set a : Setup ρ Bool) Q E e m := by
  cases d with
  | coraza on =>
    rw [Directive.set]
    refine setFlagSlot_spec hfail fun hu => h _ ?_
    exact .of_setConf hl hpre rfl rfl rfl rfl hpre.delay hpre.transactionId rfl rfl
  | corazaDelayResponseHeaders on =>
    rw [Directive.set]
    refine setFlagSlot_spec hfail fun hu => h _ ?_
    exact .of_setConf hl hpre rfl rfl rfl hpre.enable rfl hpre.transactionId rfl rfl
  | corazaTransactionId value =>
    rw [Directive.set, wp_call, wp_bind, wp_ask, wp_bind]
    refine (wp_when _ _).2 ⟨fun _ => hfail _, fun _ => ?_⟩
    rw [wp_bind]
    refine alloc_spec fun ok n => ?_
    rw [wp_bind]
    refine (wp_when _ _).2 ⟨fun _ => hfail _, fun _ => h _ ?_⟩
    have hadds : Adds a pre (Directive.own e (.corazaTransactionId value)) 0 { m with allocs := n }
        (Memory.setConf { m with allocs := n } a { m.confs a with transactionId := some (some value) }) :=
      .of_setConf ⟨hl.main, hl.empty, hl.count, hl.own⟩ ⟨hpre.rules, hpre.hasRules, hpre.enable, hpre.delay,
        hpre.transactionId, hpre.waf, hpre.wafOwner⟩ rfl rfl rfl hpre.enable hpre.delay rfl rfl rfl
    exact ⟨hadds.laid, ⟨le_rfl, hadds.only.confs, hadds.only.arrays, hadds.only.parents, rfl, rfl⟩, rfl, rfl,
      hadds.holds⟩
  | corazaRules text =>
    rw [Directive.set, wp_call, wp_bind]
    refine (wp_when _ _).2 ⟨fun _ => hfail _, fun _ => ?_⟩
    refine storeRule_spec ⟨.inline, text⟩ (fun main => { main with rulesInline := main.rulesInline + 1 })
      hl ha hpre ?_ hfail h
    exact fun _ => ⟨rfl, rfl, rfl, Nat.add_right_comm _ _ _⟩
  | corazaRulesFile path =>
    rw [Directive.set, wp_call, wp_bind, wp_ask]
    cases hfile : checkRulesFile e path with
    | none => exact hfail _
    | some full =>
      have hfull : (e.fullName path).getD path = full := by
        unfold checkRulesFile at hfile
        cases hn : e.fullName path with
        | none =>
          rw [hn] at hfile
          cases hfile
        | some f =>
          rw [hn] at hfile
          simp only at hfile
          split at hfile
          · exact Option.some.inj hfile
          · split at hfile
            · cases hfile
            · exact Option.some.inj hfile
      rw [Directive.own, hfull] at h
      refine storeRule_spec ⟨.file, full⟩ (fun main => { main with rulesFile := main.rulesFile + 1 })
        hl ha hpre ?_ hfail h
      exact fun _ => ⟨rfl, rfl, rfl, rfl⟩

/-! ## The whole file -/

/-- a new configuration: nothing that was there has changed -/
theorem createConf_spec (parent : ℕ) (hl : Laid m) {Q : Option ℕ → Memory → Prop} {E : ρ → Memory → Prop}
    (hfail : ∀ m', Q none m')
    (h : ∀ m', Laid m' → Only m.confCount m m' → m'.confCount = m.confCount + 1 → m'.parents m.confCount = parent →
      m'.ruleCount = m.ruleCount → Holds {} m' m.confCount → Q (some m.confCount) m') :
        wp (createConf parent : Setup ρ (Option ℕ)) Q E e m := by
  rw [createConf, wp_call, wp_bind]
  refine alloc_spec fun ok n => ?_
  rw [wp_bind]
  refine (wp_when _ _).2 ⟨fun _ => hfail _, fun _ => ?_⟩
  rw [wp_bind]
  refine arrayCreate_spec (fun m' => hfail _) fun n' => ?_
  have hcount := hl.count
  have hself : ∀ c : Conf, Function.update m.confs m.confCount c m.confCount = c := fun c => Function.update_self _ _ _
  refine h _ ⟨hl.main, ?_, congrArg (· + 1) hcount, fun i hi => ?_⟩
    ⟨Nat.le_succ _, fun i _ hne => Function.update_of_ne hne _ _, fun i hi _ => ?_,
      fun i hi => Function.update_of_ne (Nat.ne_of_lt hi) _ _, rfl, rfl⟩ rfl (Function.update_self _ _ _) rfl ?_
  · have hne : (0 : ℕ) ≠ m.arrayCount := by omega
    exact (Function.update_of_ne hne _ _).trans hl.empty
  · rcases Nat.lt_succ_iff_lt_or_eq.1 hi with hlt | rfl
    · exact (congrArg Conf.rules (Function.update_of_ne (Nat.ne_of_lt hlt) _ _)).trans (hl.own i hlt)
    · exact (congrArg Conf.rules (hself _)).trans hcount
  · have hne : i + 1 ≠ m.arrayCount := by omega
    exact Function.update_of_ne hne _ _
  · refine ⟨?_, ?_, congrArg Conf.enable (hself _), congrArg Conf.delayResponseHeaders (hself _),
      congrArg Conf.transactionId (hself _), congrArg Conf.waf (hself _), congrArg Conf.wafOwner (hself _)⟩
    · change Function.update m.arrays m.arrayCount []
        (Function.update m.confs m.confCount { rules := m.arrayCount } m.confCount).rules = []
      rw [hself, Function.update_self]
    · have hno : (Function.update m.confs m.confCount { rules := m.arrayCount } m.confCount).hasRules = false :=
        congrArg Conf.hasRules (hself _)
      exact ⟨fun hyes => absurd (hyes.symm.trans hno) (by decide), fun hne => absurd rfl hne⟩

/-- the rest `body` of the block at `a` has been read, behind the directives `pre`; `chain` is the block's -/
structure ReadsAs (e : Env) (a : ℕ) (pre : Own) (chain : List Own) (body : Body) (m m' : Memory) : Prop where
  laid : Laid m'
  only : Only a m m'
  count : m'.confCount = m.confCount + (body.blocks e a m.confCount chain).length
  counted : m'.ruleCount = m.ruleCount + body.ruleCount
  holds : Holds (pre.add (body.own e)) m' a
  blocks : ∀ j b, (body.blocks e a m.confCount chain)[j]? = some b → m'.parents (m.confCount + j) = b.parent ∧
    ∃ o, b.chain.getLast? = some o ∧ Holds o m' (m.confCount + j)

/-- a block that began and ended, and what follows it -/
theorem ReadsAs.block {pre : Own} {chain : List Own} {inner rest : Body} {m1 m2 m3 : Memory} (ha : a < m.confCount)
    (honly : Only m.confCount m m1) (hcount : m1.confCount = m.confCount + 1) (hcounted : m1.ruleCount = m.ruleCount)
    (hparent : m1.parents m.confCount = a)
    (hin : ReadsAs e m.confCount {} (chain ++ [inner.own e]) inner m1 m2) (hrest : ReadsAs e a pre chain rest m2 m3) :
    ReadsAs e a pre chain (.block inner rest) m m3 := by
  have hin2 := hin.blocks
  have hrest2 := hrest.blocks
  have hc2 := hin.count
  have hc3 := hrest.count
  rw [hcount] at hin2 hc2
  rw [hc2] at hrest2 hc3
  have hle : m.confCount ≤ m2.confCount := by omega
  set next := m.confCount
  set mine := chain ++ [inner.own e]
  set below := inner.blocks e next (next + 1) mine
  set behind := rest.blocks e a (next + 1 + below.length) chain
  have hblocks : Body.blocks e a next chain (.block inner rest) = ⟨a, mine⟩ :: below ++ behind := rfl
  refine ⟨hrest.laid, ?_, ?_, ?_, hrest.holds, fun j b hb => ?_⟩
  · -- nothing from before but the block itself has changed
    refine ⟨by omega, fun i hi hne => ?_, fun i hi hne => ?_, fun i hi => ?_, ?_, ?_⟩
    · have hne' : i ≠ next := Nat.ne_of_lt hi
      rw [hrest.only.confs i (by omega) hne, hin.only.confs i (by omega) hne', honly.confs i hi hne']
    · have hne' : i ≠ next := Nat.ne_of_lt hi
      rw [hrest.only.arrays i (by omega) hne, hin.only.arrays i (by omega) hne', honly.arrays i hi hne']
    · rw [hrest.only.parents i (by omega), hin.only.parents i (by omega), honly.parents i hi]
    · rw [hrest.only.locConfs, hin.only.locConfs, honly.locConfs]
    · rw [hrest.only.waf, hin.only.waf, honly.waf]
  · rw [hblocks, List.length_append, List.length_cons]
    omega
  · rw [hrest.counted, hin.counted, hcounted, Nat.add_assoc]
    rfl
  · rw [hblocks] at hb
    by_cases hj : j < (⟨a, mine⟩ :: below : List Block).length
    · rw [List.getElem?_append_left hj] at hb
      rw [List.length_cons] at hj
      have hlt : next + j < m2.confCount := by omega
      have hne : next + j ≠ a := by omega
      -- what the block left is still there when the rest has been read
      suffices h : m2.parents (next + j) = b.parent ∧ ∃ o, b.chain.getLast? = some o ∧ Holds o m2 (next + j) by
        obtain ⟨hp, o, ho, hh⟩ := h
        exact ⟨(hrest.only.parents _ hlt).trans hp, o, ho, hrest.only.holds hin.laid hlt hne hh⟩
      cases j with
      | zero =>
        obtain rfl := Option.some.inj hb
        refine ⟨(hin.only.parents _ (by omega)).trans hparent, inner.own e, List.getLast?_concat, ?_⟩
        have hh := hin.holds
        rw [Own.empty_add] at hh
        exact hh
      | succ j =>
        rw [List.getElem?_cons_succ] at hb
        have hb' := hin2 j b hb
        rwa [Nat.add_assoc, Nat.add_comm 1 j] at hb'
    · rw [List.getElem?_append_right (not_lt.1 hj)] at hb
      rw [List.length_cons] at hj hb
      have hb' := hrest2 _ b hb
      have haddr : next + 1 + below.length + (j - (below.length + 1)) = next + j := by omega
      rwa [haddr] at hb'

/-- **Reading.** By induction on what is left of the block; every way out but the end is an error. -/
theorem parse_spec (a : ℕ) (body : Body) (pre : Own) (chain : List Own) (hl : Laid m) (ha : a < m.confCount)
    (hpre : Holds pre m a) :
    wp (parse a body) (fun _ m' => ReadsAs e a pre chain body m m') (fun ok _ => ok = false) e m := by
  induction body generalizing a pre chain m with
  | done =>
    refine ⟨hl, .refl a m, rfl, rfl, ?_, fun j b hb => ?_⟩
    · rw [Body.own, Own.add_empty]
      exact hpre
    · rw [Body.blocks, List.getElem?_nil] at hb
      cases hb
  | directive d rest ih =>
    rw [parse, wp_bind]
    refine d.set_spec hl ha hpre (fun m' => ?_) fun m' hm' => ?_
    · rw [wp_bind]
      exact (wp_when _ _).2 ⟨fun _ => rfl, fun hno => absurd rfl hno⟩
    rw [wp_bind]
    refine (wp_when _ _).2 ⟨fun hno => absurd hno (by decide), fun _ => ?_⟩
    refine wp_mono (ih a (pre.add (d.own e)) chain hm'.laid (by rw [hm'.count]; exact ha) hm'.holds)
      (fun _ m'' h => ?_) (fun _ _ h => h)
    have hb : ∀ c n, Body.blocks e a n c (.directive d rest) = rest.blocks e a n c := fun _ _ => rfl
    refine ⟨h.laid, hm'.only.trans h.only, ?_, ?_, ?_, ?_⟩
    · rw [hb, h.count, hm'.count]
    · rw [h.counted, hm'.counted, Nat.add_assoc]
      rfl
    · rw [Body.own, ← Own.add_assoc]
      exact h.holds
    · rw [hb, ← hm'.count]
      exact h.blocks
  | block inner rest ihin ihrest =>
    rw [parse, wp_bind]
    refine createConf_spec a hl (fun m' => rfl) fun m1 hl1 honly hcount hparent hcounted hempty => ?_
    refine (wp_bind _ _).2 (wp_mono (ihin m.confCount {} (chain ++ [inner.own e]) hl1 (by omega) hempty)
      (fun _ m2 h2 => ?_) (fun _ _ h => h))
    have hle : m.confCount < m2.confCount := by
      have h := h2.count
      omega
    have hpre2 : Holds pre m2 a :=
      h2.only.holds hl1 (by omega) (Nat.ne_of_lt ha) (honly.holds hl ha (Nat.ne_of_lt ha) hpre)
    refine wp_mono (ihrest a pre chain h2.laid (by omega) hpre2) (fun _ m3 h3 => ?_) (fun _ _ h => h)
    exact .block ha honly hcount hcounted hparent h2 h3

end CorazaNginx.Config
