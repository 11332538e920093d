/-
What the configurations are when nginx has merged them.

nginx merges every block into its parent's configuration, parents first (`TopDown`). `mergeConf_spec` is one merge;
`Merging`, the invariant of the run, says of the blocks merged so far that each holds what its chain of blocks says
(`Effective`) and of the others that they are as they were read. `configuration_inherits` is the result, for every file
and every such order; `merge_undisturbing` says that no step changes anything but the block it merges.
-/
import Mathlib.Tactic
import CorazaNginx.Config.Reading

namespace CorazaNginx.Config

open CorazaNginx.Core Prog

variable {ρ : Type} {e : Env} {m m' : Memory} {p c : ℕ} {http : Body} {order : List ℕ}

/-! ## What is inherited -/

/-- the last of these settings that is made -/
def nearest {α : Type} (l : List (Option α)) : Option α := l.foldl (fun found x => x <|> found) none

theorem nearest_concat {α : Type} (l : List (Option α)) (x : Option α) : nearest (l ++ [x]) = (x <|> nearest l) := by
  rw [nearest, List.foldl_append]
  rfl

theorem nearest_single {α : Type} (x : Option α) : nearest [x] = x := by
  cases x <;> rfl

/-- the rules of a chain of blocks, from the outermost on -/
def chainRules (chain : List Own) : List RuleEntry := chain.flatMap (·.rules)

/-- the configuration at `a` is what the chain of blocks down to it says -/
structure Effective (chain : List Own) (m : Memory) (a : ℕ) : Prop where
  rules : m.rulesOf a = chainRules chain
  hasRules : (m.confs a).hasRules = true ↔ chainRules chain ≠ []
  enable : (m.confs a).enable = flag ((nearest (chain.map (·.enable))).getD false)
  delay : (m.confs a).delayResponseHeaders = flag ((nearest (chain.map (·.delayResponseHeaders))).getD true)
  transactionId : (m.confs a).transactionId = some (nearest (chain.map (·.transactionId)))

/-- an order of blocks below `n`, without the http block at 0, in which parents come first -/
structure TopDown (parent : ℕ → ℕ) (n : ℕ) (order : List ℕ) : Prop where
  nodup : order.Nodup
  below : ∀ k ∈ order, 0 < k ∧ k < n
  parents : ∀ pre k post, order = pre ++ k :: post → parent k = 0 ∨ parent k ∈ pre

theorem TopDown.left {parent : ℕ → ℕ} {n : ℕ} {a b : List ℕ} (h : TopDown parent n (a ++ b)) : TopDown parent n a where
  nodup := (List.nodup_append.1 h.nodup).1
  below := fun k hk => h.below k (List.mem_append_left _ hk)
  parents := fun pre k post hl => h.parents pre k (post ++ b) (by rw [hl, List.append_assoc, List.cons_append])

/-- the block that the file puts block `k` into -/
def Body.parent (e : Env) (http : Body) (k : ℕ) : ℕ := ((http.allBlocks e)[k]?.map Block.parent).getD 0

/-- a block is in one that began before, whose chain it continues: by induction on the body -/
theorem blocks_parent (body : Body) (a next : ℕ) (chain : List Own) (j : ℕ) (b : Block)
    (hb : (body.blocks e a next chain)[j]? = some b) :
    (b.parent = a ∧ ∃ o, b.chain = chain ++ [o]) ∨
      ∃ i < j, b.parent = next + i ∧ ∃ pb, (body.blocks e a next chain)[i]? = some pb ∧
        ∃ o, b.chain = pb.chain ++ [o] := by
  induction body generalizing a next chain j with
  | done =>
    rw [Body.blocks, List.getElem?_nil] at hb
    cases hb
  | directive d rest ih => exact ih a next chain j hb
  | block inner rest ihin ihrest =>
    set mine := chain ++ [inner.own e]
    set below := inner.blocks e next (next + 1) mine
    set behind := rest.blocks e a (next + 1 + below.length) chain
    have hblocks : Body.blocks e a next chain (.block inner rest) = ⟨a, mine⟩ :: below ++ behind := rfl
    rw [hblocks] at hb ⊢
    by_cases hj : j < (⟨a, mine⟩ :: below : List Block).length
    · rw [List.getElem?_append_left hj] at hb
      cases j with
      | zero =>
        obtain rfl := Option.some.inj hb
        exact Or.inl ⟨rfl, inner.own e, rfl⟩
      | succ j =>
        rw [List.getElem?_cons_succ] at hb
        rw [List.length_cons] at hj
        right
        rcases ihin next (next + 1) mine j hb with ⟨hp, o, ho⟩ | ⟨i, hi, hp, pb, hpb, o, ho⟩
        · exact ⟨0, Nat.succ_pos _, hp, ⟨a, mine⟩, rfl, o, ho⟩
        · refine ⟨i + 1, Nat.succ_lt_succ hi, by omega, pb, ?_, o, ho⟩
          rw [List.getElem?_append_left (by rw [List.length_cons]; omega), List.getElem?_cons_succ]
          exact hpb
    · rw [List.getElem?_append_right (not_lt.1 hj)] at hb
      rw [List.length_cons] at hj hb
      rcases ihrest a (next + 1 + below.length) chain _ hb with h | ⟨i, hi, hp, pb, hpb, o, ho⟩
      · exact Or.inl h
      · refine Or.inr ⟨below.length + 1 + i, by omega, by omega, pb, ?_, o, ho⟩
        rw [List.getElem?_append_right (by rw [List.length_cons]; omega), List.length_cons]
        have hidx : below.length + 1 + i - (below.length + 1) = i := by omega
        rw [hidx]
        exact hpb

theorem allBlocks_parent {k : ℕ} {b : Block} (hk : k ≠ 0) (hb : (http.allBlocks e)[k]? = some b) :
    b.parent < k ∧ ∃ pb, (http.allBlocks e)[b.parent]? = some pb ∧ ∃ o, b.chain = pb.chain ++ [o] := by
  obtain ⟨j, rfl⟩ := Nat.exists_eq_succ_of_ne_zero hk
  rw [Body.allBlocks, List.getElem?_cons_succ] at hb
  rcases blocks_parent http 0 1 [http.own e] j b hb with ⟨hp, o, ho⟩ | ⟨i, hi, hp, pb, hpb, o, ho⟩
  · rw [hp]
    exact ⟨Nat.succ_pos _, _, rfl, o, ho⟩
  · have hsucc : b.parent = i + 1 := by omega
    rw [hsucc]
    refine ⟨by omega, pb, ?_, o, ho⟩
    rw [Body.allBlocks, List.getElem?_cons_succ]
    exact hpb

/-! ## Reading the file -/

/-- what is in memory when the file has been read -/
structure ReadFile (e : Env) (http : Body) (m : Memory) : Prop where
  laid : Laid m
  count : m.confCount = (http.allBlocks e).length
  blocks : ∀ k b, (http.allBlocks e)[k]? = some b →
    m.parents k = b.parent ∧ ∃ o, b.chain.getLast? = some o ∧ Holds o m k
  locConfs : m.main.locConfs = []
  waf : m.main.waf = 0
  counted : m.ruleCount = http.ruleCount

theorem createMainConf_spec {Q : Bool → Memory → Prop} {E : ρ → Memory → Prop} (hfail : ∀ m', Q false m')
    (h : ∀ m, Laid m → m.confCount = 0 → m.main.locConfs = [] → m.main.waf = 0 → m.ruleCount = 0 → Q true m) :
    wp (createMainConf : Setup ρ Bool) Q E e .empty := by
  rw [createMainConf, wp_call, wp_bind]
  refine alloc_spec fun ok n => ?_
  rw [wp_bind]
  refine (wp_when _ _).2 ⟨fun _ => hfail _, fun _ => ?_⟩
  rw [wp_bind]
  refine arrayCreate_spec (fun m' => hfail _) fun n' => ?_
  rw [wp_bind]
  refine alloc_spec fun ok' n'' => ?_
  rw [wp_bind]
  refine (wp_when _ _).2 ⟨fun _ => hfail _, fun _ => ?_⟩
  rw [wp_bind, wp_modify, wp_pure]
  refine h _ ⟨rfl, ?_, rfl, nofun⟩ rfl rfl rfl rfl
  change Function.update (fun _ => ([] : List RuleEntry)) 0 [] 0 = []
  exact Function.update_self _ _ _

/-- **The file is read**, or there is an error. -/
theorem readFile_spec : wp (readFile http) (fun _ m => ReadFile e http m) (fun ok _ => ok = false) e .empty := by
  rw [readFile, wp_bind]
  refine createMainConf_spec (fun m' => ?_) fun m1 hl1 hc1 hlc1 hw1 hn1 => ?_
  · rw [wp_bind]
    exact (wp_when _ _).2 ⟨fun _ => rfl, fun hno => absurd rfl hno⟩
  rw [wp_bind]
  refine (wp_when _ _).2 ⟨fun hno => absurd hno (by decide), fun _ => ?_⟩
  rw [wp_bind]
  refine createConf_spec 0 hl1 (fun m' => rfl) fun m2 hl2 honly hc2 hp2 hn2 hempty => ?_
  rw [hc1] at hc2 hp2 hempty ⊢
  refine wp_mono (parse_spec 0 http {} [http.own e] hl2 (by omega) hempty) (fun _ m3 h3 => ?_) (fun _ _ h => h)
  refine ⟨h3.laid, ?_, fun k b hb => ?_, ?_, ?_, ?_⟩
  · rw [h3.count, hc2, Body.allBlocks, List.length_cons, Nat.add_comm]
  · cases k with
    | zero =>
      obtain rfl := Option.some.inj hb
      refine ⟨(h3.only.parents 0 (by omega)).trans hp2, http.own e, rfl, ?_⟩
      have hh := h3.holds
      rw [Own.empty_add] at hh
      exact hh
    | succ j =>
      rw [Body.allBlocks, List.getElem?_cons_succ] at hb
      have hb' := h3.blocks j b (by rw [hc2]; exact hb)
      rwa [hc2, Nat.add_comm 1 j] at hb'
  · rw [h3.only.locConfs, honly.locConfs, hlc1]
  · rw [h3.only.waf, honly.waf, hw1]
  · rw [h3.counted, hn2, hn1, Nat.zero_add]

/-! ## One merge -/

/-- of what was there only the configuration at `c` may have changed, and no array has -/
structure Frame (c : ℕ) (m m' : Memory) : Prop where
  confs : ∀ i, i ≠ c → m'.confs i = m.confs i
  arrays : ∀ i < m.arrayCount, m'.arrays i = m.arrays i
  arrayCount : m.arrayCount ≤ m'.arrayCount
  parents : m'.parents = m.parents
  confCount : m'.confCount = m.confCount
  rules : m'.main.rules = m.main.rules
  waf : m'.main.waf = m.main.waf
  counted : m'.ruleCount = m.ruleCount

theorem Frame.refl (c : ℕ) (m : Memory) : Frame c m m :=
  ⟨fun _ _ => rfl, fun _ _ => rfl, le_rfl, rfl, rfl, rfl, rfl, rfl⟩

theorem Frame.trans {m'' : Memory} (h : Frame c m m') (h' : Frame c m' m'') : Frame c m m'' where
  confs := fun i hi => (h'.confs i hi).trans (h.confs i hi)
  arrays := fun i hi => (h'.arrays i (hi.trans_le h.arrayCount)).trans (h.arrays i hi)
  arrayCount := h.arrayCount.trans h'.arrayCount
  parents := h'.parents.trans h.parents
  confCount := h'.confCount.trans h.confCount
  rules := h'.rules.trans h.rules
  waf := h'.waf.trans h.waf
  counted := h'.counted.trans h.counted

theorem Frame.setConf (m : Memory) (c : ℕ) (x : Conf) : Frame c m (m.setConf c x) :=
  ⟨fun _ hi => Function.update_of_ne hi _ _, fun _ _ => rfl, le_rfl, rfl, rfl, rfl, rfl, rfl⟩

/-- what another block has is untouched -/
theorem Frame.rulesOf {i : ℕ} (h : Frame c m m') (hi : i ≠ c) (ha : (m.confs i).rules < m.arrayCount) :
    m'.rulesOf i = m.rulesOf i := by
  rw [Memory.rulesOf, h.confs i hi, h.arrays _ ha]
  rfl

/-- has_rules says whether there are rules -/
def Flagged (m : Memory) (a : ℕ) : Prop := (m.confs a).hasRules = true ↔ m.rulesOf a ≠ []

/-- the rules have been merged -/
structure MergedRules (p c : ℕ) (m m' : Memory) : Prop where
  frame : Frame c m m'
  locConfs : m'.main.locConfs = m.main.locConfs
  address : (m'.confs c).rules < m'.arrayCount
  rules : m'.rulesOf c = m.rulesOf p ++ m.rulesOf c
  flagged : Flagged m p → Flagged m c → Flagged m' c
  keep : m'.confs c = { m.confs c with rules := (m'.confs c).rules, hasRules := (m'.confs c).hasRules }

theorem mergeRules_spec (hp : (m.confs p).rules < m.arrayCount) (hc : (m.confs c).rules < m.arrayCount)
    {Q : Bool → Memory → Prop} {E : ρ → Memory → Prop} (hfail : ∀ m', Frame c m m' → Q false m')
    (h : ∀ m', MergedRules p c m m' → Q true m') : wp (mergeRules p c : Setup ρ Bool) Q E e m := by
  rw [mergeRules, wp_call, wp_bind, wp_get, wp_bind]
  refine (wp_when _ _).2 ⟨fun hpr => (wp_ite _ _ _).2 ⟨fun hcr => ?_, fun hcr => ?_⟩, fun hpr => ?_⟩
  · -- both have rules: a new array, the parent's first
    have hframe : ∀ (f : ℕ → List RuleEntry) k n, (∀ i < m.arrayCount, f i = m.arrays i) → m.arrayCount ≤ k →
        Frame c m { m with arrays := f, arrayCount := k, allocs := n } :=
      fun f k n hf hk => ⟨fun _ _ => rfl, hf, hk, rfl, rfl, rfl, rfl, rfl⟩
    have hold : ∀ i < m.arrayCount, ∀ (f : ℕ → List RuleEntry) l, Function.update f m.arrayCount l i = f i :=
      fun i hi f l => Function.update_of_ne (Nat.ne_of_lt hi) _ _
    rw [wp_bind]
    refine arrayCreate_spec (fun n => hfail _ (hframe _ _ _ (fun _ _ => rfl) le_rfl)) fun n => ?_
    rw [wp_bind]
    refine arrayPush_spec (fun n' => ?_) fun n' => ?_
    · rw [wp_bind]
      exact (wp_when _ _).2 ⟨fun _ => hfail _ (hframe _ _ _ (fun i hi => hold i hi _ _) (Nat.le_succ _)),
        fun hno => absurd rfl hno⟩
    rw [wp_bind]
    refine (wp_when _ _).2 ⟨fun hno => absurd hno (by decide), fun _ => ?_⟩
    rw [wp_bind]
    refine arrayPush_spec (fun n'' => ?_) fun n'' => ?_
    · rw [wp_bind]
      refine (wp_when _ _).2 ⟨fun _ => hfail _ (hframe _ _ _ (fun i hi => ?_) (Nat.le_succ _)),
        fun hno => absurd rfl hno⟩
      exact (hold i hi _ _).trans (hold i hi _ _)
    rw [wp_bind]
    refine (wp_when _ _).2 ⟨fun hno => absurd hno (by decide), fun _ => ?_⟩
    rw [wp_modify, wp_pure]
    set x : Conf := { m.confs c with rules := m.arrayCount, hasRules := true }
    set f := Function.update m.arrays m.arrayCount [] with hf
    set f1 := Function.update f m.arrayCount (f m.arrayCount ++ m.rulesOf p) with hf1
    set f2 := Function.update f1 m.arrayCount (f1 m.arrayCount ++ m.rulesOf c) with hf2
    have hlist : f2 m.arrayCount = m.rulesOf p ++ m.rulesOf c := by
      rw [hf2, Function.update_self, hf1, Function.update_self, hf, Function.update_self, List.nil_append]
    have hbase :=
      hframe f2 (m.arrayCount + 1) n'' (fun i hi => ((hold i hi _ _).trans (hold i hi _ _)).trans (hold i hi _ _))
      (Nat.le_succ _)
    have hself : ∀ m1 : Memory, (m1.setConf c x).confs c = x := fun m1 => Function.update_self _ _ _
    set m1 : Memory := { m with arrays := f2, arrayCount := m.arrayCount + 1, allocs := n'' }
    have hrules : (m1.setConf c x).rulesOf c = m.rulesOf p ++ m.rulesOf c := by
      rw [Memory.rulesOf, hself]
      exact hlist
    refine h (m1.setConf c x) ⟨hbase.trans (.setConf m1 c x), rfl, ?_, hrules, fun _ _ => ?_, ?_⟩
    · rw [hself]
      exact Nat.lt_succ_self _
    · rw [Flagged, hrules, hself]
      exact ⟨fun _ => List.append_ne_nil_of_left_ne_nil hpr _, fun _ => rfl⟩
    · rw [hself]
  · -- the child shares its parent's array
    have hcr' := not_not.1 hcr
    set x : Conf :=
      { m.confs c with rules := (m.confs p).rules, hasRules := (m.confs c).hasRules || (m.confs p).hasRules }
    have hself : (m.setConf c x).confs c = x := Function.update_self _ _ _
    have hrules : (m.setConf c x).rulesOf c = m.rulesOf p := by
      rw [Memory.rulesOf, hself]
      rfl
    rw [wp_modify, wp_pure]
    refine h _ ⟨.setConf m c x, rfl, ?_, ?_, fun hfp _ => ?_, ?_⟩
    · rw [hself]
      exact hp
    · rw [hrules, hcr', List.append_nil]
    · rw [Flagged, hrules, hself]
      have hyes : (m.confs p).hasRules = true := hfp.2 hpr
      exact ⟨fun _ => hpr, fun _ => by simp [x, hyes]⟩
    · rw [hself]
  · -- the child keeps its own
    have hpr' := not_not.1 hpr
    rw [wp_pure]
    exact h _ ⟨.refl c m, rfl, hc, by rw [hpr', List.nil_append], fun _ hf => hf, rfl⟩

/-- the configuration at `c` has been merged with its parent's and recorded -/
structure Merged (p c : ℕ) (m m' : Memory) : Prop where
  frame : Frame c m m'
  locConfs : m'.main.locConfs = m.main.locConfs ++ [c]
  address : (m'.confs c).rules < m'.arrayCount
  rules : m'.rulesOf c = m.rulesOf p ++ m.rulesOf c
  flagged : Flagged m p → Flagged m c → Flagged m' c
  enable : (m'.confs c).enable = mergeValue (m.confs c).enable (m.confs p).enable 0
  delay : (m'.confs c).delayResponseHeaders =
    mergeValue (m.confs c).delayResponseHeaders (m.confs p).delayResponseHeaders 1
  transactionId : (m'.confs c).transactionId = mergePtr (m.confs c).transactionId (m.confs p).transactionId
  waf : (m'.confs c).waf = (m.confs c).waf
  wafOwner : (m'.confs c).wafOwner = (m.confs c).wafOwner

/-- **One merge.** Whatever comes of it, nothing but the configuration at `c` has changed. -/
theorem mergeConf_spec (hne : p ≠ c) (hp : (m.confs p).rules < m.arrayCount) (hc : (m.confs c).rules < m.arrayCount)
    {Q : Bool → Memory → Prop} {E : ρ → Memory → Prop} (hfail : ∀ m', Frame c m m' → Q false m')
    (h : ∀ m', Merged p c m m' → Q true m') : wp (mergeConf p c : Setup ρ Bool) Q E e m := by
  rw [mergeConf, wp_call, wp_bind, wp_modify]
  set x : Conf := { m.confs c with
    enable := mergeValue (m.confs c).enable (m.confs p).enable 0
    delayResponseHeaders := mergeValue (m.confs c).delayResponseHeaders (m.confs p).delayResponseHeaders 1
    transactionId := mergePtr (m.confs c).transactionId (m.confs p).transactionId }
  set m1 := m.setConf c x
  have hf1 : Frame c m m1 := .setConf m c x
  have hcc : m1.confs c = x := Function.update_self _ _ _
  have hpp : m1.confs p = m.confs p := hf1.confs p hne
  have hrp : m1.rulesOf p = m.rulesOf p := hf1.rulesOf hne hp
  have hrc : m1.rulesOf c = m.rulesOf c := by
    rw [Memory.rulesOf, hcc]
    rfl
  have hflagp : Flagged m p → Flagged m1 p := fun hf => by rwa [Flagged, hpp, hrp]
  have hflagc : Flagged m c → Flagged m1 c := fun hf => by rwa [Flagged, hcc, hrc]
  rw [wp_bind]
  refine mergeRules_spec (by rw [hpp]; exact hp) (by rw [hcc]; exact hc) (fun m2 hf2 => ?_) fun m2 hm2 => ?_
  · rw [wp_bind]
    exact (wp_when _ _).2 ⟨fun _ => hfail _ (hf1.trans hf2), fun hno => absurd rfl hno⟩
  rw [wp_bind]
  refine (wp_when _ _).2 ⟨fun hno => absurd hno (by decide), fun _ => ?_⟩
  have hf2 := hf1.trans hm2.frame
  have hkeep := hm2.keep
  rw [hcc] at hkeep
  have henable : (m2.confs c).enable = x.enable := by rw [hkeep]
  have hdelay : (m2.confs c).delayResponseHeaders = x.delayResponseHeaders := by rw [hkeep]
  have hid : (m2.confs c).transactionId = x.transactionId := by rw [hkeep]
  have hwaf : (m2.confs c).waf = x.waf := by rw [hkeep]
  have howner : (m2.confs c).wafOwner = x.wafOwner := by rw [hkeep]
  rw [wp_bind]
  refine alloc_spec fun ok n => ?_
  rw [wp_bind]
  refine (wp_when _ _).2 ⟨fun _ => hfail _ ?_, fun _ => ?_⟩
  · exact ⟨hf2.confs, hf2.arrays, hf2.arrayCount, hf2.parents, hf2.confCount, hf2.rules, hf2.waf, hf2.counted⟩
  rw [wp_bind, wp_modify, wp_pure]
  refine h _ ⟨⟨hf2.confs, hf2.arrays, hf2.arrayCount, hf2.parents, hf2.confCount, hf2.rules, hf2.waf, hf2.counted⟩, ?_,
    hm2.address, ?_, fun hp hc => hm2.flagged (hflagp hp) (hflagc hc), henable, hdelay, hid, hwaf, howner⟩
  · exact congrArg (· ++ [c]) hm2.locConfs
  · exact hm2.rules.trans (by rw [hrp, hrc])

/-! ## The flags -/

/-- a flag as a parent may hold it: the http block's is not merged, so it may be unset -/
def Settles (x : ℤ) (v : Option Bool) (default : Bool) : Prop := x = flagOf v ∨ x = flag (v.getD default)

theorem mergeValue_eq {x : ℤ} {v own : Option Bool} {default : Bool} (h : Settles x v default) :
    mergeValue (flagOf own) x (flag default) = flag ((own <|> v).getD default) := by
  have hset : ∀ on, flag on ≠ confUnset := fun on => by cases on <;> decide
  cases own with
  | some on => exact if_neg (hset on)
  | none =>
    rcases h with rfl | rfl
    · cases v with
      | none => rfl
      | some on => exact if_neg (hset on)
    · exact if_neg (hset _)

theorem mergePtr_eq (own : Option Bytes) (x : Option (Option Bytes)) (v : Option Bytes)
    (h : x = v.map some ∨ x = some v) :
    mergePtr (own.map some) x = some (own <|> v) := by
  rcases h with rfl | rfl <;> cases own <;> cases v <;> rfl

/-- what a parent may hold for its chain -/
structure Ready (chain : List Own) (m : Memory) (a : ℕ) : Prop where
  rules : m.rulesOf a = chainRules chain
  flagged : Flagged m a
  enable : Settles (m.confs a).enable (nearest (chain.map (·.enable))) false
  delay : Settles (m.confs a).delayResponseHeaders (nearest (chain.map (·.delayResponseHeaders))) true
  transactionId : (m.confs a).transactionId = (nearest (chain.map (·.transactionId))).map some ∨
    (m.confs a).transactionId = some (nearest (chain.map (·.transactionId)))

theorem Effective.ready {chain : List Own} {a : ℕ} (h : Effective chain m a) : Ready chain m a where
  rules := h.rules
  flagged := by rw [Flagged, h.rules]; exact h.hasRules
  enable := Or.inr h.enable
  delay := Or.inr h.delay
  transactionId := Or.inr h.transactionId

/-- the http block is not merged -/
theorem Holds.ready {o : Own} {a : ℕ} (h : Holds o m a) : Ready [o] m a where
  rules := by rw [h.rules, chainRules, List.flatMap_singleton]
  flagged := by rw [Flagged, h.rules]; exact h.hasRules
  enable := Or.inl (h.enable.trans (congrArg flagOf (nearest_single _).symm))
  delay := Or.inl (h.delay.trans (congrArg flagOf (nearest_single _).symm))
  transactionId := Or.inl (h.transactionId.trans (congrArg (Option.map some) (nearest_single _).symm))

/-- merging a block that holds its own directives with a ready parent makes it what its chain says -/
theorem Merged.effective {chain : List Own} {o : Own} (h : Merged p c m m') (hp : Ready chain m p) (hc : Holds o m c) :
    Effective (chain ++ [o]) m' c := by
  have hrules : m'.rulesOf c = chainRules (chain ++ [o]) := by
    rw [h.rules, hp.rules, hc.rules, chainRules, chainRules, List.flatMap_append, List.flatMap_singleton]
  refine ⟨hrules, ?_, ?_, ?_, ?_⟩
  · rw [← hrules]
    exact h.flagged hp.flagged (by rw [Flagged, hc.rules]; exact hc.hasRules)
  · rw [h.enable, hc.enable, List.map_append, List.map_singleton, nearest_concat]
    exact mergeValue_eq hp.enable
  · rw [h.delay, hc.delay, List.map_append, List.map_singleton, nearest_concat]
    exact mergeValue_eq hp.delay
  · rw [h.transactionId, hc.transactionId, List.map_append, List.map_singleton, nearest_concat]
    exact mergePtr_eq _ _ _ hp.transactionId

theorem Frame.holds {o : Own} {i : ℕ} (h : Frame c m m') (hi : i ≠ c) (ha : (m.confs i).rules < m.arrayCount)
    (ho : Holds o m i) : Holds o m' i := by
  have hc := h.confs i hi
  exact ⟨(h.rulesOf hi ha).trans ho.rules, by rw [hc]; exact ho.hasRules, by rw [hc]; exact ho.enable,
    by rw [hc]; exact ho.delay, by rw [hc]; exact ho.transactionId, by rw [hc]; exact ho.waf,
    by rw [hc]; exact ho.wafOwner⟩

theorem Frame.effective {chain : List Own} {i : ℕ} (h : Frame c m m') (hi : i ≠ c)
    (ha : (m.confs i).rules < m.arrayCount) (ho : Effective chain m i) : Effective chain m' i := by
  have hc := h.confs i hi
  exact ⟨(h.rulesOf hi ha).trans ho.rules, by rw [hc]; exact ho.hasRules, by rw [hc]; exact ho.enable,
    by rw [hc]; exact ho.delay, by rw [hc]; exact ho.transactionId⟩

/-! ## The run -/

/-- the blocks in `done` have been merged, the others are as they were read -/
structure Merging (e : Env) (http : Body) (done : List ℕ) (m : Memory) : Prop where
  count : m.confCount = (http.allBlocks e).length
  parents : ∀ k b, (http.allBlocks e)[k]? = some b → m.parents k = b.parent
  address : ∀ i < m.confCount, (m.confs i).rules < m.arrayCount
  mainAddress : m.main.rules < m.arrayCount
  mainRules : m.arrays m.main.rules = []
  mainWaf : m.main.waf = 0
  locConfs : m.main.locConfs = done
  pending : ∀ k b, (http.allBlocks e)[k]? = some b → k ∉ done → ∃ o, b.chain.getLast? = some o ∧ Holds o m k
  merged : ∀ k b, (http.allBlocks e)[k]? = some b → k ∈ done → Effective b.chain m k
  waf : ∀ i < m.confCount, (m.confs i).waf = 0 ∧ (m.confs i).wafOwner = false
  counted : m.ruleCount = http.ruleCount

theorem ReadFile.merging (h : ReadFile e http m) : Merging e http [] m := by
  have hlaid := h.laid
  have hcount := hlaid.count
  refine ⟨h.count, fun k b hb => (h.blocks k b hb).1, fun i hi => ?_, ?_, ?_, h.waf, h.locConfs,
    fun k b hb _ => (h.blocks k b hb).2, fun _ _ _ hk => absurd hk List.not_mem_nil, fun i hi => ?_, h.counted⟩
  · rw [hlaid.own i hi]
    omega
  · rw [hlaid.main]
    omega
  · rw [hlaid.main]
    exact hlaid.empty
  · rw [h.count] at hi
    obtain ⟨-, o, -, ho⟩ := h.blocks i _ (List.getElem?_eq_getElem hi)
    exact ⟨ho.waf, ho.wafOwner⟩

/-- what the next step finds: the parent ready, the block as it was read -/
theorem Merging.next {done : List ℕ} {b : Block} (h : Merging e http done m)
    (hb : (http.allBlocks e)[c]? = some b) (hc : c ≠ 0) (hnot : c ∉ done) (hroot : 0 ∉ done)
    (hp : b.parent = 0 ∨ b.parent ∈ done) :
    b.parent ≠ c ∧ b.parent < m.confCount ∧ c < m.confCount ∧
      ∃ chain o, b.chain = chain ++ [o] ∧ Ready chain m b.parent ∧ Holds o m c := by
  obtain ⟨hlt, pb, hpb, o, ho⟩ := allBlocks_parent hc hb
  have hcb : c < m.confCount := by
    rw [h.count]
    exact (List.getElem?_eq_some_iff.1 hb).1
  obtain ⟨o', ho', hholds⟩ := h.pending c b hb hnot
  rw [ho, List.getLast?_concat] at ho'
  obtain rfl := Option.some.inj ho'
  refine ⟨Nat.ne_of_lt hlt, by omega, hcb, pb.chain, o, ho, ?_, hholds⟩
  by_cases hin : b.parent ∈ done
  · exact (h.merged _ pb hpb hin).ready
  · -- the http block
    have hzero := hp.resolve_right hin
    rw [hzero] at hpb ⊢
    obtain rfl := Option.some.inj hpb
    obtain ⟨o'', ho'', hh⟩ := h.pending 0 _ hpb hroot
    obtain rfl := Option.some.inj ho''
    exact hh.ready

/-- one more block has been merged -/
theorem Merging.step {done : List ℕ} {b : Block} (h : Merging e http done m)
    (hb : (http.allBlocks e)[c]? = some b) (hc : c ≠ 0) (hnot : c ∉ done) (hroot : 0 ∉ done)
    (hp : b.parent = 0 ∨ b.parent ∈ done) (hm : Merged b.parent c m m') : Merging e http (done ++ [c]) m' := by
  obtain ⟨-, -, hcb, chain, o, hchain, hready, hholds⟩ := h.next hb hc hnot hroot hp
  have hf := hm.frame
  have haddr : ∀ i, i ≠ c → i < m.confCount → (m.confs i).rules < m.arrayCount := fun i _ hi => h.address i hi
  have hin : ∀ k x, (http.allBlocks e)[k]? = some x → k < m.confCount := fun k x hx => by
    rw [h.count]
    exact (List.getElem?_eq_some_iff.1 hx).1
  refine ⟨hf.confCount.trans h.count, fun k x hx => ?_, fun i hi => ?_, ?_, ?_, hf.waf.trans h.mainWaf, ?_,
    fun k x hx hk => ?_, fun k x hx hk => ?_, fun i hi => ?_, hf.counted.trans h.counted⟩
  · rw [hf.parents]
    exact h.parents k x hx
  · by_cases hic : i = c
    · rw [hic]
      exact hm.address
    · rw [hf.confs i hic]
      rw [hf.confCount] at hi
      exact (h.address i hi).trans_le hf.arrayCount
  · rw [hf.rules]
    exact h.mainAddress.trans_le hf.arrayCount
  · rw [hf.rules, hf.arrays _ h.mainAddress]
    exact h.mainRules
  · rw [hm.locConfs, h.locConfs]
  · rw [List.mem_append, not_or, List.mem_singleton] at hk
    obtain ⟨ox, hox, hx'⟩ := h.pending k x hx hk.1
    exact ⟨ox, hox, hf.holds hk.2 (h.address k (hin k x hx)) hx'⟩
  · by_cases hkc : k = c
    · subst hkc
      rw [hb] at hx
      obtain rfl := Option.some.inj hx
      rw [hchain]
      exact hm.effective hready hholds
    · have hk' := (List.mem_append.1 hk).resolve_right fun hs => hkc (List.mem_singleton.1 hs)
      exact hf.effective hkc (h.address k (hin k x hx)) (h.merged k x hx hk')
  · rw [hf.confCount] at hi
    by_cases hic : i = c
    · rw [hic, hm.waf, hm.wafOwner]
      exact h.waf c hcb
    · rw [hf.confs i hic]
      exact h.waf i hi

/-- one step of the run -/
def mergeStep (c : ℕ) : Setup Bool Unit := do
  when (!(← mergeConf ((← get).parents c) c)) do exit false

theorem mergeAll_eq (order : List ℕ) : mergeAll order = forEach order mergeStep := rfl

/-- **A step** merges its block or is an error; either way it changes nothing else. -/
theorem mergeStep_spec {done : List ℕ} (htop : TopDown (http.parent e) (http.allBlocks e).length (done ++ [c]))
    (h : Merging e http done m) :
    wp (mergeStep c) (fun _ m' => Merging e http (done ++ [c]) m' ∧ Frame c m m')
      (fun ok m' => ok = false ∧ Frame c m m')
      e m := by
  obtain ⟨hpos, hlt⟩ := htop.below c (by simp)
  have hb := List.getElem?_eq_getElem hlt
  set b := (http.allBlocks e)[c]
  have hnot : c ∉ done := by
    have hnd := htop.nodup
    rw [List.nodup_append] at hnd
    exact fun hin => hnd.2.2 c hin c (List.mem_singleton_self c) rfl
  have hroot : 0 ∉ done := fun hin => absurd (htop.below 0 (List.mem_append_left _ hin)).1 (by decide)
  have hparent : http.parent e c = b.parent := by rw [Body.parent, hb]; rfl
  have hp : b.parent = 0 ∨ b.parent ∈ done := by
    rw [← hparent]
    exact htop.parents done c [] rfl
  obtain ⟨hne, hpb, hcb, -⟩ := h.next hb (Nat.ne_of_gt hpos) hnot hroot hp
  rw [mergeStep, wp_bind, wp_get, wp_bind, h.parents c b hb]
  refine mergeConf_spec hne (h.address _ hpb) (h.address _ hcb) (fun m' hf => ?_) fun m' hm => ?_
  · exact (wp_when _ _).2 ⟨fun _ => ⟨rfl, hf⟩, fun hno => absurd rfl hno⟩
  · refine (wp_when _ _).2 ⟨fun hno => absurd hno (by decide), fun _ => ?_⟩
    exact ⟨h.step hb (Nat.ne_of_gt hpos) hnot hroot hp hm, hm.frame⟩

/-- **The run**, by induction on the blocks merged. -/
theorem mergeAll_spec (htop : TopDown (http.parent e) (http.allBlocks e).length order) (h : ReadFile e http m) :
    wp (mergeAll order) (fun _ => Merging e http order) (fun ok _ => ok = false) e m := by
  rw [mergeAll_eq]
  refine wp_forEach (Merging e http) order mergeStep h.merging (fun _ hm => hm) fun pre c post m' hl hm => ?_
  have htop' : TopDown (http.parent e) (http.allBlocks e).length (pre ++ [c]) := by
    rw [hl, List.append_cons] at htop
    exact htop.left
  exact wp_mono (mergeStep_spec htop' hm) (fun _ _ h => h.1) (fun _ _ h => h.1)

/-! ## The configuration -/

/-- the file is read and its blocks are merged in `order` -/
def merged (e : Env) (http : Body) (order : List ℕ) : Bool × Memory := (readAndMerge http order).run e .empty

/-- an order in which nginx merges the blocks of a file -/
structure MergeOrder (e : Env) (http : Body) (order : List ℕ) : Prop
    extends TopDown (http.parent e) (http.allBlocks e).length order where
  complete : ∀ k, 0 < k → k < (http.allBlocks e).length → k ∈ order

/-- a configuration without an error leaves what the run leaves -/
theorem merged_spec (htop : TopDown (http.parent e) (http.allBlocks e).length order)
    (hok : (merged e http order).1 = true) :
    Merging e http order (merged e http order).2 := by
  have hspec : wp (readAndMerge http order) (fun ok m => ok = true → Merging e http order m)
      (fun ok m => ok = true → Merging e http order m) e .empty := by
    rw [readAndMerge, wp_bind]
    refine wp_mono readFile_spec (fun _ m hm => ?_) (fun ok _ hno hyes => absurd (hno.symm.trans hyes) (by decide))
    rw [wp_bind]
    exact wp_mono (mergeAll_spec htop hm) (fun _ _ h _ => h)
      (fun ok _ hno hyes => absurd (hno.symm.trans hyes) (by decide))
  exact (wp_run (Q := fun ok m => ok = true → Merging e http order m) _).1 hspec hok

/-- the configuration when one more block has been merged -/
theorem merged_concat (pre : List ℕ) (c : ℕ) : merged e http (pre ++ [c]) = merged e http pre ∨
    ∃ m1 m2, readFile http e .empty = (.go (), m1) ∧ mergeAll pre e m1 = (.go (), m2) ∧ (merged e http pre).2 = m2 ∧
      (merged e http (pre ++ [c])).2 = (mergeStep c e m2).2 := by
  have hrun : ∀ l, merged e http l = Prog.run
      (Prog.bind (readFile http) fun _ => Prog.bind (mergeAll l) fun _ => pure true)
    e .empty := fun _ => rfl
  rw [hrun, hrun]
  unfold Prog.run Prog.bind
  rcases readFile http e .empty with ⟨⟨⟩ | r, m1⟩
  · dsimp only
    rw [mergeAll_eq (pre ++ [c]), forEach_concat, ← mergeAll_eq]
    rcases hpre : mergeAll pre e m1 with ⟨⟨⟩ | r, m2⟩
    · refine Or.inr ⟨m1, m2, rfl, hpre, rfl, ?_⟩
      dsimp only
      rcases mergeStep c e m2 with ⟨⟨⟩ | r, m3⟩ <;> rfl
    · exact Or.inl rfl
  · exact Or.inl rfl

/-- **A step disturbs nothing.** Merging one more block changes no other block's configuration and no other block's
rules, whatever comes of it. -/
theorem merge_undisturbing {pre : List ℕ} (htop : TopDown (http.parent e) (http.allBlocks e).length (pre ++ [c]))
    {i : ℕ} (hi : i ≠ c) (hib : i < (http.allBlocks e).length) :
    (merged e http (pre ++ [c])).2.confs i = (merged e http pre).2.confs i ∧
      (merged e http (pre ++ [c])).2.rulesOf i = (merged e http pre).2.rulesOf i := by
  have hconcat : merged e http (pre ++ [c]) = merged e http pre ∨ _ := merged_concat pre c
  rcases hconcat with h | ⟨m1, m2, h1, h2, hm2, hm3⟩
  · rw [h]
    exact ⟨rfl, rfl⟩
  · have hread : ReadFile e http m1 := by
      have h : wp (readFile http) (fun _ m => ReadFile e http m) (fun ok _ => ok = false) e .empty := readFile_spec
      rw [wp, h1] at h
      exact h
    have hpre : Merging e http pre m2 := by
      have h := mergeAll_spec htop.left hread
      rw [wp, h2] at h
      exact h
    have hframe : Frame c m2 (mergeStep c e m2).2 := by
      have h := mergeStep_spec htop hpre
      unfold wp at h
      rcases hs : mergeStep c e m2 with ⟨⟨⟩ | r, m3⟩
      · rw [hs] at h
        exact h.2
      · rw [hs] at h
        exact h.2
    rw [hm2, hm3]
    exact ⟨hframe.confs i hi, hframe.rulesOf hi (hpre.address i (by rw [hpre.count]; exact hib))⟩

/-- what a configuration without an error has come to -/
structure Inherits (e : Env) (http : Body) (order : List ℕ) : Prop where
  effective : ∀ k b, (http.allBlocks e)[k]? = some b → k ≠ 0 → Effective b.chain (merged e http order).2 k
  undisturbed : ∀ pre c post, order = pre ++ c :: post → ∀ i, i ≠ c → i < (http.allBlocks e).length →
    (merged e http (pre ++ [c])).2.confs i = (merged e http pre).2.confs i ∧
      (merged e http (pre ++ [c])).2.rulesOf i = (merged e http pre).2.rulesOf i
  recorded : ∀ k, (merged e http order).2.main.locConfs.count k =
    if 0 < k ∧ k < (http.allBlocks e).length then 1 else 0

/-- **Inheritance.** For every configuration file that is accepted, and every order in which parents are merged before
their blocks: each block has what its chain of blocks says, no merge changes another block, and each is recorded
once. -/
theorem configuration_inherits (e : Env) (http : Body) (order : List ℕ) (horder : MergeOrder e http order)
    (hok : (merged e http order).1 = true) : Inherits e http order := by
  have hm := merged_spec horder.toTopDown hok
  refine ⟨fun k b hb hk => ?_, fun pre c post hl i hi hib => ?_, fun k => ?_⟩
  · have hlt := (List.getElem?_eq_some_iff.1 hb).1
    exact hm.merged k b hb (horder.complete k (Nat.pos_of_ne_zero hk) hlt)
  · have htop := horder.toTopDown
    rw [hl, List.append_cons] at htop
    exact merge_undisturbing htop.left hi hib
  · rw [hm.locConfs]
    split_ifs with hk
    · exact List.count_eq_one_of_mem horder.nodup (horder.complete k hk.1 hk.2)
    · exact List.count_eq_zero_of_not_mem fun hin => hk (horder.below k hin)

/-- the blocks in the order they begin are such an order; it is nginx's own -/
theorem fileOrder_mergeOrder (e : Env) (http : Body) :
    MergeOrder e http (List.range' 1 ((http.allBlocks e).length - 1)) := by
  have hlen : 0 < (http.allBlocks e).length := by rw [Body.allBlocks, List.length_cons]; exact Nat.succ_pos _
  refine ⟨⟨List.nodup_range', fun k hk => ?_, fun pre k post hl => ?_⟩, fun k h0 hk => ?_⟩
  · rw [List.mem_range'_1] at hk
    omega
  · -- the parent began before, so it is among those merged before
    have hk : k ∈ List.range' 1 ((http.allBlocks e).length - 1) := by rw [hl]; simp
    rw [List.mem_range'_1] at hk
    obtain ⟨b, hb⟩ : ∃ b, (http.allBlocks e)[k]? = some b :=
      ⟨_, List.getElem?_eq_getElem (show k < (http.allBlocks e).length by omega)⟩
    have hparent : http.parent e k = b.parent := by rw [Body.parent, hb]; rfl
    have hlt := (allBlocks_parent (Nat.ne_of_gt (by omega)) hb).1
    rw [← hparent] at hlt
    rcases Nat.eq_zero_or_pos (http.parent e k) with h0 | hpos
    · exact Or.inl h0
    · right
      have hin : http.parent e k ∈ List.range' 1 ((http.allBlocks e).length - 1) := by
        rw [List.mem_range'_1]
        omega
      have hsorted : List.Pairwise (· < ·) (pre ++ k :: post) := hl ▸ List.pairwise_lt_range'
      rw [hl] at hin
      rcases List.mem_append.1 hin with hin | hin
      · exact hin
      · rcases List.mem_cons.1 hin with heq | hin
        · omega
        · have hafter := List.rel_of_pairwise_cons (List.pairwise_append.1 hsorted).2.1 hin
          omega
  · rw [List.mem_range'_1]
    omega

/-- an environment in which memory does not run out and no rules file is there -/
def calmEnv : Env := ⟨fun _ => true, some, fun _ => none, fun _ => true⟩

/-- a rule in the http block; a server that turns coraza on, with a rule; in it one location that adds a rule of its own
and one that turns coraza off -/
def nestedFile : Body :=
  .directive (.corazaRules (ascii "A"))
    (.block
      (.directive (.coraza true) (.block (.directive (.corazaRules (ascii "C")) .done)
        (.block (.directive (.coraza false) .done) (.directive (.corazaRules (ascii "B")) .done)))) .done)

/-- the location inherits both, although its server's rule is written behind it -/
theorem nestedFile_inherits : (merged calmEnv nestedFile [1, 2, 3]).2.rulesOf 2 =
    [⟨.inline, ascii "A"⟩, ⟨.inline, ascii "B"⟩, ⟨.inline, ascii "C"⟩] := by
  have horder : MergeOrder calmEnv nestedFile [1, 2, 3] := fileOrder_mergeOrder calmEnv nestedFile
  have hok : (merged calmEnv nestedFile [1, 2, 3]).1 = true := by decide +kernel
  exact ((configuration_inherits calmEnv nestedFile [1, 2, 3] horder hok).effective 2 _ rfl (by decide)).rules

end CorazaNginx.Config
