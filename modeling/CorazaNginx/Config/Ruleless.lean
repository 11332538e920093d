/-
Does every location with coraza on have rules?

The postconfiguration check counts rule directives anywhere in the file, and looks at the locations only when there is
none. `enabled_have_rules_iff`: that a file passes the check means that every server and location in which coraza is
effectively on has rules, and gets the WAF compiled from them, exactly when the file has no rule directive or is
`Covered`, which looks at where its directives stand.
-/
import Mathlib.Tactic
import CorazaNginx.Config.WafSharing

namespace CorazaNginx.Config

open CorazaNginx.Core Prog

variable {e : Env} {http : Body} {order : List ℕ}

/-- the WAF `ngx_http_coraza_create_ctx` takes for a request in the location at `a` -/
def requestWaf (m : Memory) (a : ℕ) : ℕ := if (m.confs a).waf ≠ 0 then (m.confs a).waf else m.main.waf

/-- every server and location in which coraza is on has rules, and in every worker that starts on the configuration its
requests get the WAF compiled from them -/
def EnabledHaveRules (e : Env) (http : Body) (order : List ℕ) : Prop :=
  ∀ k, 0 < k → k < (http.allBlocks e).length → ((merged e http order).2.confs k).enable = 1 →
    (merged e http order).2.rulesOf k ≠ [] ∧
      ∀ we : WafEnv, Fresh we → (started we (merged e http order).2).1 = ngxOk →
        Compiled (started we (merged e http order).2).2.trace (requestWaf (started we (merged e http order).2).2.mem k)
          (((merged e http order).2.rulesOf k).map RuleEntry.cstr)

/-- the directives of a block itself -/
def Block.own (b : Block) : Own := b.chain.getLast?.getD {}

/-- coraza is turned on only in servers and locations with a rule in themselves or around them, and if the http block
turns it on without a rule, every server has a rule or a setting of its own -/
structure Covered (e : Env) (http : Body) : Prop where
  blocks : ∀ k b, (http.allBlocks e)[k]? = some b → k ≠ 0 → b.own.enable = some true → ∃ o ∈ b.chain, o.rules ≠ []
  servers : (http.own e).enable = some true → (http.own e).rules = [] → ∀ k b, (http.allBlocks e)[k]? = some b → k ≠ 0 →
    b.parent = 0 → b.own.enable ≠ none ∨ b.own.rules ≠ []

theorem flag_eq_one {on : Bool} : flag on = 1 ↔ on = true := by cases on <;> decide

/-- coraza is on: the nearest setting says so -/
theorem getD_nearest {v : Option Bool} : flag (v.getD false) = 1 ↔ v = some true := by
  rw [flag_eq_one]
  cases v with
  | none => exact ⟨nofun, nofun⟩
  | some on => cases on <;> simp

theorem chainRules_ne_nil {chain : List Own} : chainRules chain ≠ [] ↔ ∃ o ∈ chain, o.rules ≠ [] := by
  rw [chainRules, Ne, List.flatMap_eq_nil_iff]
  push Not
  rfl

/-- on the chain of a block, by whether it is set here -/
theorem covered_iff : Covered e http ↔ ∀ k b, (http.allBlocks e)[k]? = some b → k ≠ 0 →
    nearest (b.chain.map (·.enable)) = some true → chainRules b.chain ≠ [] := by
  have hown : ∀ {chain : List Own} {o : Own} {b : Block}, b.chain = chain ++ [o] → b.own = o := by
    intro chain o b h
    rw [Block.own, h, List.getLast?_concat]
    rfl
  have hnear : ∀ {chain : List Own} {o : Own} {b : Block}, b.chain = chain ++ [o] →
      nearest (b.chain.map (·.enable)) = (o.enable <|> nearest (chain.map (·.enable))) := by
    intro chain o b h
    rw [h, List.map_append, List.map_singleton, nearest_concat]
  constructor
  · intro hc k
    -- from the outside in: a block without a setting of its own has its parent's
    induction k using Nat.strong_induction_on with
    | _ k ih =>
      intro b hb hk hon
      obtain ⟨hlt, pb, hpb, o, ho⟩ := allBlocks_parent hk hb
      rw [hnear ho] at hon
      cases hset : o.enable with
      | some on =>
        rw [hset] at hon
        have hblocks := hc.blocks k b hb hk (by rw [hown ho, hset]; exact hon)
        exact chainRules_ne_nil.2 hblocks
      | none =>
        rw [hset] at hon
        have hsub : chainRules pb.chain ≠ [] → chainRules b.chain ≠ [] := by
          intro hne
          rw [ho, chainRules, List.flatMap_append]
          exact List.append_ne_nil_of_left_ne_nil hne _
        by_cases hp : b.parent = 0
        · rw [hp] at hpb
          obtain rfl := Option.some.inj hpb
          have hhttp : (http.own e).enable = some true := by
            have h := hon
            change nearest [(http.own e).enable] = some true at h
            rwa [nearest_single] at h
          by_cases hr : (http.own e).rules = []
          · rcases hc.servers hhttp hr k b hb hk hp with h | h
            · rw [hown ho] at h
              exact absurd hset h
            · refine chainRules_ne_nil.2 ⟨o, by rw [ho]; simp, ?_⟩
              rwa [hown ho] at h
          · exact hsub (chainRules_ne_nil.2 ⟨_, List.mem_singleton_self _, hr⟩)
        · exact hsub (ih b.parent hlt pb hpb hp hon)
  · intro h
    refine ⟨fun k b hb hk hset => ?_, fun hhttp hr k b hb hk hp => ?_⟩
    · obtain ⟨-, pb, -, o, ho⟩ := allBlocks_parent hk hb
      rw [hown ho] at hset
      exact chainRules_ne_nil.1 (h k b hb hk (by rw [hnear ho, hset]; rfl))
    · obtain ⟨-, pb, hpb, o, ho⟩ := allBlocks_parent hk hb
      rw [hp] at hpb
      obtain rfl := Option.some.inj hpb
      rw [hown ho]
      by_contra hno
      rw [not_or, not_not, not_not] at hno
      refine h k b hb hk ?_ ?_
      · rw [hnear ho, hno.1]
        change nearest [(http.own e).enable] = some true
        rw [nearest_single, hhttp]
      · rw [ho]
        change chainRules ([http.own e] ++ [o]) = []
        simp [chainRules, hr, hno.2]

/-- without a rule directive the check looks at every location itself -/
theorem validateRules_ruleless {m : Memory} (h0 : m.ruleCount = 0) (hvalid : validateRules 0 m = true) :
    ∀ a ∈ m.main.locConfs, (m.confs a).enable ≠ 1 := by
  rw [Memory.ruleCount] at h0
  have hno : ¬ (m.main.rulesInline ≠ 0 ∨ m.main.rulesFile ≠ 0) := by omega
  rw [validateRules, if_neg hno] at hvalid
  split at hvalid
  · cases hvalid
  · intro a ha
    exact of_decide_eq_true (List.all_eq_true.1 hvalid a ha)

/-- one rule directive anywhere and the check passes -/
theorem validateRules_of_rule {m : Memory} (h : m.ruleCount ≠ 0) : validateRules 0 m = true := by
  rw [Memory.ruleCount] at h
  rw [validateRules, if_pos (by omega)]

theorem covered_of_enabled (horder : MergeOrder e http order) (hok : (merged e http order).1 = true)
    (h : EnabledHaveRules e http order) : Covered e http := by
  have hm := merged_spec horder.toTopDown hok
  rw [covered_iff]
  intro k b hb hk hon
  have hlt := (List.getElem?_eq_some_iff.1 hb).1
  have heff : Effective b.chain (merged e http order).2 k :=
    hm.merged k b hb (horder.complete k (Nat.pos_of_ne_zero hk) hlt)
  rw [← heff.rules]
  refine (h k (Nat.pos_of_ne_zero hk) hlt ?_).1
  rw [heff.enable, getD_nearest]
  exact hon

theorem enabled_of_covered (horder : MergeOrder e http order) (hok : (merged e http order).1 = true)
    (h : Covered e http) : EnabledHaveRules e http order := by
  have hm := merged_spec horder.toTopDown hok
  intro k hpos hlt hone
  have hb := List.getElem?_eq_getElem hlt
  have hin := horder.complete k hpos hlt
  have heff := hm.merged k _ hb hin
  have hne : (merged e http order).2.rulesOf k ≠ [] := by
    rw [heff.rules]
    refine covered_iff.1 h k _ hb (Nat.ne_of_gt hpos) ?_
    rwa [heff.enable, getD_nearest] at hone
  refine ⟨hne, fun we hfresh hstart => ?_⟩
  have hshares := started_shares hfresh (merged_initial horder hok) hstart
  have hloc : k ∈ (merged e http order).2.main.locConfs := by
    rw [hm.locConfs]
    exact hin
  have hwith : WithRules (merged e http order).2 k := ⟨heff.hasRules.2 (by rwa [← heff.rules]), hne⟩
  obtain ⟨h0, hcomp⟩ := hshares.holds k hloc hwith
  rw [requestWaf, if_pos h0]
  exact hcomp

/-- **Enabled locations and rules.** When nginx has read and merged a file, that the check passes means that every
server and location with coraza on has rules and a WAF compiled from them, exactly when the file has no rule directive
at all or is covered. -/
theorem enabled_have_rules_iff (e : Env) (http : Body) (order : List ℕ) (horder : MergeOrder e http order)
    (hok : (merged e http order).1 = true) :
    (validateRules 0 (merged e http order).2 = true → EnabledHaveRules e http order) ↔
      (http.ruleCount = 0 ∨ Covered e http) := by
  have hm := merged_spec horder.toTopDown hok
  constructor
  · intro h
    by_cases h0 : http.ruleCount = 0
    · exact Or.inl h0
    · have hvalid : validateRules 0 (merged e http order).2 = true :=
        validateRules_of_rule (by rw [hm.counted]; exact h0)
      exact Or.inr (covered_of_enabled horder hok (h hvalid))
  · rintro (h0 | hcov) hvalid
    · -- nothing is on
      have hoff := validateRules_ruleless (by rw [hm.counted]; exact h0) hvalid
      intro k hpos hlt hone
      exact absurd hone (hoff k (by rw [hm.locConfs]; exact horder.complete k hpos hlt))
    · exact enabled_of_covered horder hok hcov

/-- the server of the nested file has rules for its requests -/
theorem nestedFile_enabled : (merged calmEnv nestedFile [1, 2, 3]).2.rulesOf 1 ≠ [] := by
  have horder : MergeOrder calmEnv nestedFile [1, 2, 3] := fileOrder_mergeOrder calmEnv nestedFile
  have hcov : Covered calmEnv nestedFile := by
    refine covered_iff.2 fun k b hb hk hon => chainRules_ne_nil.2 ⟨nestedFile.own calmEnv, ?_, by decide⟩
    have hlt := (List.getElem?_eq_some_iff.1 hb).1
    rw [(List.getElem?_eq_some_iff.1 hb).2.symm]
    have hall : ∀ x ∈ nestedFile.allBlocks calmEnv, nestedFile.own calmEnv ∈ x.chain := by decide
    exact hall _ (List.getElem_mem hlt)
  have hall := (enabled_have_rules_iff calmEnv nestedFile [1, 2, 3] horder (by decide +kernel)).2 (Or.inr hcov)
    (by decide +kernel)
  exact (hall 1 (by decide) (by decide) (by decide +kernel)).1

/-- two servers, the first with coraza on and no rule, the second with a rule and coraza off -/
def siblingFile : Body :=
  .block (.directive (.coraza true) .done) (.block (.directive (.corazaRules (ascii "A")) .done) .done)

/-- the second server's rule lets the first pass the check -/
theorem siblingFile_ruleless : MergeOrder calmEnv siblingFile [1, 2] ∧ (merged calmEnv siblingFile [1, 2]).1 = true ∧
    validateRules 0 (merged calmEnv siblingFile [1, 2]).2 = true ∧ ¬ EnabledHaveRules calmEnv siblingFile [1, 2] := by
  refine ⟨fileOrder_mergeOrder calmEnv siblingFile, by decide +kernel, by decide +kernel, fun h => ?_⟩
  exact (h 1 (by decide) (by decide) (by decide +kernel)).1 (by decide +kernel)

end CorazaNginx.Config
