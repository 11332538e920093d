/-
Which WAF each location holds, and that every WAF is freed once.

`buildWaf_spec` is one compilation: what it records is balanced (`Balanced`, every configuration handle is freed) and,
if it gives a handle, the handle is new and was compiled from exactly the rules it was called for, each as the C string
the engine takes (`Compiled`, `RuleEntry.cstr`). `Building` is the invariant of the loop of `initProcess`: the locations
seen so far share exactly (`Core.Shared`, by rules), and the handles built are the main WAF's and the owners'.
`waf_sharing_exact` reads off it what a successful start leaves and, of every start, what `exitProcess` then frees.
-/
import Mathlib.Tactic
import CorazaNginx.Core.Sharing
import CorazaNginx.Model.Waf
import CorazaNginx.Config.Inheritance

namespace CorazaNginx.Config

open CorazaNginx.Core Prog

variable {ρ : Type} {e : WafEnv} {w w' : Worker} {m m0 : Memory} {a : ℕ}

/-! ## The record -/

/-- the handles the engine has given out -/
def built (t : WafTrace) : List ℕ := t.filterMap fun c =>
  match c with
  | .newWaf _ waf => if waf = 0 then none else some waf
  | _ => none

/-- the handles that have been freed -/
def freed (t : WafTrace) : List ℕ := t.filterMap fun c =>
  match c with
  | .freeWaf waf => some waf
  | _ => none

/-- a WAF's handle is new: no earlier call has returned it -/
def Fresh (e : WafEnv) : Prop := ∀ t, e.newWaf t ≠ 0 → e.newWaf t ∉ built t

/-- every configuration handle is freed as often as it was given out, and nothing else is -/
def Balanced (t : WafTrace) : Prop :=
  ∀ c, t.count (.freeWafConfig c) = if c = 0 then 0 else t.count (.newWafConfig c)

/-- the entry that a call adds to the configuration -/
def WafCall.added (config : ℕ) : WafCall → Option RuleEntry
  | .rulesAdd c entry rc => if c = config ∧ 0 ≤ rc then some entry else none
  | _ => none

/-- the handle was compiled from a configuration to which exactly these rules had been added, in this order -/
def Compiled (t : WafTrace) (waf : ℕ) (rules : List RuleEntry) : Prop :=
  ∃ pre config block post, t = pre ++ .newWafConfig config :: (block ++ .newWaf config waf :: post) ∧
    block.map (WafCall.added config) = rules.map some

@[simp] theorem built_append (t u : WafTrace) : built (t ++ u) = built t ++ built u := List.filterMap_append
@[simp] theorem freed_append (t u : WafTrace) : freed (t ++ u) = freed t ++ freed u := List.filterMap_append

theorem Balanced.nil : Balanced [] := fun c => by simp

theorem Balanced.append {t u : WafTrace} (ht : Balanced t) (hu : Balanced u) : Balanced (t ++ u) := by
  intro c
  rw [List.count_append, List.count_append, ht c, hu c]
  split_ifs <;> rfl

/-- calls that neither create nor free a configuration -/
theorem Balanced.of_other {t : WafTrace} (h : ∀ x ∈ t, ∀ c, x ≠ .freeWafConfig c ∧ x ≠ .newWafConfig c) :
    Balanced t := by
  intro c
  rw [List.count_eq_zero_of_not_mem fun hin => (h _ hin c).1 rfl,
    List.count_eq_zero_of_not_mem fun hin => (h _ hin c).2 rfl]
  split_ifs <;> rfl

/-- a configuration that is created and, behind other calls, freed -/
theorem Balanced.block {config : ℕ} {t : WafTrace} (h0 : config ≠ 0)
    (h : ∀ x ∈ t, ∀ c, x ≠ .freeWafConfig c ∧ x ≠ .newWafConfig c) :
    Balanced (.newWafConfig config :: (t ++ [.freeWafConfig config])) := by
  intro c
  have hfree := List.count_eq_zero_of_not_mem fun hin => (h _ hin c).1 rfl
  have hnew := List.count_eq_zero_of_not_mem fun hin => (h _ hin c).2 rfl
  simp only [List.count_cons, List.count_append, hfree, hnew]
  by_cases hc : c = config
  · subst hc
    simp [h0]
  · have hc' : config ≠ c := Ne.symm hc
    simp [hc']

/-- a rule that the handle was compiled from has been added -/
theorem Compiled.added {t : WafTrace} {waf : ℕ} {rules : List RuleEntry} (h : Compiled t waf rules) {entry : RuleEntry}
    (hin : entry ∈ rules) : ∃ config rc, .rulesAdd config entry rc ∈ t := by
  obtain ⟨pre, config, block, post, rfl, hb⟩ := h
  have hsome : some entry ∈ block.map (WafCall.added config) := hb ▸ List.mem_map_of_mem hin
  obtain ⟨x, hx, hadd⟩ := List.mem_map.1 hsome
  cases x with
  | rulesAdd c entry' rc =>
    simp only [WafCall.added] at hadd
    split_ifs at hadd
    obtain rfl := Option.some.inj hadd
    exact ⟨c, rc, by simp [hx]⟩
  | _ => cases hadd

theorem Compiled.append {t : WafTrace} {waf : ℕ} {rules : List RuleEntry} (h : Compiled t waf rules) (u : WafTrace) :
    Compiled (t ++ u) waf rules := by
  obtain ⟨pre, config, block, post, rfl, hb⟩ := h
  exact ⟨pre, config, block, post ++ u, by simp, hb⟩

theorem Compiled.prepend {t : WafTrace} {waf : ℕ} {rules : List RuleEntry} (h : Compiled t waf rules) (u : WafTrace) :
    Compiled (u ++ t) waf rules := by
  obtain ⟨pre, config, block, post, rfl, hb⟩ := h
  exact ⟨u ++ pre, config, block, post, by simp, hb⟩

/-! ## Compiling -/

/-- what one compilation records and returns -/
structure Builds (rules : List RuleEntry) (w : Worker) (waf : ℕ) (evs : WafTrace) : Prop where
  balanced : Balanced evs
  freed : freed evs = []
  built : built evs = if waf = 0 then [] else [waf]
  new : waf ≠ 0 → waf ∉ Config.built w.trace
  compiled : waf ≠ 0 → Compiled evs waf (rules.map RuleEntry.cstr)

/-- calls that add rules -/
def IsAdd (x : WafCall) : Prop := ∃ config entry rc, x = .rulesAdd config entry rc

theorem adds_other {t : WafTrace} (h : ∀ x ∈ t, IsAdd x) :
    ∀ x ∈ t, ∀ c, x ≠ .freeWafConfig c ∧ x ≠ .newWafConfig c := by
  intro x hx c
  obtain ⟨config, entry, rc, rfl⟩ := h x hx
  exact ⟨nofun, nofun⟩

theorem adds_built {t : WafTrace} (h : ∀ x ∈ t, IsAdd x) : built t = [] ∧ freed t = [] := by
  refine ⟨List.filterMap_eq_nil_iff.2 fun x hx => ?_, List.filterMap_eq_nil_iff.2 fun x hx => ?_⟩ <;>
    obtain ⟨config, entry, rc, rfl⟩ := h x hx <;> rfl

/-- a compilation that broke off: the configuration is freed and there is no handle -/
theorem Builds.broken {rules : List RuleEntry} {config : ℕ} {block : WafTrace} (h0 : config ≠ 0)
    (h : ∀ x ∈ block, IsAdd x) : Builds rules w 0 (.newWafConfig config :: (block ++ [.freeWafConfig config])) where
  balanced := .block h0 (adds_other h)
  freed := by
    change Config.freed (block ++ _) = []
    rw [freed_append, (adds_built h).2]
    rfl
  built := by
    change Config.built (block ++ _) = _
    rw [built_append, (adds_built h).1]
    rfl
  new := fun hne => absurd rfl hne
  compiled := fun hne => absurd rfl hne

/-- **Compiling.** The loop's invariant: the rules so far have been added to the configuration. -/
theorem buildWaf_spec (hfresh : Fresh e) (rules : List RuleEntry) {Q : ℕ → Worker → Prop} {E : ρ → Worker → Prop}
    (h : ∀ waf evs, Builds rules w waf evs → Q waf { w with trace := w.trace ++ evs }) :
    wp (buildWaf rules : WorkerCode ρ ℕ) Q E e w := by
  rw [buildWaf, wp_call, wp_bind]
  refine (wp_when _ _).2 ⟨fun _ => ?_, fun _ => ?_⟩
  · have hnil : w = { w with trace := w.trace ++ [] } := by rw [List.append_nil]
    rw [wp_exit, hnil]
    exact h 0 [] ⟨.nil, rfl, rfl, fun hne => absurd rfl hne, fun hne => absurd rfl hne⟩
  rw [wp_bind, newWafConfig, wp_bind, wp_ask, wp_bind, wp_get, wp_bind, wp_modify, wp_pure, wp_bind]
  set config := e.newWafConfig w.trace
  refine (wp_when _ _).2 ⟨fun h0 => ?_, fun h0 => ?_⟩
  · refine h 0 [_] ⟨fun c => ?_, rfl, rfl, fun hne => absurd rfl hne, fun hne => absurd rfl hne⟩
    rw [h0]
    by_cases hc : c = 0
    · simp [hc]
    · simp [hc, Ne.symm hc]
  rw [wp_bind]
  refine wp_forEach (fun done t => ∃ block, t = { w with trace := w.trace ++ .newWafConfig config :: block } ∧
      (∀ x ∈ block, IsAdd x) ∧ block.map (WafCall.added config) = (done.map RuleEntry.cstr).map some) rules _
    ⟨[], rfl, nofun, rfl⟩ (fun t ht => ?_) fun pre entry post t hl ht => ?_
  · -- everything has been added: compile
    obtain ⟨block, rfl, hadds, hblock⟩ := ht
    rw [wp_bind, newWaf, wp_bind, wp_ask, wp_bind, wp_get, wp_bind, wp_modify, wp_pure, wp_bind, freeWafConfig,
      wp_modify, wp_pure]
    set waf := e.newWaf (w.trace ++ .newWafConfig config :: block) with hwaf
    have hsplit :
        Worker.log (Worker.log { w with trace := w.trace ++ .newWafConfig config :: block } (.newWaf config waf))
          (.freeWafConfig config) =
        { w with trace := w.trace ++ .newWafConfig config :: ((block ++ [.newWaf config waf]) ++
            [.freeWafConfig config]) } := by
      simp [Worker.log]
    rw [hsplit]
    refine h waf _ ⟨.block h0 fun x hx c => ?_, ?_, ?_, fun hne hin => ?_, fun _ => ?_⟩
    · rcases List.mem_append.1 hx with hx | hx
      · exact adds_other hadds x hx c
      · rw [List.mem_singleton.1 hx]
        exact ⟨nofun, nofun⟩
    · change freed ((block ++ _) ++ _) = []
      rw [freed_append, freed_append, (adds_built hadds).2]
      rfl
    · change built ((block ++ _) ++ _) = _
      rw [built_append, built_append, (adds_built hadds).1]
      by_cases hz : waf = 0 <;> simp [built, hz]
    · have hnew := hfresh (w.trace ++ .newWafConfig config :: block) hne
      rw [← hwaf, built_append, List.mem_append, not_or] at hnew
      exact hnew.1 hin
    · exact ⟨[], config, block, [.freeWafConfig config], by simp, hblock⟩
  · obtain ⟨block, rfl, hadds, hblock⟩ := ht
    -- a way out with the configuration freed
    have hbroken : ∀ block', (∀ x ∈ block', IsAdd x) → Q 0 (Worker.log { w with
        trace := w.trace ++ .newWafConfig config :: block' } (.freeWafConfig config)) := by
      intro block' hadds'
      have hb := h 0 _ (Builds.broken h0 hadds')
      rwa [show Worker.log { w with trace := w.trace ++ .newWafConfig config :: block' } (.freeWafConfig config) =
        { w with trace := w.trace ++ .newWafConfig config :: (block' ++ [.freeWafConfig config]) } by
          simp [Worker.log]]
    rw [wp_bind, malloc, wp_bind, wp_ask, wp_bind, wp_get, wp_pure, wp_bind]
    refine (wp_when _ _).2 ⟨fun _ => ?_, fun _ => ?_⟩
    · rw [wp_bind, freeWafConfig, wp_modify]
      exact hbroken block hadds
    rw [wp_bind, rulesAdd, wp_bind, wp_ask, wp_bind, wp_get, wp_bind, wp_modify, wp_pure]
    set rc := e.rulesAdd (w.trace ++ .newWafConfig config :: block) entry.cstr
    have hlog :
        Worker.log { w with trace := w.trace ++ .newWafConfig config :: block } (.rulesAdd config entry.cstr rc) =
        { w with trace := w.trace ++ .newWafConfig config :: (block ++ [.rulesAdd config entry.cstr rc]) } := by
      simp [Worker.log]
    have hadds' : ∀ x ∈ block ++ [.rulesAdd config entry.cstr rc], IsAdd x := by
      intro x hx
      rcases List.mem_append.1 hx with hx | hx
      · exact hadds x hx
      · exact ⟨config, entry.cstr, rc, List.mem_singleton.1 hx⟩
    rw [hlog]
    refine (wp_when _ _).2 ⟨fun _ => ?_, fun hrc => ?_⟩
    · rw [wp_bind, freeWafConfig, wp_modify]
      exact hbroken _ hadds'
    · refine ⟨_, rfl, hadds', ?_⟩
      rw [List.map_append, hblock, List.map_append]
      simp [WafCall.added, not_lt.1 hrc]

/-! ## Starting -/

theorem rulesEqual_iff (m : Memory) (a b : ℕ) : rulesEqual m a b = true ↔ m.arrays a = m.arrays b := by
  unfold rulesEqual
  split_ifs with hab hlen
  · exact ⟨fun _ => by rw [hab], fun _ => rfl⟩
  · exact ⟨nofun, fun heq => absurd (congrArg List.length heq) hlen⟩
  · rw [not_not] at hlen
    generalize m.arrays a = la at hlen ⊢
    generalize m.arrays b = lb at hlen ⊢
    -- entry by entry, on lists of one length
    induction la generalizing lb with
    | nil =>
      rw [List.length_nil] at hlen
      rw [List.length_eq_zero_iff.1 hlen.symm]
      simp
    | cons x la ih =>
      cases lb with
      | nil => cases hlen
      | cons y lb =>
        have hlen' : la.length = lb.length := by simpa using hlen
        have hxy : (x.type = y.type ∧ x.value.length = y.value.length) ∧ x.value = y.value ↔ x = y := by
          cases x
          cases y
          simp only [RuleEntry.mk.injEq]
          exact ⟨fun h => ⟨h.1.1, h.2⟩, fun h => ⟨⟨h.1, by rw [h.2]⟩, h.2⟩⟩
        rw [List.zip_cons_cons, List.all_cons, Bool.and_eq_true, ih lb hlen', List.cons.injEq]
        simp only [Bool.and_eq_true, decide_eq_true_eq, hxy]

/-- the code's test for a location with rules -/
def WithRules (m : Memory) (a : ℕ) : Prop := (m.confs a).hasRules = true ∧ m.rulesOf a ≠ []

instance (m : Memory) (a : ℕ) : Decidable (WithRules m a) := inferInstanceAs (Decidable (_ ∧ _))

/-- a location as a holder of a WAF for its rules -/
def holder (m : Memory) (a : ℕ) : Entry (List RuleEntry) ℕ := ⟨m.rulesOf a, (m.confs a).waf, (m.confs a).wafOwner⟩

/-- the locations with rules as holders -/
def holders (m : Memory) (l : List ℕ) : List (Entry (List RuleEntry) ℕ) := (l.filter (WithRules m ·)).map (holder m)

/-- nothing but WAFs differs -/
structure SameRules (m0 m : Memory) : Prop where
  arrays : m.arrays = m0.arrays
  mainRules : m.main.rules = m0.main.rules
  locConfs : m.main.locConfs = m0.main.locConfs
  rules : ∀ a, (m.confs a).rules = (m0.confs a).rules
  hasRules : ∀ a, (m.confs a).hasRules = (m0.confs a).hasRules

theorem SameRules.rulesOf (h : SameRules m0 m) (a : ℕ) : m.rulesOf a = m0.rulesOf a := by
  rw [Memory.rulesOf, h.arrays, h.rules]
  rfl

theorem SameRules.withRules (h : SameRules m0 m) (a : ℕ) : WithRules m a ↔ WithRules m0 a := by
  rw [WithRules, WithRules, h.rulesOf, h.hasRules]

/-- what a worker starts from -/
structure Initial (m : Memory) : Prop where
  nodup : m.main.locConfs.Nodup
  mainRules : m.arrays m.main.rules = []
  mainWaf : m.main.waf = 0
  waf : ∀ a ∈ m.main.locConfs, (m.confs a).waf = 0 ∧ (m.confs a).wafOwner = false

/-- the locations in `done` have been given their WAFs -/
structure Building (m0 : Memory) (done : List ℕ) (w : Worker) : Prop where
  same : SameRules m0 w.mem
  mainWaf : w.mem.main.waf ≠ 0
  idle : ∀ a ∈ m0.main.locConfs, (a ∉ done ∨ ¬ WithRules m0 a) →
    (w.mem.confs a).waf = 0 ∧ (w.mem.confs a).wafOwner = false
  shared : Shared (holders w.mem done)
  compiled : ∀ a ∈ done, WithRules m0 a → (w.mem.confs a).waf ≠ 0 ∧
    Compiled w.trace (w.mem.confs a).waf ((m0.rulesOf a).map RuleEntry.cstr)
  handles : built w.trace = w.mem.main.waf :: (owners (holders w.mem done)).map (·.resource)
  distinct : (built w.trace).Nodup
  balanced : Balanced w.trace
  unfreed : freed w.trace = []

theorem Worker.setConf_setConf (w : Worker) (a : ℕ) (c c' : Conf) : (w.setConf a c).setConf a c' = w.setConf a c' := by
  rw [Worker.setConf, Worker.setConf, Worker.setConf, Memory.setConf, Memory.setConf, Memory.setConf,
    Function.update_idem]

/-- a location that has just been seen, given a WAF or not -/
theorem holders_concat (w : Worker) (done : List ℕ) (a : ℕ) (c : Conf) (hrules : c.rules = (w.mem.confs a).rules)
    (hhas : c.hasRules = (w.mem.confs a).hasRules) (hnot : a ∉ done) : holders (w.setConf a c).mem (done ++ [a]) =
      holders w.mem done ++ if WithRules w.mem a then [⟨w.mem.rulesOf a, c.waf, c.wafOwner⟩] else [] := by
  have hself : (w.setConf a c).mem.confs a = c := Function.update_self _ _ _
  have hother : ∀ b, b ≠ a → (w.setConf a c).mem.confs b = w.mem.confs b := fun b hb => Function.update_of_ne hb _ _
  have hrulesOf : ∀ b, (w.setConf a c).mem.rulesOf b = w.mem.rulesOf b := by
    intro b
    rw [Memory.rulesOf, Memory.rulesOf]
    by_cases hb : b = a
    · rw [hb, hself, hrules]
      rfl
    · rw [hother b hb]
      rfl
  have hwith : ∀ b, WithRules (w.setConf a c).mem b ↔ WithRules w.mem b := by
    intro b
    rw [WithRules, WithRules, hrulesOf]
    by_cases hb : b = a
    · rw [hb, hself, hhas]
    · rw [hother b hb]
  rw [holders, holders, List.filter_append, List.map_append]
  congr 1
  · rw [List.filter_congr fun b _ => decide_eq_decide.2 (hwith b)]
    refine List.map_congr_left fun b hb => ?_
    have hba : b ≠ a := fun h => hnot (h ▸ List.mem_of_mem_filter hb)
    rw [holder, holder, hrulesOf, hother b hba]
  · by_cases hw : WithRules w.mem a
    · rw [if_pos hw, List.filter_singleton, decide_eq_true ((hwith a).2 hw)]
      simp [holder, hrulesOf, hself]
    · rw [if_neg hw, List.filter_singleton, decide_eq_false fun h => hw ((hwith a).1 h)]
      rfl

/-- a location without rules keeps what it has: nothing -/
theorem Building.skip {done : List ℕ} (h : Building m0 done w) (hnot : a ∉ done) (hw : ¬ WithRules m0 a) :
    Building m0 (done ++ [a]) w := by
  have hset : w.setConf a (w.mem.confs a) = w := by
    rw [Worker.setConf, Memory.setConf, Function.update_eq_self]
  have hholders : holders w.mem (done ++ [a]) = holders w.mem done := by
    have hc := holders_concat w done a (w.mem.confs a) rfl rfl hnot
    rwa [hset, if_neg (fun hw' => hw ((h.same.withRules a).1 hw')), List.append_nil] at hc
  refine ⟨h.same, h.mainWaf, fun b hb hor => ?_, by rw [hholders]; exact h.shared, fun b hb hwb => ?_,
    by rw [hholders]; exact h.handles, h.distinct, h.balanced, h.unfreed⟩
  · refine h.idle b hb (hor.imp (fun hn hin => hn (List.mem_append_left _ hin)) id)
  · rcases List.mem_append.1 hb with hb | hb
    · exact h.compiled b hb hwb
    · rw [List.mem_singleton.1 hb] at hwb
      exact absurd hwb hw

/-- **A location with rules** is given a WAF, behind the calls `evs`. -/
theorem Building.give {done : List ℕ} {c : Conf} {evs : WafTrace} (h : Building m0 done w) (hnot : a ∉ done)
    (hw : WithRules m0 a) (hrules : c.rules = (w.mem.confs a).rules) (hhas : c.hasRules = (w.mem.confs a).hasRules)
    (hc0 : c.waf ≠ 0) (hcomp : Compiled (w.trace ++ evs) c.waf ((m0.rulesOf a).map RuleEntry.cstr))
    (hshared : Shared (holders w.mem done ++ [⟨m0.rulesOf a, c.waf, c.wafOwner⟩]))
    (hbuilt : built evs = if c.wafOwner = true then [c.waf] else []) (hnew : c.wafOwner = true → c.waf ∉ built w.trace)
    (hbal : Balanced evs) (hfreed : freed evs = []) :
    Building m0 (done ++ [a]) { w.setConf a c with trace := w.trace ++ evs } := by
  have hself : (w.setConf a c).mem.confs a = c := Function.update_self _ _ _
  have hother : ∀ b, b ≠ a → (w.setConf a c).mem.confs b = w.mem.confs b := fun b hb => Function.update_of_ne hb _ _
  have hholders : holders (w.setConf a c).mem (done ++ [a]) =
      holders w.mem done ++ [⟨m0.rulesOf a, c.waf, c.wafOwner⟩] := by
    rw [holders_concat w done a c hrules hhas hnot, if_pos ((h.same.withRules a).2 hw), h.same.rulesOf]
  have hall : built (w.trace ++ evs) = w.mem.main.waf ::
      (owners (holders w.mem done ++ [⟨m0.rulesOf a, c.waf, c.wafOwner⟩])).map (·.resource) := by
    rw [built_append, h.handles, hbuilt, owners, owners, List.filter_append, List.map_append, List.cons_append,
      List.filter_singleton]
    split_ifs with ho <;> simp [ho]
  refine ⟨⟨h.same.arrays, h.same.mainRules, h.same.locConfs, fun b => ?_, fun b => ?_⟩, h.mainWaf, fun b hb hor => ?_,
    by rw [hholders]; exact hshared, fun b hb hwb => ?_, by rw [hholders]; exact hall, ?_, h.balanced.append hbal, ?_⟩
  · by_cases hba : b = a
    · rw [hba, hself, hrules, h.same.rules]
    · rw [hother b hba, h.same.rules]
  · by_cases hba : b = a
    · rw [hba, hself, hhas, h.same.hasRules]
    · rw [hother b hba, h.same.hasRules]
  · have hba : b ≠ a := by
      rintro rfl
      exact hor.elim (fun hn => hn (List.mem_append_right _ (List.mem_singleton_self _))) fun hn => hn hw
    rw [hother b hba]
    exact h.idle b hb (hor.imp (fun hn hin => hn (List.mem_append_left _ hin)) id)
  · by_cases hba : b = a
    · rw [hba, hself]
      exact ⟨hc0, hcomp⟩
    · rw [hother b hba]
      have hb' := (List.mem_append.1 hb).resolve_right fun hs => hba (List.mem_singleton.1 hs)
      obtain ⟨h1, h2⟩ := h.compiled b hb' hwb
      exact ⟨h1, h2.append evs⟩
  · rw [built_append, hbuilt]
    split_ifs with ho
    · rw [List.nodup_append]
      refine ⟨h.distinct, List.nodup_singleton _, fun x hx y hy => ?_⟩
      rw [List.mem_singleton.1 hy]
      exact fun hxy => hnew ho (hxy ▸ hx)
    · rw [List.append_nil]
      exact h.distinct
  · rw [freed_append, h.unfreed, hfreed]
    rfl

/-- calls that build and free no WAF -/
theorem Building.logs {done : List ℕ} {evs : WafTrace} (h : Building m0 done w) (hbuilt : built evs = [])
    (hbal : Balanced evs) (hfreed : freed evs = []) : Building m0 done { w with trace := w.trace ++ evs } := by
  have hall : built (w.trace ++ evs) = built w.trace := by rw [built_append, hbuilt, List.append_nil]
  refine ⟨h.same, h.mainWaf, h.idle, h.shared, fun b hb hw => ?_, hall.trans h.handles, hall ▸ h.distinct,
    h.balanced.append hbal, ?_⟩
  · obtain ⟨h1, h2⟩ := h.compiled b hb hw
    exact ⟨h1, h2.append evs⟩
  · change freed (w.trace ++ evs) = []
    rw [freed_append, h.unfreed, hfreed]
    rfl

/-- an owner has rules -/
theorem Building.withRules_of_owner {done : List ℕ} {j : ℕ} (h : Building m0 done w) (hin : j ∈ m0.main.locConfs)
    (ho : (w.mem.confs j).wafOwner = true) : WithRules m0 j := by
  by_contra hno
  have hidle := (h.idle j hin (Or.inr hno)).2
  rw [ho] at hidle
  cases hidle

/-- the owners are owners among the locations seen so far -/
theorem Building.mem_owners_iff {done : List ℕ} (h : Building m0 done w) (hdone : ∀ b ∈ done, b ∈ m0.main.locConfs)
    (x : Entry (List RuleEntry) ℕ) : x ∈ owners (holders w.mem done) ↔
      ∃ j ∈ done, (w.mem.confs j).wafOwner = true ∧ holder w.mem j = x := by
  rw [mem_owners, holders, List.mem_map]
  constructor
  · rintro ⟨⟨j, hj, rfl⟩, ho⟩
    exact ⟨j, List.mem_of_mem_filter hj, ho, rfl⟩
  · rintro ⟨j, hj, ho, rfl⟩
    have hw := (h.same.withRules j).2 (h.withRules_of_owner (hdone j hj) ho)
    exact ⟨⟨j, List.mem_filter.2 ⟨hj, decide_eq_true hw⟩, rfl⟩, ho⟩

/-- **One location.** Either it is dealt with, or its WAF cannot be built and nothing has changed but the record. -/
theorem initLoc_spec (hfresh : Fresh e) {done : List ℕ} (hinit : m0.arrays m0.main.rules = [])
    (h : Building m0 done w) (hnot : a ∉ done) (hin : a ∈ m0.main.locConfs) (hdone : ∀ b ∈ done, b ∈ m0.main.locConfs) :
    wp (initLoc done a) (fun _ w' => Building m0 (done ++ [a]) w')
      (fun rc w' => rc = ngxError ∧ Building m0 done w') e w := by
  rw [initLoc, wp_bind, wp_get]
  refine (wp_when _ _).2 ⟨fun hw => ?_, fun hw => ?_⟩
  swap
  · exact h.skip hnot fun hw' => hw ((h.same.withRules a).2 hw')
  have hw0 : WithRules m0 a := (h.same.withRules a).1 hw
  have hidle := h.idle a hin (Or.inl hnot)
  refine (wp_ite _ _ _).2 ⟨fun hmain => ?_, fun _ => ?_⟩
  · -- the main array is empty
    have hempty : w.mem.rulesOf a = [] := by
      rw [Memory.rulesOf, hmain.1, h.same.arrays, h.same.mainRules]
      exact hinit
    exact absurd hempty hw.2
  cases hfind : done.find? fun j => (w.mem.confs j).wafOwner && decide ((w.mem.confs j).waf ≠ 0) &&
      rulesEqual w.mem (w.mem.confs j).rules (w.mem.confs a).rules with
  | some j =>
    -- an earlier owner has the same rules
    have hj := List.find?_some hfind
    have hjdone := List.mem_of_find?_eq_some hfind
    simp only [Bool.and_eq_true, decide_eq_true_eq] at hj
    obtain ⟨⟨howner, hj0⟩, hequal⟩ := hj
    have hrules : w.mem.rulesOf j = w.mem.rulesOf a := (rulesEqual_iff _ _ _).1 hequal
    have hmem := (h.mem_owners_iff hdone _).2 ⟨j, hjdone, howner, rfl⟩
    have hwj := h.withRules_of_owner (hdone j hjdone) howner
    set c : Conf := { w.mem.confs a with waf := (w.mem.confs j).waf, wafOwner := false } with hc
    have hgive : Building m0 (done ++ [a]) { w.setConf a c with trace := w.trace ++ [] } := by
      refine h.give hnot hw0 rfl rfl hj0 ?_ ?_ rfl (by simp) .nil rfl
      · have hcomp := (h.compiled j hjdone hwj).2
        rwa [List.append_nil, ← h.same.rulesOf, ← hrules, h.same.rulesOf]
      · exact h.shared.borrow hmem (hrules.trans (h.same.rulesOf a))
    rw [List.append_nil] at hgive
    exact hgive
  | none =>
    rw [wp_bind]
    refine buildWaf_spec hfresh _ fun waf evs hb => ?_
    rw [wp_bind, wp_modify, wp_bind]
    refine (wp_when _ _).2 ⟨fun hz => ⟨rfl, ?_⟩, fun hz => ?_⟩
    · -- the location has been set to the 0 it held
      have hset : { w.mem.confs a with waf := waf } = w.mem.confs a := by rw [hz, ← hidle.1]
      have hbuilt := hb.built
      rw [if_pos hz] at hbuilt
      change Building m0 done { w.setConf a { w.mem.confs a with waf := waf } with trace := w.trace ++ evs }
      rw [hset, Worker.setConf, Memory.setConf, Function.update_eq_self]
      exact h.logs hbuilt hb.balanced hb.freed
    · have hbuilt := hb.built
      rw [if_neg hz] at hbuilt
      have hnew : ∀ o ∈ owners (holders w.mem done), o.resource ≠ waf := by
        intro o ho heq
        refine hb.new hz ?_
        rw [h.handles, ← heq]
        exact List.mem_cons_of_mem _ (List.mem_map.2 ⟨o, ho, rfl⟩)
      -- no earlier owner has these rules, or it would have been found
      have hno : ∀ o ∈ owners (holders w.mem done), o.key ≠ m0.rulesOf a := by
        intro o ho heq
        obtain ⟨j, hj, howner, rfl⟩ := (h.mem_owners_iff hdone o).1 ho
        have hj0 := (h.compiled j hj (h.withRules_of_owner (hdone j hj) howner)).1
        have hequal : rulesEqual w.mem (w.mem.confs j).rules (w.mem.confs a).rules = true :=
          (rulesEqual_iff _ _ _).2 (heq.trans (h.same.rulesOf a).symm)
        have hmiss := List.find?_eq_none.1 hfind j hj
        simp [howner, hj0, hequal] at hmiss
      set c : Conf := { w.mem.confs a with waf := waf, wafOwner := true }
      have hgive : Building m0 (done ++ [a]) { w.setConf a c with trace := w.trace ++ evs } := by
        refine h.give hnot hw0 rfl rfl hz ?_ (h.shared.build hnew hno) (by rw [hbuilt]; rfl) (fun _ => hb.new hz)
          hb.balanced hb.freed
        have hcomp := (hb.compiled hz).prepend w.trace
        rwa [h.same.rulesOf] at hcomp
      -- the handle and the flag are set one after the other
      set u : Worker := { w with trace := w.trace ++ evs }
      set u1 := u.setConf a { w.mem.confs a with waf := waf }
      have hself : u1.mem.confs a = { w.mem.confs a with waf := waf } := Function.update_self _ _ _
      have htwice : u1.setConf a { u1.mem.confs a with wafOwner := true } = u.setConf a c := by
        rw [hself, Worker.setConf_setConf]
      rw [wp_modify]
      change Building m0 (done ++ [a]) (u1.setConf a { u1.mem.confs a with wafOwner := true })
      rw [htwice]
      exact hgive

/-- what a start leaves, however it ended: the handles built are the main WAF's and the owners' -/
structure Accounted (m0 : Memory) (w : Worker) : Prop where
  locConfs : w.mem.main.locConfs = m0.main.locConfs
  handles : built w.trace = (if w.mem.main.waf = 0 then [] else [w.mem.main.waf]) ++
    (m0.main.locConfs.filter fun a => (w.mem.confs a).wafOwner).map fun a => (w.mem.confs a).waf
  nonzero : ∀ a ∈ m0.main.locConfs, (w.mem.confs a).wafOwner = true → (w.mem.confs a).waf ≠ 0
  distinct : (built w.trace).Nodup
  balanced : Balanced w.trace
  unfreed : freed w.trace = []

/-- owners are found among the locations seen so far -/
theorem Building.filter_owner {done rest : List ℕ} (h : Building m0 done w) (hsplit : m0.main.locConfs = done ++ rest)
    (hnodup : m0.main.locConfs.Nodup) : (owners (holders w.mem done)).map (·.resource) =
      (m0.main.locConfs.filter fun a => (w.mem.confs a).wafOwner).map fun a => (w.mem.confs a).waf := by
  have hrest : (rest.filter fun a => (w.mem.confs a).wafOwner) = [] := by
    refine List.filter_eq_nil_iff.2 fun a ha => ?_
    have hnot : a ∉ done := by
      rw [hsplit, List.nodup_append] at hnodup
      exact fun hin => hnodup.2.2 a hin a ha rfl
    rw [(h.idle a (by rw [hsplit]; exact List.mem_append_right _ ha) (Or.inl hnot)).2]
    decide
  have hwith : ((done.filter (WithRules w.mem ·)).filter fun a => (w.mem.confs a).wafOwner) =
      done.filter fun a => (w.mem.confs a).wafOwner := by
    rw [List.filter_filter]
    refine List.filter_congr fun a ha => ?_
    by_cases ho : (w.mem.confs a).wafOwner = true
    · have hw := (h.same.withRules a).2 (h.withRules_of_owner (by rw [hsplit]; exact List.mem_append_left _ ha) ho)
      simp [ho, hw]
    · simp [ho]
  rw [hsplit, List.filter_append, hrest, List.append_nil, owners, holders, List.filter_map, List.map_map, ← hwith]
  rfl

theorem Building.accounted {done rest : List ℕ} (h : Building m0 done w) (hsplit : m0.main.locConfs = done ++ rest)
    (hnodup : m0.main.locConfs.Nodup) : Accounted m0 w := by
  refine ⟨h.same.locConfs, ?_, fun a ha ho => ?_, h.distinct, h.balanced, h.unfreed⟩
  · rw [h.handles, h.filter_owner hsplit hnodup, if_neg h.mainWaf, List.singleton_append]
  · have hw := h.withRules_of_owner ha ho
    have hdone : a ∈ done := by
      by_contra hnot
      have hidle := (h.idle a ha (Or.inl hnot)).2
      rw [ho] at hidle
      cases hidle
    exact (h.compiled a hdone hw).1

/-- **The main WAF**: it is built, or nothing is. -/
theorem initMain_spec (hm : Initial m) :
    wp initMain (fun _ w' => Building m [] w') (fun rc w' => rc = ngxError ∧ Accounted m w') e ⟨m, []⟩ := by
  have hfilter : ∀ m' : Memory, (∀ a, m'.confs a = m.confs a) →
      (m.main.locConfs.filter fun a => (m'.confs a).wafOwner) = [] := by
    intro m' hc
    refine List.filter_eq_nil_iff.2 fun a ha => ?_
    rw [hc, (hm.waf a ha).2]
    decide
  -- no handle: whatever has been recorded, the locations hold nothing
  have hnone : ∀ t, Balanced t → built t = [] → freed t = [] → ∀ main : MainConf, main.waf = 0 →
      main.locConfs = m.main.locConfs → Accounted m ⟨{ m with main := main }, t⟩ := by
    intro t hbal hbuilt hfreed main hz hl
    refine ⟨hl, ?_, fun a ha ho => ?_, by rw [hbuilt]; exact List.nodup_nil, hbal, hfreed⟩
    · rw [hbuilt, hfilter _ fun _ => rfl, if_pos hz]
      rfl
    · change (m.confs a).wafOwner = true at ho
      rw [(hm.waf a ha).2] at ho
      cases ho
  rw [initMain, wp_bind, wp_get]
  dsimp only
  refine (wp_ite _ _ _).2 ⟨fun hne => absurd hm.mainRules hne, fun _ => ?_⟩
  rw [wp_bind, newWafConfig, wp_bind, wp_ask, wp_bind, wp_get, wp_bind, wp_modify, wp_pure, wp_bind]
  set cfg := e.newWafConfig []
  refine (wp_when _ _).2 ⟨fun hcfg => ?_, fun hcfg => ?_⟩
  · rw [wp_bind, newWaf, wp_bind, wp_ask, wp_bind, wp_get, wp_bind, wp_modify, wp_pure, wp_bind, wp_modify,
      freeWafConfig, wp_modify, wp_bind, wp_get]
    set waf := e.newWaf (Worker.log ⟨m, []⟩ (.newWafConfig cfg)).trace
    have hbal : Balanced [.newWafConfig cfg, .newWaf cfg waf, .freeWafConfig cfg] := by
      refine Balanced.block (t := [.newWaf cfg waf]) hcfg fun x hx c => ?_
      rw [List.mem_singleton.1 hx]
      exact ⟨nofun, nofun⟩
    refine (wp_when _ _).2 ⟨fun hz => ⟨rfl, ?_⟩, fun hz => ?_⟩
    · change waf = 0 at hz
      exact hnone [.newWafConfig cfg, .newWaf cfg waf, .freeWafConfig cfg] hbal (by simp [built, hz]) rfl
        { m.main with waf := waf } hz rfl
    · change ¬ waf = 0 at hz
      have hbuilt : built [.newWafConfig cfg, .newWaf cfg waf, .freeWafConfig cfg] = [waf] := by simp [built, hz]
      exact ⟨⟨rfl, rfl, rfl, fun _ => rfl, fun _ => rfl⟩, hz, fun a ha _ => hm.waf a ha, .nil, nofun, hbuilt,
        by change (built [.newWafConfig cfg, .newWaf cfg waf, .freeWafConfig cfg]).Nodup
           rw [hbuilt]; exact List.nodup_singleton _,
        hbal, rfl⟩
  · rw [wp_bind, wp_get]
    refine (wp_when _ _).2 ⟨fun hz => ⟨rfl, ?_⟩, fun hz => absurd hm.mainWaf hz⟩
    have hcfg0 := not_not.1 hcfg
    refine hnone [.newWafConfig cfg] (fun c => ?_) rfl rfl m.main hm.mainWaf rfl
    rw [hcfg0]
    by_cases hc : c = 0
    · simp [hc]
    · simp [hc, Ne.symm hc]

/-- **Starting.** A start that succeeds has dealt with every location; one that fails leaves its handles accounted
for. -/
theorem initProcess_spec (hfresh : Fresh e) (hm : Initial m) :
    wp initProcess (fun rc w' => rc = ngxOk ∧ Building m m.main.locConfs w')
      (fun rc w' => rc = ngxError ∧ Accounted m w')
      e ⟨m, []⟩ := by
  have hstart : Accounted m ⟨m, []⟩ := by
    have hfilter : (m.main.locConfs.filter fun a => (m.confs a).wafOwner) = [] := by
      refine List.filter_eq_nil_iff.2 fun a ha => ?_
      rw [(hm.waf a ha).2]
      decide
    refine ⟨rfl, ?_, fun a ha ho => ?_, List.nodup_nil, .nil, rfl⟩
    · rw [hfilter, if_pos hm.mainWaf]
      rfl
    · rw [(hm.waf a ha).2] at ho
      cases ho
  rw [initProcess, wp_bind, wp_ask, wp_bind]
  refine (wp_when _ _).2 ⟨fun _ => ⟨rfl, hstart⟩, fun _ => ?_⟩
  refine (wp_bind _ _).2 (wp_mono (initMain_spec hm) (fun _ w1 h1 => ?_) (fun _ _ h => h))
  rw [wp_bind, wp_get, h1.same.locConfs, wp_bind]
  set locs := m.main.locConfs
  refine wp_forEach (fun done w' => Building m (locs.take done.length) w') (List.range locs.length) _ h1
    (fun w' hw' => ?_)
    fun pre i post w' hl hw' => ?_
  · rw [List.length_range, List.take_length] at hw'
    exact ⟨rfl, hw'⟩
  · -- the index is the number of locations seen so far
    have hi : i = pre.length := by
      have hget : (List.range locs.length)[pre.length]? = some i := by rw [hl]; simp
      rw [List.getElem?_range] at hget
      · exact (Option.some.inj hget).symm
      · have hlen := congrArg List.length hl
        simp only [List.length_range, List.length_append, List.length_cons] at hlen
        omega
    have hlt : i < locs.length := by
      have hlen := congrArg List.length hl
      simp only [List.length_range, List.length_append, List.length_cons] at hlen
      omega
    subst hi
    have hget : locs.getD pre.length 0 = locs[pre.length] := by
      rw [List.getD_eq_getElem?_getD, List.getElem?_eq_getElem hlt]
      rfl
    have htake : locs.take (pre ++ [pre.length]).length = locs.take pre.length ++ [locs[pre.length]] := by
      rw [List.length_append, List.length_singleton, List.take_succ_eq_append_getElem hlt]
    have hsplit : locs = locs.take pre.length ++ locs.drop pre.length := (List.take_append_drop _ _).symm
    rw [hget, htake]
    have hnot : locs[pre.length] ∉ locs.take pre.length := by
      have hnodup : (locs.take pre.length ++ [locs[pre.length]]).Nodup := by
        rw [← List.take_succ_eq_append_getElem hlt]
        exact hm.nodup.sublist (List.take_sublist _ _)
      exact fun hin => (List.nodup_append.1 hnodup).2.2 _ hin _ (List.mem_singleton_self _) rfl
    exact wp_mono (initLoc_spec hfresh hm.mainRules hw' hnot (List.getElem_mem hlt) fun b hb => List.mem_of_mem_take hb)
      (fun _ _ h => h) (fun rc w'' h => ⟨h.1, h.2.accounted hsplit hm.nodup⟩)

/-! ## Ending -/

/-- an owner's WAF is not the main one -/
theorem Accounted.ne_main (h : Accounted m0 w) (ha : a ∈ m0.main.locConfs) (ho : (w.mem.confs a).wafOwner = true) :
    (w.mem.confs a).waf ≠ w.mem.main.waf := by
  intro heq
  have hne := h.nonzero a ha ho
  have hdistinct := h.distinct
  rw [h.handles, if_neg (fun hz => hne (heq.trans hz)), List.singleton_append, List.nodup_cons] at hdistinct
  refine hdistinct.1 (heq ▸ List.mem_map.2 ⟨a, List.mem_filter.2 ⟨ha, ho⟩, rfl⟩)

/-- what the end of the process leaves -/
structure Ended (m0 : Memory) (w w' : Worker) : Prop where
  trace : w'.trace = w.trace ++ ((m0.main.locConfs.filter fun a => (w.mem.confs a).wafOwner).map fun a =>
    .freeWaf (w.mem.confs a).waf) ++ if w.mem.main.waf = 0 then [] else [.freeWaf w.mem.main.waf]
  locs : ∀ a ∈ m0.main.locConfs, (w'.mem.confs a).waf = 0 ∧ (w'.mem.confs a).wafOwner = false
  main : w'.mem.main.waf = 0

/-- **Ending.** First the owners' handles are freed, then all are forgotten, then the main one. -/
theorem exitProcess_spec (h : Accounted m0 w) {Q : Unit → Worker → Prop} {E : ρ → Worker → Prop}
    (hQ : ∀ w', Ended m0 w w' → Q () w') : wp (exitProcess : WorkerCode ρ Unit) Q E e w := by
  rw [exitProcess, wp_bind, wp_get, h.locConfs, wp_bind]
  set locs := m0.main.locConfs
  set owner : ℕ → Bool := fun a => (w.mem.confs a).wafOwner
  set free : ℕ → WafCall := fun a => .freeWaf (w.mem.confs a).waf
  refine wp_forEach (fun done t => t = { w with trace := w.trace ++ (done.filter owner).map free }) locs _
    (by rw [List.filter_nil, List.map_nil, List.append_nil]) (fun t ht => ?_) fun pre a post t hl ht => ?_
  · subst ht
    set w1 : Worker := { w with trace := w.trace ++ (locs.filter owner).map free }
    rw [wp_bind]
    refine wp_forEach (fun done t => t.trace = w1.trace ∧ t.mem.main = w1.mem.main ∧
        ∀ a ∈ done, (t.mem.confs a).waf = 0 ∧ (t.mem.confs a).wafOwner = false)
      locs _ ⟨rfl, rfl, nofun⟩ (fun t ht => ?_)
      fun pre a post t hl ht => ?_
    · obtain ⟨htrace, hmain, hlocs⟩ := ht
      rw [wp_bind, wp_get, hmain]
      refine (wp_when _ _).2 ⟨fun hne => ?_, fun hz => ?_⟩
      · rw [wp_bind, freeWaf, wp_modify, wp_modify]
        refine hQ _ ⟨?_, hlocs, rfl⟩
        change t.trace ++ [_] = _
        rw [htrace, if_neg hne]
      · have hz' : w.mem.main.waf = 0 := not_not.1 hz
        refine hQ _ ⟨?_, hlocs, (congrArg MainConf.waf hmain).trans hz'⟩
        rw [htrace, if_pos hz', List.append_nil]
    · obtain ⟨htrace, hmain, hlocs⟩ := ht
      rw [wp_modify]
      refine ⟨htrace, hmain, fun b hb => ?_⟩
      by_cases hba : b = a
      · have hself : (t.setConf a { t.mem.confs a with waf := 0, wafOwner := false }).mem.confs b =
            { t.mem.confs a with waf := 0, wafOwner := false } := by
          rw [hba]
          exact Function.update_self _ _ _
        rw [hself]
        exact ⟨rfl, rfl⟩
      · have hother : (t.setConf a { t.mem.confs a with waf := 0, wafOwner := false }).mem.confs b = t.mem.confs b :=
          Function.update_of_ne hba _ _
        rw [hother]
        exact hlocs b ((List.mem_append.1 hb).resolve_right fun hs => hba (List.mem_singleton.1 hs))
  · subst ht
    have ha : a ∈ locs := by rw [hl]; simp
    have hstep : (pre ++ [a]).filter owner = pre.filter owner ++ if owner a = true then [a] else [] := by
      rw [List.filter_append, List.filter_singleton]
      cases owner a <;> rfl
    rw [wp_bind, wp_get]
    refine (wp_when _ _).2 ⟨fun ho => ?_, fun ho => ?_⟩
    · have howner : owner a = true := ho.1
      rw [freeWaf, wp_modify, hstep, if_pos howner, List.map_append, ← List.append_assoc]
      rfl
    · have howner : ¬ owner a = true := fun hyes => ho ⟨hyes, h.nonzero a ha hyes, h.ne_main ha hyes⟩
      rw [hstep, if_neg howner, List.append_nil]

/-! ## The life of a worker -/

/-- the process starts -/
def started (e : WafEnv) (m : Memory) : ℤ × Worker := initProcess.run e ⟨m, []⟩

/-- the process has started, or failed to, and ends -/
def ended (e : WafEnv) (m : Memory) : Worker := ((exitProcess : WorkerCode Unit Unit).run e (started e m).2).2

/-- what a successful start leaves -/
structure SharesExactly (m : Memory) (w : Worker) : Prop where
  holds : ∀ a ∈ m.main.locConfs, WithRules m a → (w.mem.confs a).waf ≠ 0 ∧
    Compiled w.trace (w.mem.confs a).waf ((m.rulesOf a).map RuleEntry.cstr)
  none : ∀ a ∈ m.main.locConfs, ¬ WithRules m a → (w.mem.confs a).waf = 0
  shares : ∀ a ∈ m.main.locConfs, ∀ b ∈ m.main.locConfs, WithRules m a → WithRules m b →
    ((w.mem.confs a).waf = (w.mem.confs b).waf ↔ m.rulesOf a = m.rulesOf b)
  owner : ∀ a ∈ m.main.locConfs, WithRules m a → ∃! o, o ∈ m.main.locConfs ∧ (w.mem.confs o).wafOwner = true ∧
    (w.mem.confs o).waf = (w.mem.confs a).waf
  notMain : ∀ a ∈ m.main.locConfs, (w.mem.confs a).waf ≠ w.mem.main.waf
  builds : (built w.trace).length = 1 + ((m.main.locConfs.filter (WithRules m ·)).map m.rulesOf).toFinset.card

/-- what the end leaves after a start that left `w`: every handle built is freed once and nothing else, every
configuration handle is freed, no handle is held -/
structure FreedOnce (m : Memory) (w w' : Worker) : Prop where
  once : ∀ waf, (freed w'.trace).count waf = if waf ∈ built w.trace then 1 else 0
  configs : Balanced w'.trace
  locs : ∀ a ∈ m.main.locConfs, (w'.mem.confs a).waf = 0
  main : w'.mem.main.waf = 0

theorem Building.shares (h : Building m m.main.locConfs w) (hm : Initial m) : SharesExactly m w := by
  have hwith : ∀ {a}, a ∈ m.main.locConfs → WithRules m a → holder w.mem a ∈ holders w.mem m.main.locConfs := by
    intro a ha hw
    exact List.mem_map.2 ⟨a, List.mem_filter.2 ⟨ha, decide_eq_true ((h.same.withRules a).2 hw)⟩, rfl⟩
  have hacc := h.accounted (List.append_nil _).symm hm.nodup
  refine ⟨fun a ha hw => h.compiled a ha hw, fun a ha hno => (h.idle a ha (Or.inr hno)).1, fun a ha b hb hwa hwb => ?_,
    fun a ha hw => ?_, fun a ha heq => ?_, ?_⟩
  · have hsame := h.shared.same _ (hwith ha hwa) _ (hwith hb hwb)
    rw [← h.same.rulesOf, ← h.same.rulesOf]
    exact hsame
  · obtain ⟨x, hx, hxa⟩ := h.shared.owned _ (hwith ha hw)
    obtain ⟨o, ho, howner, rfl⟩ := (h.mem_owners_iff (fun _ hb => hb) x).1 hx
    refine ⟨o, ⟨ho, howner, hxa⟩, fun o' ⟨ho', howner', heq⟩ => ?_⟩
    -- the owners' handles are all different
    have hdistinct := hacc.distinct
    rw [hacc.handles, List.nodup_append] at hdistinct
    exact List.inj_on_of_nodup_map hdistinct.2.1 (List.mem_filter.2 ⟨ho', howner'⟩) (List.mem_filter.2 ⟨ho, howner⟩)
      (heq.trans hxa.symm)
  · by_cases hw : WithRules m a
    · obtain ⟨x, hx, hxa⟩ := h.shared.owned _ (hwith ha hw)
      obtain ⟨o, ho, howner, rfl⟩ := (h.mem_owners_iff (fun _ hb => hb) x).1 hx
      exact hacc.ne_main ho howner (hxa.trans heq)
    · exact h.mainWaf (heq.symm.trans (h.idle a ha (Or.inr hw)).1)
  · have hlength := h.shared.owners_length
    have hkeys : (holders w.mem m.main.locConfs).map (·.key) =
        (m.main.locConfs.filter (WithRules m ·)).map m.rulesOf := by
      rw [holders, List.map_map, List.filter_congr fun a _ => decide_eq_decide.2 (h.same.withRules a)]
      exact List.map_congr_left fun a _ => h.same.rulesOf a
    rw [h.handles, List.length_cons, List.length_map, hlength, hkeys, Nat.add_comm]

/-- where no rule has a NUL in it, a location's handle was compiled from its rules as they are written -/
theorem SharesExactly.compiled_whole (h : SharesExactly m w) {a : ℕ} (ha : a ∈ m.main.locConfs) (hw : WithRules m a)
    (hnul : ∀ entry ∈ m.rulesOf a, 0 ∉ entry.value) : Compiled w.trace (w.mem.confs a).waf (m.rulesOf a) := by
  have hwhole : (m.rulesOf a).map RuleEntry.cstr = m.rulesOf a :=
    (List.map_congr_left fun entry hin => RuleEntry.cstr_eq_self_iff.2 (hnul entry hin)).trans (List.map_id _)
  have hcompiled := (h.holds a ha hw).2
  rwa [hwhole] at hcompiled

theorem freed_map (l : List ℕ) : freed (l.map .freeWaf) = l := by
  induction l with
  | nil => rfl
  | cons a l ih =>
    rw [List.map_cons]
    change a :: freed (l.map .freeWaf) = _
    rw [ih]

theorem Ended.freedOnce (h : Ended m0 w w') (hacc : Accounted m0 w) : FreedOnce m0 w w' := by
  set frees :=
    ((m0.main.locConfs.filter fun a => (w.mem.confs a).wafOwner).map fun a => (w.mem.confs a).waf) with hfrees
  have htrace : w'.trace = w.trace ++ (frees ++ if w.mem.main.waf = 0 then [] else [w.mem.main.waf]).map .freeWaf := by
    rw [h.trace, List.map_append, hfrees, List.map_map, List.append_assoc]
    congr 2
    split_ifs <;> rfl
  refine ⟨fun waf => ?_, ?_, fun a ha => (h.locs a ha).1, h.main⟩
  · have hperm : (freed w'.trace).Perm (built w.trace) := by
      rw [htrace, freed_append, hacc.unfreed, List.nil_append, freed_map, hacc.handles]
      exact List.perm_append_comm
    rw [hperm.count_eq]
    split_ifs with hin
    · exact List.count_eq_one_of_mem hacc.distinct hin
    · exact List.count_eq_zero_of_not_mem hin
  · rw [htrace]
    refine hacc.balanced.append (.of_other fun x hx c => ?_)
    obtain ⟨y, -, rfl⟩ := List.mem_map.1 hx
    exact ⟨nofun, nofun⟩

/-- a start that succeeds shares exactly -/
theorem started_shares (hfresh : Fresh e) (hm : Initial m) (hok : (started e m).1 = ngxOk) :
    SharesExactly m (started e m).2 := by
  have hne : ngxOk ≠ ngxError := by decide
  have hstart : (started e m).1 = ngxOk → Building m m.main.locConfs (started e m).2 :=
    (wp_run (Q := fun rc w => rc = ngxOk → Building m m.main.locConfs w) _).1
      (wp_mono (initProcess_spec hfresh hm) (fun _ _ h _ => h.2) fun _ _ h hok => absurd (hok.symm.trans h.1) hne)
  exact (hstart hok).shares hm

/-- **Sharing is exact and every WAF is freed once.** For every list of locations, every array they have, and whatever
fails: a start that succeeds leaves each location a handle of its own rules, as C strings, shared exactly, and the end
frees what any start has built, once. -/
theorem waf_sharing_exact (e : WafEnv) (m : Memory) (hfresh : Fresh e) (hm : Initial m) :
    ((started e m).1 = ngxOk → SharesExactly m (started e m).2) ∧ FreedOnce m (started e m).2 (ended e m) := by
  have hne : ngxOk ≠ ngxError := by decide
  have hstart : ((started e m).1 = ngxOk ∧ Building m m.main.locConfs (started e m).2) ∨
      ((started e m).1 = ngxError ∧ Accounted m (started e m).2) :=
    (wp_run (Q := fun rc w => (rc = ngxOk ∧ Building m m.main.locConfs w) ∨ (rc = ngxError ∧ Accounted m w)) _).1
      (wp_mono (initProcess_spec hfresh hm) (fun _ _ h => Or.inl h) fun _ _ h => Or.inr h)
  have hacc : Accounted m (started e m).2 :=
    hstart.elim (fun h => h.2.accounted (List.append_nil _).symm hm.nodup) And.right
  refine ⟨fun hok => ?_, ?_⟩
  · exact (hstart.resolve_right fun h => hne (hok.symm.trans h.1)).2.shares hm
  · have hend : Ended m (started e m).2 (ended e m) :=
      run_state (P := Ended m (started e m).2) (exitProcess_spec hacc fun _ h => h)
    exact hend.freedOnce hacc

/-- the configuration leaves what a worker starts from -/
theorem merged_initial {e : Env} {http : Body} {order : List ℕ} (horder : MergeOrder e http order)
    (hok : (merged e http order).1 = true) : Initial (merged e http order).2 := by
  have hm := merged_spec horder.toTopDown hok
  refine ⟨by rw [hm.locConfs]; exact horder.nodup, hm.mainRules, hm.mainWaf, fun a ha => ?_⟩
  rw [hm.locConfs] at ha
  exact hm.waf a (by rw [hm.count]; exact (horder.below a ha).2)

/-- an engine that takes every rule and counts its handles up -/
def countingEnv : WafEnv := ⟨true, fun _ => true, fun t => t.length + 1, fun _ _ => 0, fun t => (built t).sum + 1⟩

theorem countingEnv_fresh : Fresh countingEnv := by
  intro t _ hin
  have hle : (built t).sum + 1 ≤ (built t).sum := List.le_sum_of_mem hin
  omega

/-- the location that turns coraza off shares its server's WAF -/
theorem nestedFile_shares : (started countingEnv (merged calmEnv nestedFile [1, 2, 3]).2).1 = ngxOk ∧
    ((started countingEnv (merged calmEnv nestedFile [1, 2, 3]).2).2.mem.confs 1).waf ≠ 0 ∧
    ((started countingEnv (merged calmEnv nestedFile [1, 2, 3]).2).2.mem.confs 1).waf =
      ((started countingEnv (merged calmEnv nestedFile [1, 2, 3]).2).2.mem.confs 3).waf := by
  have horder : MergeOrder calmEnv nestedFile [1, 2, 3] := fileOrder_mergeOrder calmEnv nestedFile
  have hinit := merged_initial horder (by decide +kernel)
  have hok : (started countingEnv (merged calmEnv nestedFile [1, 2, 3]).2).1 = ngxOk := by decide +kernel
  have hshares := (waf_sharing_exact countingEnv _ countingEnv_fresh hinit).1 hok
  refine ⟨hok, (hshares.holds 1 (by decide +kernel) (by decide +kernel)).1, ?_⟩
  exact (hshares.shares 1 (by decide +kernel) 3 (by decide +kernel) (by decide +kernel) (by decide +kernel)).2
    (by decide +kernel)

/-- a server whose rule has a NUL in it -/
def nulFile : Body := .block (.directive (.corazaRules [65, 0, 66]) .done) .done

/-- its WAF was compiled from what stands before the NUL, and not from the rule as it was written -/
theorem nulFile_cut : MergeOrder calmEnv nulFile [1] ∧ (merged calmEnv nulFile [1]).1 = true ∧
    (started countingEnv (merged calmEnv nulFile [1]).2).1 = ngxOk ∧
    (merged calmEnv nulFile [1]).2.rulesOf 1 = [⟨.inline, [65, 0, 66]⟩] ∧
    Compiled (started countingEnv (merged calmEnv nulFile [1]).2).2.trace
      ((started countingEnv (merged calmEnv nulFile [1]).2).2.mem.confs 1).waf [⟨.inline, [65]⟩] ∧
    ¬ Compiled (started countingEnv (merged calmEnv nulFile [1]).2).2.trace
      ((started countingEnv (merged calmEnv nulFile [1]).2).2.mem.confs 1).waf
        ((merged calmEnv nulFile [1]).2.rulesOf 1) := by
  have hrules : (merged calmEnv nulFile [1]).2.rulesOf 1 = [⟨.inline, [65, 0, 66]⟩] := by decide +kernel
  have htrace : (started countingEnv (merged calmEnv nulFile [1]).2).2.trace =
      [.newWafConfig 1, .newWaf 1 1, .freeWafConfig 1, .newWafConfig 4, .rulesAdd 4 ⟨.inline, [65]⟩ 0, .newWaf 4 2,
        .freeWafConfig 4] := by decide +kernel
  have hwaf : ((started countingEnv (merged calmEnv nulFile [1]).2).2.mem.confs 1).waf = 2 := by decide +kernel
  refine ⟨fileOrder_mergeOrder calmEnv nulFile, by decide +kernel, by decide +kernel, hrules, ?_, fun h => ?_⟩
  · rw [htrace, hwaf]
    exact ⟨[.newWafConfig 1, .newWaf 1 1, .freeWafConfig 1], 4, [.rulesAdd 4 ⟨.inline, [65]⟩ 0],
      [.freeWafConfig 4], rfl, rfl⟩
  · rw [hrules] at h
    obtain ⟨config, rc, hin⟩ := h.added (List.mem_singleton_self _)
    rw [htrace] at hin
    simp at hin

end CorazaNginx.Config
