/-
Which rules judge a request: from the configuration file to the transactions made for it.

A worker has started on a configuration that nginx has read and merged, and serves a request whose handlers nginx calls
in any servers and locations of the file, one after the other (`Step.InFile`). `transactions_from_configuration`: every
transaction made in the run is made of a WAF the worker built at its start, from exactly the rules that the file has on
the way down to a block in which it turns coraza on; a block without rules gets the main WAF, which has none. And no
handler asks for a transaction of anything else.
- `callback_asks`: one handler call asks for a transaction of the WAF its location names, or for none;
- `started_begins`: the main WAF has no rules, and what the worker builds for its locations leaves it alone.
-/
import Mathlib.Tactic
import CorazaNginx.Config.Ruleless
import CorazaNginx.Lifecycle.Handles

namespace CorazaNginx

open CorazaNginx.Core Prog

variable {ρ α : Type}

/-! ## The main WAF -/

namespace Config

/-- what a request reads of a configuration, apart from the WAF -/
def Conf.settings (c : Conf) : ℤ × ℤ × Option (Option Bytes) := (c.enable, c.delayResponseHeaders, c.transactionId)

/-- the record goes on; the main WAF and all settings stay -/
structure SameMain (w w' : Worker) : Prop where
  trace : w.trace <+: w'.trace
  waf : w'.mem.main.waf = w.mem.main.waf
  settings : ∀ a, (w'.mem.confs a).settings = (w.mem.confs a).settings

theorem SameMain.refl (w : Worker) : SameMain w w := ⟨List.prefix_refl _, rfl, fun _ => rfl⟩

theorem SameMain.trans (u v w : Worker) (h : SameMain u v) (h' : SameMain v w) : SameMain u w :=
  ⟨h.trace.trans h'.trace, h'.waf.trans h.waf, fun a => (h'.settings a).trans (h.settings a)⟩

theorem SameMain.log (w : Worker) (c : WafCall) : SameMain w (w.log c) := ⟨List.prefix_append _ _, rfl, fun _ => rfl⟩

theorem SameMain.setConf (w : Worker) {a : ℕ} {c : Conf} (hc : c.settings = (w.mem.confs a).settings) :
    SameMain w (w.setConf a c) := by
  refine ⟨List.prefix_refl _, rfl, fun b => ?_⟩
  by_cases hb : b = a
  · subst hb
    rw [Worker.setConf, Memory.setConf]
    dsimp only
    rw [Function.update_self, hc]
  · rw [Worker.setConf, Memory.setConf]
    dsimp only
    rw [Function.update_of_ne hb]

theorem sameMain_keeps : Compositional (ε := WafEnv) fun {_ _} => Guar SameMain := .guar SameMain.refl SameMain.trans

theorem newWafConfig_sameMain : Guar SameMain (newWafConfig : WorkerCode ρ ℕ) := fun _ w => SameMain.log w _

theorem rulesAdd_sameMain (config : ℕ) (entry : RuleEntry) : Guar SameMain (rulesAdd config entry : WorkerCode ρ ℤ) :=
  fun _ w => SameMain.log w _

theorem newWaf_sameMain (config : ℕ) : Guar SameMain (newWaf config : WorkerCode ρ ℕ) := fun _ w => SameMain.log w _

theorem freeWafConfig_sameMain (config : ℕ) : Guar SameMain (freeWafConfig config : WorkerCode ρ Unit) := fun _ w =>
  SameMain.log w _

theorem malloc_sameMain : Guar SameMain (malloc : WorkerCode ρ Bool) := fun _ w => SameMain.refl w

theorem buildWaf_sameMain (rules : List RuleEntry) : Guar SameMain (buildWaf rules : WorkerCode ρ ℕ) := by
  have hk := sameMain_keeps
  refine hk.call (hk.bind (hk.when (hk.exit 0)) fun _ => ?_)
  refine hk.bind newWafConfig_sameMain fun config => hk.bind (hk.when (hk.exit 0)) fun _ => ?_
  refine hk.bind (hk.forEach fun entry _ => ?_) fun _ => ?_
  · refine hk.bind malloc_sameMain fun got => ?_
    refine hk.bind (hk.when (hk.bind (freeWafConfig_sameMain config) fun _ => hk.exit 0)) fun _ => ?_
    refine hk.bind (rulesAdd_sameMain config entry) fun rc => ?_
    exact hk.when (hk.bind (freeWafConfig_sameMain config) fun _ => hk.exit 0)
  · exact hk.bind (newWaf_sameMain config) fun waf => hk.bind (freeWafConfig_sameMain config) fun _ => hk.pure waf

/-- a location's WAF is its own affair -/
theorem initLoc_sameMain (earlier : List ℕ) (a : ℕ) : Guar SameMain (initLoc earlier a) := by
  have hk := sameMain_keeps
  have hset : ∀ f : Conf → Conf, (∀ c, (f c).settings = c.settings) →
      Guar SameMain (modify fun w : Worker => w.setConf a (f (w.mem.confs a)) : WorkerCode ℤ Unit) :=
    fun f hf => Guar.modify fun w => SameMain.setConf w (hf _)
  refine hk.bind hk.get fun v => hk.when (hk.ite ?_ ?_)
  · exact hset (fun c => { c with waf := v.mem.main.waf }) fun _ => rfl
  · cases earlier.find? fun j =>
      (v.mem.confs j).wafOwner && (v.mem.confs j).waf ≠ 0 && rulesEqual v.mem (v.mem.confs j).rules
        (v.mem.confs a).rules with
    | some j => exact hset (fun c => { c with waf := (v.mem.confs j).waf, wafOwner := false }) fun _ => rfl
    | none =>
      refine hk.bind (buildWaf_sameMain _) fun waf => hk.bind (hset (fun c => { c with waf := waf }) fun _ => rfl)
        fun _ => ?_
      exact hk.bind (hk.when (hk.exit ngxError)) fun _ => hset (fun c => { c with wafOwner := true }) fun _ => rfl

/-- the main WAF has no rules, and the settings are those of `m` -/
structure Begins (m : Memory) (w : Worker) : Prop where
  main : Compiled w.trace w.mem.main.waf []
  settings : ∀ a, (w.mem.confs a).settings = (m.confs a).settings

/-- the main WAF is compiled from the empty array -/
theorem initMain_begins {e : WafEnv} {m : Memory} (hm : Initial m) :
    wp initMain (fun _ w' => Begins m w') (fun rc _ => rc = ngxError) e ⟨m, []⟩ := by
  rw [initMain, wp_bind, wp_get]
  dsimp only
  refine (wp_ite _ _ _).2 ⟨fun hne => absurd hm.mainRules hne, fun _ => ?_⟩
  rw [wp_bind, newWafConfig, wp_bind, wp_ask, wp_bind, wp_get, wp_bind, wp_modify, wp_pure, wp_bind]
  set cfg := e.newWafConfig []
  refine (wp_when _ _).2 ⟨fun _ => ?_, fun _ => ?_⟩
  · rw [wp_bind, newWaf, wp_bind, wp_ask, wp_bind, wp_get, wp_bind, wp_modify, wp_pure, wp_bind, wp_modify,
      freeWafConfig, wp_modify, wp_bind, wp_get]
    refine (wp_when _ _).2 ⟨fun _ => rfl, fun _ => ?_⟩
    exact ⟨⟨[], cfg, [], [.freeWafConfig cfg], rfl, rfl⟩, fun _ => rfl⟩
  · rw [wp_bind, wp_get]
    exact (wp_when _ _).2 ⟨fun _ => rfl, fun hz => absurd hm.mainWaf hz⟩

/-- **The main WAF** of a worker that has started has no rules, and the configuration is what it was. -/
theorem started_begins {e : WafEnv} {m : Memory} (hm : Initial m) (hok : (started e m).1 = ngxOk) :
    Begins m (started e m).2 := by
  have hne : ngxOk ≠ ngxError := by decide
  have hloop : ∀ locs : List ℕ, Guar SameMain
      (forEach (List.range locs.length) fun i => initLoc (locs.take i) (locs.getD i 0) : WorkerCode ℤ Unit) :=
    fun locs =>
    sameMain_keeps.forEach fun i _ => initLoc_sameMain _ _
  have hspec : wp initProcess (fun rc w => rc = ngxOk → Begins m w) (fun rc w => rc = ngxOk → Begins m w) e
      ⟨m, []⟩ := by
    rw [initProcess, wp_bind, wp_ask, wp_bind]
    refine (wp_when _ _).2 ⟨fun _ h => absurd h.symm hne, fun _ => ?_⟩
    refine (wp_bind _ _).2
      (wp_mono (initMain_begins hm) (fun _ w1 h1 => ?_) (fun _ _ hrc h => absurd (h.symm.trans hrc) hne))
    have hlater : ∀ w', SameMain w1 w' → Begins m w' := by
      rintro w' ⟨⟨evs, htr⟩, hwaf, hset⟩
      refine ⟨?_, fun a => (hset a).trans (h1.settings a)⟩
      rw [← htr, hwaf]
      exact h1.main.append evs
    rw [wp_bind, wp_get, wp_bind]
    exact wp_mono (hloop _ e w1) (fun _ w' hw' _ => hlater w' hw') (fun _ w' hw' _ => hlater w' hw')
  exact (wp_run (Q := fun rc w => rc = ngxOk → Begins m w) _).1 hspec hok

/-- a worker that has started has freed nothing -/
theorem started_unfreed {e : WafEnv} {m : Memory} (hfresh : Fresh e) (hm : Initial m) (hok : (started e m).1 = ngxOk) :
    freed (started e m).2.trace = [] := by
  have hne : ngxOk ≠ ngxError := by decide
  have hspec : wp initProcess (fun rc w => rc = ngxOk → freed w.trace = [])
      (fun rc w => rc = ngxOk → freed w.trace = [])
      e ⟨m, []⟩ :=
    wp_mono (initProcess_spec hfresh hm) (fun _ _ h _ => h.2.unfreed) (fun _ _ h hok => absurd (hok.symm.trans h.1) hne)
  exact (wp_run (Q := fun rc w => rc = ngxOk → freed w.trace = []) _).1 hspec hok

theorem Compiled.mem_built {t : WafTrace} {waf : ℕ} {rules : List RuleEntry} (h : Compiled t waf rules) (h0 : waf ≠ 0) :
    waf ∈ built t := by
  obtain ⟨pre, config, block, post, rfl, -⟩ := h
  refine List.mem_filterMap.2 ⟨.newWaf config waf, ?_, if_neg h0⟩
  simp

/-- what `ngx_http_get_module_loc_conf` finds for a request in the block at `a` -/
def Memory.loc (m : Memory) (a : ℕ) : LocConf where
  enable := (m.confs a).enable
  delayResponseHeaders := (m.confs a).delayResponseHeaders
  waf := (m.confs a).waf
  transactionId := (m.confs a).transactionId ≠ some none

end Config

/-! ## One handler call -/

/-- a transaction that is asked for in `w` is one of the WAF of the location, which has coraza on, and has an id if the
location sets one -/
def Event.AskedIn (w : World) : Event → Prop
  | .call (.newTransaction waf id) _ => w.r.loc.enable = 1 ∧ waf = w.waf ∧ waf ≠ 0 ∧ id.isSome = w.r.loc.transactionId
  | _ => True

/-- what `w` has come to asks for nothing else -/
structure Asks (w w' : World) : Prop where
  mainWaf : w'.mainWaf = w.mainWaf
  trace : ∃ evs : Trace, w'.trace = w.trace ++ evs ∧ ∀ ev ∈ evs, ev.AskedIn w

theorem Event.Within.asked {tx : ℕ} {P : EngineCall → Prop} {ev : Event} {w : World} (h : ev.Within tx P) :
    ev.AskedIn w := by
  cases ev with
  | poll => trivial
  | call c rc =>
    cases c with
    | newTransaction => exact h.elim
    | _ => trivial

theorem Event.Outside.asked {ev : Event} {w : World} (h : ev.Outside) : ev.AskedIn w := (h 0).asked

section
variable {e : Env} {w w' w'' : World} {a : ℕ} {s : St}

theorem Asks.refl (w : World) : Asks w w := ⟨rfl, [], (List.append_nil _).symm, fun _ h => absurd h List.not_mem_nil⟩

theorem Asks.logs (h : Asks w w') {evs : Trace} (hmain : w''.mainWaf = w'.mainWaf) (htr : w''.trace = w'.trace ++ evs)
    (hevs : ∀ ev ∈ evs, ev.AskedIn w) : Asks w w'' := by
  obtain ⟨evs₀, htr₀, hevs₀⟩ := h.trace
  refine ⟨hmain.trans h.mainWaf, evs₀ ++ evs, ?_, List.forall_mem_append.2 ⟨hevs₀, hevs⟩⟩
  rw [htr, htr₀, List.append_assoc]

theorem Asks.log (h : Asks w w') {ev : Event} (hmain : w''.mainWaf = w'.mainWaf) (htr : w''.trace = w'.trace ++ [ev])
    (hev : ev.AskedIn w) : Asks w w'' :=
  h.logs hmain htr fun x hx => by rwa [List.mem_singleton.1 hx]

theorem Asks.within (h : Asks w w') {tx : ℕ} {P : EngineCall → Prop} {evs : Trace} (hmain : w''.mainWaf = w'.mainWaf)
    (htr : w''.trace = w'.trace ++ evs) (hevs : ∀ ev ∈ evs, ev.Within tx P) : Asks w w'' :=
  h.logs hmain htr fun ev hev => (hevs ev hev).asked

theorem Asks.confined (h : Asks w w') {P : EngineCall → Prop} (hc : Confined P (w'.view a) s) :
    Asks w (w'.put a s) := by
  obtain ⟨evs, htr, hevs⟩ := hc.trace
  exact h.within rfl htr hevs

/-- from the call that makes the transaction on -/
theorem openCtx_asks (id : Option Bytes) (h : Asks w w') (hon : w.r.loc.enable = 1) (h0 : w.waf ≠ 0)
    (hid : id.isSome = w.r.loc.transactionId) : wp (do
      let tx ← Hook.newTransaction w.waf id
      when (tx = 0) do exit none
      modify fun v => v.install tx
      let registered ← Hook.addCleanup w.ctxCount
      when (!registered) do exit none
      let kept ← Hook.keepId w.ctxCount id
      when (!kept) do exit none
      return some w.ctxCount : Hook (Option ℕ) (Option ℕ)) (fun _ => Asks w) (fun _ => Asks w) e w' := by
  rw [wp_bind, Hook.wp_newTransaction, wp_bind]
  set rc := e.ret w'.trace (.newTransaction w.waf id)
  have h1 : Asks w (w'.log (.call (.newTransaction w.waf id) rc)) := h.log rfl rfl ⟨hon, rfl, h0, hid⟩
  refine (wp_when _ _).2 ⟨fun _ => h1, fun _ => ?_⟩
  rw [wp_bind, wp_modify, wp_bind]
  set u := (w'.log (.call (.newTransaction w.waf id) rc)).install rc.toNat
  have h2 : Asks w u := ⟨h1.mainWaf, h1.trace⟩
  refine addCleanup_spec w.ctxCount (fun frc => ?_) (fun cln _ => ?_)
  · have h3 : Asks w (u.log (.call .cleanupAdd 0)) := h2.log rfl rfl trivial
    have h4 : Asks w (((u.log (.call .cleanupAdd 0)).log
        (.call (.engine (u.ctxs w.ctxCount).corazaTransaction .freeTransaction) frc)).setCtx w.ctxCount
          { u.ctxs w.ctxCount with corazaTransaction := 0 }) := h3.log rfl rfl trivial
    rw [wp_bind]
    exact (wp_when _ _).2 ⟨fun _ => h4, fun hno => absurd rfl hno⟩
  · have h3 : Asks w { u.log (.call .cleanupAdd cln) with cleanups := w.ctxCount :: u.cleanups } :=
      h2.log rfl rfl trivial
    rw [wp_bind]
    refine (wp_when _ _).2 ⟨fun hno => absurd hno (by decide), fun _ => ?_⟩
    rw [wp_bind]
    refine keepId_spec w.ctxCount id (fun n => ?_) (fun evs id' hevs => ?_)
    · rw [wp_bind]
      exact (wp_when _ _).2 ⟨fun _ => h3.log rfl rfl trivial, fun hno => absurd rfl hno⟩
    · rw [wp_bind]
      refine (wp_when _ _).2 ⟨fun hno => absurd hno (by decide), fun _ => ?_⟩
      exact h3.logs rfl rfl fun ev hev => (hevs ev hev).asked

/-- the context is made of the WAF the location names, or of the main one -/
theorem createCtx_asks (hon : w.r.loc.enable = 1) {E : ρ → World → Prop} :
    wp (Hook.createCtx : Hook ρ (Option ℕ)) (fun _ => Asks w) E e w := by
  rw [Hook.createCtx, wp_call, wp_bind, Hook.wp_invoke, wp_bind]
  set e1 := Event.call (.alloc 128) (e.ret w.trace (.alloc 128))
  have h1 : Asks w (w.log e1) := (Asks.refl w).log rfl rfl trivial
  refine (wp_when _ _).2 ⟨fun _ => h1, fun _ => ?_⟩
  rw [wp_bind, wp_get, wp_bind]
  refine (wp_when _ _).2 ⟨fun _ => h1, fun h0 => ?_⟩
  rw [wp_bind, Hook.evaluateId, wp_bind, wp_ask, wp_bind, wp_get]
  refine (wp_ite _ _ _).2 ⟨fun hid => ?_, fun hid => ?_⟩
  · rw [wp_bind, Hook.wp_invoke, wp_pure]
    have h2 : Asks w ((w.log e1).log (.call .complexValue (e.ret (w.log e1).trace .complexValue))) :=
      h1.log rfl rfl trivial
    split
    · exact h2
    · rename_i id hsome
      refine openCtx_asks id h2 hon h0 ?_
      split_ifs at hsome
      rw [← Option.some.inj hsome]
      exact hid.symm
  · rw [wp_pure]
    exact openCtx_asks none h1 hon h0 (Bool.eq_false_of_not_eq_true hid).symm

theorem rewrite_asks : wp Hook.rewrite (fun _ => Asks w) (fun _ => Asks w) e w := by
  rw [Hook.rewrite, wp_bind, wp_get, wp_bind]
  refine (wp_when _ _).2 ⟨fun _ => Asks.refl w, fun hon => ?_⟩
  cases hinst : w.installed with
  | some a => exact Asks.refl w
  | none =>
    rw [wp_bind]
    have hcreated : wp (Hook.createCtx : Hook ℤ (Option ℕ)) (Created e w) (fun _ _ => False) e w :=
      createCtx_spec fun _ _ h => h
    refine wp_mono (wp_and hcreated (createCtx_asks (not_not.1 hon) (E := fun _ _ => True))) (fun res w' hw' => ?_)
      (fun _ _ h => h.1.elim)
    cases res with
    | none => exact hw'.2
    | some a =>
      have ha : a = w.ctxCount := by cases hw'.1; rfl
      subst ha
      obtain ⟨tx, evs, behind, hopened⟩ := hw'.1.opened
      obtain ⟨id, hctx⟩ := hopened.ctx
      have henable : (w'.view w.ctxCount).r.loc.enable = 1 := by
        change w'.r.loc.enable = 1
        rw [hopened.r]
        exact not_not.1 hon
      have hlog : (w'.view w.ctxCount).ctx.logged = false := by
        change (w'.ctxs w.ctxCount).logged = false
        rw [hctx]
      rw [Hook.wp_onCtx]
      refine wp_mono (rewriteInspect_calls henable hlog (E := fun _ _ => False)) (fun _ s hs => ?_)
        (fun _ _ h => h.elim)
      obtain ⟨evs, htr, hevs, -, -⟩ := hs.logged hlog
      exact hw'.2.within rfl htr hevs

/-- no other handler asks for a transaction -/
theorem Turn.asks {callback : Callback} {rc : ℤ} (ht : Turn e w callback rc w') (hne : callback ≠ .rewrite) :
    Asks w w' := by
  have h := Asks.refl w
  cases ht with
  | idle callback rc s evs _ htr hout => exact h.logs rfl htr fun ev hev => (hout ev hev).asked
  | quiet callback rc a s _ _ hc => exact h.confined hc
  | preAccess rc a s _ _ hc => exact h.confined hc
  | header rc a s _ _ _ hc =>
    obtain ⟨evs, htr, hevs, -⟩ := hc.unlogged
    exact h.within rfl htr hevs
  | body inn rc a s _ _ hc => exact h.confined hc
  | log rc a _ _ ret => exact h.log rfl rfl trivial
  | denied => exact absurd rfl hne
  | rewrite => exact absurd rfl hne

/-- **One handler call** asks for a transaction of the WAF of its location, or for none. -/
theorem callback_asks (callback : Callback) (e : Env) (w : World) : Asks w (callback.code.run e w).2 := by
  by_cases h : callback = .rewrite
  · subst h
    exact (wp_run (Q := fun _ => Asks w) Hook.rewrite).1 rewrite_asks
  · exact (turn_spec callback e w).asks h

end

/-! ## Runs -/

open Config

/-- a handler is called on a request that is in a server or location of a file of `n` blocks, as the worker has it -/
def Step.InFile (n : ℕ) (m : Memory) : Step → Prop
  | .call _ _ r => ∃ k, 0 < k ∧ k < n ∧ r.loc = m.loc k
  | .clearCtx => True

/-- `waf` and `id` are what the file says for the block `b`, in which it turns coraza on -/
structure Configured (w : Worker) (waf : ℕ) (id : Option Bytes) (b : Block) : Prop where
  on : nearest (b.chain.map (·.enable)) = some true
  rules : Compiled w.trace waf ((chainRules b.chain).map RuleEntry.cstr)
  live : waf ∈ built w.trace ∧ waf ∉ freed w.trace
  id : id.isSome = (nearest (b.chain.map (·.transactionId))).isSome

section
variable {e : Config.Env} {http : Body} {order : List ℕ} {we : WafEnv}

/-- the memory that nginx has made of the file, and the worker that starts on it -/
abbrev workerOf (we : WafEnv) (e : Config.Env) (http : Body) (order : List ℕ) : ℤ × Worker :=
  started we (merged e http order).2

/-- what a location asks for is what the file says for its block -/
theorem location_configured (horder : MergeOrder e http order) (hok : (merged e http order).1 = true)
    (hfresh : Config.Fresh we) (hstart : (workerOf we e http order).1 = ngxOk) {w : World}
    (hmain : w.mainWaf = (workerOf we e http order).2.mem.main.waf) {k : ℕ} (hpos : 0 < k)
    (hlt : k < (http.allBlocks e).length) (hloc : w.r.loc = (workerOf we e http order).2.mem.loc k) {waf : ℕ}
    {id : Option Bytes} {rc : ℤ} (hasked : Event.AskedIn w (.call (.newTransaction waf id) rc)) :
    Configured (workerOf we e http order).2 waf id (http.allBlocks e)[k] := by
  obtain ⟨hon, hwaf, h0, hid⟩ := hasked
  have hinit := merged_initial horder hok
  have hbegins := started_begins hinit hstart
  have hshares := started_shares hfresh hinit hstart
  have hm := merged_spec horder.toTopDown hok
  have hb := List.getElem?_eq_getElem hlt
  have hin := horder.complete k hpos hlt
  have heff := hm.merged k _ hb hin
  obtain ⟨henable, -, htid⟩ : _ ∧ _ ∧ _ := by
    have h := hbegins.settings k
    rwa [Conf.settings, Conf.settings, Prod.mk.injEq, Prod.mk.injEq] at h
  have hlocs : k ∈ (merged e http order).2.main.locConfs := by
    rw [hm.locConfs]
    exact hin
  have hcomp : Compiled (workerOf we e http order).2.trace waf
      ((chainRules (http.allBlocks e)[k].chain).map RuleEntry.cstr) := by
    have hreq : w.waf = requestWaf (workerOf we e http order).2.mem k := by
      rw [World.waf, hloc, hmain]
      rfl
    rw [hwaf, hreq, requestWaf]
    by_cases hwith : WithRules (merged e http order).2 k
    · obtain ⟨hne, hc⟩ := hshares.holds k hlocs hwith
      rw [heff.rules] at hc
      rw [if_pos hne]
      exact hc
    · have hz := hshares.none k hlocs hwith
      have hnil : chainRules (http.allBlocks e)[k].chain = [] := by
        by_contra hne
        exact hwith ⟨heff.hasRules.2 hne, by rw [heff.rules]; exact hne⟩
      rw [if_neg (not_not.2 hz), hnil]
      exact hbegins.main
  refine ⟨?_, hcomp, ⟨hcomp.mem_built h0, ?_⟩, ?_⟩
  · rw [hloc] at hon
    rw [← getD_nearest, ← heff.enable]
    exact henable.symm.trans hon
  · rw [started_unfreed hfresh hinit hstart]
    exact List.not_mem_nil
  · rw [hid, hloc, Memory.loc]
    dsimp only
    rw [htid, heff.transactionId]
    cases nearest ((http.allBlocks e)[k].chain.map (·.transactionId)) <;> rfl

/-- a step of the run, in the block `b`, has made the transaction of `waf` with `id`, as the file says for `b` -/
structure MadeIn (e : Config.Env) (http : Body) (worker : Worker) (start : World) (steps : List Step) (waf : ℕ)
    (id : Option Bytes) (rc : ℤ) (k : ℕ) (b : Block) : Prop where
  block : 0 < k ∧ (http.allBlocks e)[k]? = some b
  step : ∃ pre callback env r post, steps = pre ++ .call callback env r :: post ∧ r.loc = worker.mem.loc k ∧
    .call (.newTransaction waf id) rc ∈ (start.run pre).events callback env r
  configured : Configured worker waf id b

/-- **Configured transactions.** For every file that nginx accepts and every order in which it merges its blocks, every
worker that starts on it, and every run of a request in the file's servers and locations: each transaction is made where
the file turns coraza on, of a live WAF compiled from exactly the rules on the way down to that block, each as a C
string, and has an id if the file sets one for it. -/
theorem transactions_from_configuration (e : Config.Env) (http : Body) (order : List ℕ) (we : WafEnv)
    (horder : MergeOrder e http order) (hok : (merged e http order).1 = true) (hfresh : Config.Fresh we)
    (hstart : (workerOf we e http order).1 = ngxOk) (r : Request) (steps : List Step)
    (hfile : ∀ step ∈ steps, step.InFile (http.allBlocks e).length (workerOf we e http order).2.mem) :
    ∀ waf id rc, .call (.newTransaction waf id) rc ∈
        ((World.start r (workerOf we e http order).2.mem.main.waf).run steps).trace →
      ∃ k b, MadeIn e http (workerOf we e http order).2 (World.start r (workerOf we e http order).2.mem.main.waf) steps
        waf id rc k b := by
  set worker := (workerOf we e http order).2
  set start := World.start r worker.mem.main.waf
  -- the run keeps the main WAF; its transactions are those of its steps
  suffices h : (start.run steps).mainWaf = worker.mem.main.waf ∧ ∀ waf id rc,
      .call (.newTransaction waf id) rc ∈ (start.run steps).trace →
        ∃ k b, MadeIn e http worker start steps waf id rc k b from h.2
  induction steps using List.reverseRecOn with
  | nil => exact ⟨rfl, fun _ _ _ h => absurd h List.not_mem_nil⟩
  | append_singleton steps step ih =>
    obtain ⟨hold, hlast⟩ := List.forall_mem_append.1 hfile
    obtain ⟨hmain, hall⟩ := ih hold
    have hearlier : ∀ {waf id rc}, .call (.newTransaction waf id) rc ∈ (start.run steps).trace →
        ∃ k b, MadeIn e http worker start (steps ++ [step]) waf id rc k b := by
      intro waf id rc hmem
      obtain ⟨k, b, hblock, ⟨pre, callback, env, r, post, hl, hloc, hev⟩, hc⟩ := hall waf id rc hmem
      exact ⟨k, b, hblock, ⟨pre, callback, env, r, post ++ [step], by rw [hl]; simp, hloc, hev⟩, hc⟩
    have hrun : start.run (steps ++ [step]) = (start.run steps).next step := List.foldl_append ..
    rw [hrun]
    cases step with
    | clearCtx => exact ⟨hmain, fun _ _ _ h => hearlier h⟩
    | call callback env r =>
      obtain ⟨k, hpos, hlt, hloc⟩ := hlast _ (List.mem_singleton_self _)
      obtain ⟨hmain', evs, htr, hevs⟩ := callback_asks callback env ((start.run steps).setR r)
      refine ⟨hmain'.trans hmain, fun waf id rc hmem => ?_⟩
      have hmem' : Event.call (.newTransaction waf id) rc ∈ (start.run steps).trace ++ evs := htr ▸ hmem
      rcases List.mem_append.1 hmem' with h | hnew
      · exact hearlier h
      · have hevents : (start.run steps).events callback env r = evs := World.events_eq htr
        exact ⟨k, _, ⟨hpos, List.getElem?_eq_getElem hlt⟩,
          ⟨steps, callback, env, r, [], rfl, hloc, by rw [hevents]; exact hnew⟩,
          location_configured horder hok hfresh hstart (w := (start.run steps).setR r) hmain hpos hlt hloc
            (hevs _ hnew)⟩

/-- a request in the inner location of the nested file: its WAF has the rules A, B and C -/
def innerRequest : List Step :=
  [.call .rewrite .counting { loc := (workerOf countingEnv calmEnv nestedFile [1, 2, 3]).2.mem.loc 2 }]

theorem transactions_from_nestedFile :
    ∃ k b, MadeIn calmEnv nestedFile (workerOf countingEnv calmEnv nestedFile [1, 2, 3]).2
    (World.start {} (workerOf countingEnv calmEnv nestedFile [1, 2, 3]).2.mem.main.waf) innerRequest 4 none 1 k b := by
  have hfile : ∀ step ∈ innerRequest, step.InFile (nestedFile.allBlocks calmEnv).length
      (workerOf countingEnv calmEnv nestedFile [1, 2, 3]).2.mem :=
    List.forall_mem_singleton.2 ⟨2, by decide, by decide, rfl⟩
  exact transactions_from_configuration calmEnv nestedFile [1, 2, 3] countingEnv
    (fileOrder_mergeOrder calmEnv nestedFile)
    (by decide +kernel) countingEnv_fresh (by decide +kernel) {} innerRequest hfile 4 none 1 (by decide +kernel)

end

end CorazaNginx
