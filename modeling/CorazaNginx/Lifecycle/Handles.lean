/-
Live handles: no call on a transaction that is not there, or that has been freed.

`Trace.Live t`: every event of `t` that uses a transaction uses one that is not NULL and has not been freed in front of
it. As long as every context that is installed has its cleanup registered (`Alive`), whatever a handler calls is on a
live handle, and the cleanups free each transaction as the last thing that is done with it. One failure breaks that:
when `ngx_pool_cleanup_add` answers NULL, the context has been installed already, and stays so with its handle freed and
zeroed.
-/
import Mathlib.Tactic
import CorazaNginx.Lifecycle.Logging

namespace CorazaNginx

open CorazaNginx.Core Prog

variable {e : Env} {w w' : World} {P : EngineCall → Prop} {a tx : ℕ} {t evs : Trace}

/-! ## Live traces -/

/-- every transaction that is used is there and has not been freed -/
def Trace.Live (t : Trace) : Prop :=
  Each (fun pre ev => ∀ tx, ev.Uses tx → tx ≠ 0 ∧ .freeTransaction ∉ Trace.calls tx pre) t

/-- events that use no transaction -/
theorem Trace.Live.unused (h : Trace.Live t) (hevs : ∀ ev ∈ evs, ∀ x, ¬ ev.Uses x) : Trace.Live (t ++ evs) := by
  refine each_append.2 ⟨h, each_of_forall fun ev hev _ x hx => ?_⟩
  exact absurd hx (hevs ev hev x)

/-- work on one transaction -/
theorem Trace.Live.within (h : Trace.Live t) (hevs : ∀ ev ∈ evs, ev.Within tx P) (hfree : ¬ P .freeTransaction)
    (h0 : tx ≠ 0) (hlive : .freeTransaction ∉ t.calls tx) : Trace.Live (t ++ evs) := by
  refine each_append.2 ⟨h, each_of_mem fun pre ev hpre hev x hx => ?_⟩
  have hx' : x = tx := (hevs ev hev).uses hx
  subst hx'
  refine ⟨h0, ?_⟩
  rw [Trace.calls_append]
  intro hmem
  rcases List.mem_append.1 hmem with hmem | hmem
  · exact hlive hmem
  · exact hfree (Trace.forall_calls_of_within (fun y hy => hevs y (hpre y hy)) _ hmem)

/-- one call more -/
theorem Trace.Live.call (h : Trace.Live t) (c : EngineCall) (rc : ℤ) (h0 : tx ≠ 0)
    (hlive : .freeTransaction ∉ t.calls tx) :
    Trace.Live (t ++ [.call (.engine tx c) rc]) := by
  refine each_concat.2 ⟨h, ?_⟩
  rintro x rfl
  exact ⟨h0, hlive⟩

theorem Trace.Live.not_null (h : Trace.Live t) : t.calls 0 = [] := by
  refine List.eq_nil_iff_forall_not_mem.2 fun c hc => ?_
  obtain ⟨rc, hin⟩ := Trace.mem_calls.1 hc
  obtain ⟨pre, post, hsplit⟩ := List.append_of_mem hin
  exact (h pre _ post hsplit 0 rfl).1 rfl

/-! ## What a call adds -/

theorem Created.extends {res : Option ℕ} (hc : Created e w res w') : ∃ evs, w'.trace = w.trace ++ evs := by
  cases hc with
  | refused evs => exact ⟨evs, rfl⟩
  | abandoned tx evs rc w' _ htr => exact ⟨evs, htr⟩
  | unkept tx evs behind w' ho => exact ⟨evs, ho.trace⟩
  | created tx evs behind w' ho => exact ⟨evs, ho.trace⟩

theorem RewriteCalls.extends {s t : St} (hc : RewriteCalls s t) : ∃ evs, t.trace = s.trace ++ evs := by
  cases hc with
  | stopped h =>
    obtain ⟨evs, rfl, -⟩ := h
    exact ⟨evs, rfl⟩
  | tooLong evs marked => exact ⟨evs, by rw [marked]; rfl⟩
  | evaluated evs rest pret htr => exact ⟨_, by rw [htr, List.append_assoc]⟩

/-- a handler call only adds to the trace -/
theorem Turn.extends {callback : Callback} {rc : ℤ} (ht : Turn e w callback rc w') :
    ∃ evs, w'.trace = w.trace ++ evs := by
  cases ht with
  | idle callback rc s evs _ htr => exact ⟨evs, htr⟩
  | quiet callback rc a s _ _ hc => exact hc.trace.imp fun _ h => h.1
  | preAccess rc a s _ _ hc => exact hc.trace.imp fun _ h => h.1
  | header rc a s _ _ _ hc => exact hc.unlogged.imp fun _ h => h.1
  | body inn rc a s _ _ hc => exact hc.trace.imp fun _ h => h.1
  | log rc a => exact ⟨[_], rfl⟩
  | denied w' _ hc => exact hc.extends
  | rewrite rc w'' s _ hc hcalls =>
    obtain ⟨evs, htr⟩ := hc.extends
    obtain ⟨evs', htr'⟩ := hcalls.extends
    refine ⟨evs ++ evs', ?_⟩
    have hview : (w''.view w.ctxCount).trace = w.trace ++ evs := htr
    change s.trace = _
    rw [htr', hview, List.append_assoc]

theorem next_extends (w : World) (step : Step) : w.trace <+: (w.next step).trace := by
  cases step with
  | clearCtx => exact List.prefix_refl _
  | call callback e r =>
    obtain ⟨evs, htr⟩ := (turn_spec callback e (w.setR r)).extends
    exact ⟨evs, htr.symm⟩

theorem run_extends (w : World) (steps : List Step) : w.trace <+: (w.run steps).trace := by
  induction steps generalizing w with
  | nil => exact List.prefix_refl _
  | cons step steps ih => exact (next_extends w step).trans (ih (w.next step))

/-! ## Registered contexts -/

/-- the context installed has its cleanup registered, and the trace is live -/
structure Alive (w : World) : Prop extends Ledger w where
  registered : ∀ a, w.installed = some a → a ∈ w.cleanups
  live : w.trace.Live

theorem Alive.start (r : Request) (mainWaf : ℕ) : Alive (World.start r mainWaf) :=
  ⟨Ledger.start r mainWaf, nofun, each_nil⟩

/-- nobody but nginx looks at the stage -/
theorem Alive.setStage (h : Alive w) (p : ResponseStage) : Alive { w with stage := p } :=
  ⟨⟨h.installed, h.cleanups, h.nodup, h.zeroed, h.given, h.distinct, h.known, h.logged, h.unfreed⟩,
  h.registered, h.live⟩

/-- work on the context installed is on a live handle -/
theorem Alive.within (h : Alive w) (hinst : w.installed = some a) (htr : t = w.trace ++ evs)
    (hevs : ∀ ev ∈ evs, ev.Within (w.handle a) P) (hfree : ¬ P .freeTransaction) : Trace.Live t := by
  rw [htr]
  exact h.live.within hevs hfree (h.given a (h.registered a hinst)).1 (h.unfreed a (h.registered a hinst))

/-- a creation that registers the cleanup uses no transaction -/
theorem Opened.unused {behind : Trace} (ho : Opened e w tx evs behind w') (hfresh : FreshHandles e) :
    ∀ ev ∈ evs, ∀ x, ¬ ev.Uses x := by
  obtain ⟨cln, -, hev⟩ := ho.events
  obtain ⟨-, -, -, -, huses⟩ := hev.fresh hfresh
  intro ev hin x hx
  rcases List.mem_cons.1 (huses ev hin x hx) with rfl | hbehind
  · exact hx
  · exact (ho.outside ev hbehind).not_uses hx

theorem Alive.opened {behind : Trace} (h : Alive w) (hfresh : FreshHandles e) (ho : Opened e w tx evs behind w') :
    Alive w' := by
  refine ⟨h.toLedger.opened hfresh ho, ?_, ?_⟩
  · intro a ha
    rw [ho.installed] at ha
    rw [ho.cleanups]
    cases ha
    exact List.mem_cons_self
  · rw [ho.trace]
    exact h.live.unused (ho.unused hfresh)

/-- the cleanup of a context that has been created is registered, or the pool refused it -/
theorem Created.alive {res : Option ℕ} (hc : Created e w res w') (h : Alive w) (hfresh : FreshHandles e)
    (hno : .call .cleanupAdd 0 ∉ w'.trace) : Alive w' := by
  cases hc with
  | refused evs hevs =>
    refine ⟨(Created.refused evs hevs).ledger h.toLedger hfresh, h.registered, h.live.unused fun ev hev x => ?_⟩
    rcases hevs ev hev with hout | ⟨waf, id, rc, rfl, -⟩
    · exact hout.not_uses
    · exact not_false
  | abandoned tx evs rc w' _ htr hev =>
    obtain ⟨before, waf, id, rfl, -⟩ := hev
    exact absurd (by rw [htr]; simp) hno
  | unkept tx evs behind w' ho => exact h.opened hfresh ho
  | created tx evs behind w' ho => exact h.opened hfresh ho

/-- **One call.** A handler call uses live handles, unless the pool refuses a cleanup. -/
theorem Turn.alive {callback : Callback} {rc : ℤ} (ht : Turn e w callback rc w') (h : Alive w) (hfresh : FreshHandles e)
    (hno : .call .cleanupAdd 0 ∉ w'.trace) : Alive w' := by
  have hledger := ht.ledger h.toLedger hfresh
  cases ht with
  | idle callback rc s evs _ htr hout =>
    refine ⟨hledger, h.registered, ?_⟩
    change Trace.Live s.trace
    rw [htr]
    exact h.live.unused fun ev hev _ => (hout ev hev).not_uses
  | quiet callback rc a s hinst _ hc =>
    obtain ⟨evs, htr, hevs⟩ := hc.trace
    exact ⟨hledger, h.registered, h.within hinst htr hevs id⟩
  | preAccess rc a s hinst _ hc =>
    obtain ⟨evs, htr, hevs⟩ := hc.trace
    exact ⟨hledger, h.registered, h.within hinst htr hevs id⟩
  | header rc a s hinst _ _ hc =>
    obtain ⟨evs, htr, hevs, -⟩ := hc.unlogged
    exact ⟨hledger, h.registered, h.within hinst htr hevs fun hP => hP.1 rfl⟩
  | body inn rc a s hinst _ hc =>
    obtain ⟨evs, htr, hevs⟩ := hc.trace
    exact ⟨hledger, h.registered, h.within hinst htr hevs id⟩
  | log rc a hinst _ ret =>
    have ha := h.registered a hinst
    exact ⟨hledger, h.registered, h.live.call .processLogging ret (h.given a ha).1 (h.unfreed a ha)⟩
  | denied w' _ hc => exact hc.alive h hfresh hno
  | rewrite rc w'' s _ hc hcalls =>
    obtain ⟨evs', htr'⟩ := hcalls.extends
    have hno' : .call .cleanupAdd 0 ∉ w''.trace := fun hin => hno (by
      change _ ∈ s.trace
      rw [htr']
      exact List.mem_append_left _ hin)
    have hw := hc.alive h hfresh hno'
    obtain ⟨tx, evs, behind, ho⟩ := hc.opened
    obtain ⟨id, hctx⟩ := ho.ctx
    have hlog : (w''.ctxs w.ctxCount).logged = false := by rw [hctx]
    obtain ⟨evs, htr, hevs, -⟩ := hcalls.logged hlog
    exact ⟨hledger, hw.registered, hw.within ho.installed htr hevs fun hP => hP rfl⟩

theorem Alive.next {step : Step} (h : Alive w) (hfresh : step.GivesFresh)
    (hno : .call .cleanupAdd 0 ∉ (w.next step).trace) :
    Alive (w.next step) := by
  have hledger := h.toLedger.next hfresh
  cases step with
  | clearCtx => exact ⟨hledger, nofun, h.live⟩
  | call callback e r =>
    have hr : Alive (w.setR r) := ⟨⟨h.installed, h.cleanups, h.nodup, h.zeroed, h.given, h.distinct, h.known, h.logged,
      h.unfreed⟩, h.registered, h.live⟩
    have hw := (turn_spec callback e (w.setR r)).alive hr hfresh hno
    exact ⟨hledger, hw.registered, hw.live⟩

theorem Alive.run {steps : List Step} (h : Alive w) (hfresh : ∀ step ∈ steps, step.GivesFresh)
    (hno : .call .cleanupAdd 0 ∉ (w.run steps).trace) : Alive (w.run steps) := by
  induction steps generalizing w with
  | nil => exact h
  | cons step steps ih =>
    obtain ⟨hstep, hsteps⟩ := List.forall_mem_cons.1 hfresh
    have hno' : .call .cleanupAdd 0 ∉ (w.next step).trace := fun hin => hno ((run_extends _ steps).subset hin)
    exact ih (h.next hstep hno') hsteps hno

/-! ## The end of the request -/

/-- the cleanups use live handles, each for the last time -/
theorem Closed.live {l : List ℕ} (hc : Closed w l evs) (hnodup : l.Nodup)
    (hdistinct : ∀ a ∈ l, ∀ b ∈ l, w.handle a = w.handle b → a = b) (hlive : Trace.Live t)
    (hok : ∀ a ∈ l, w.handle a ≠ 0 ∧ .freeTransaction ∉ t.calls (w.handle a)) : Trace.Live (t ++ evs) := by
  induction hc generalizing t with
  | nil => rwa [List.append_nil]
  | frees a l rc rest _ _ ih => ?_
  | logs a l lrc rc rest _ _ ih => ?_
  all_goals
    obtain ⟨hnot, hnodup⟩ := List.nodup_cons.1 hnodup
    obtain ⟨⟨h0, hfree⟩, hl⟩ := List.forall_mem_cons.1 hok
    have hdistinct' : ∀ b ∈ l, ∀ c ∈ l, w.handle b = w.handle c → b = c := fun b hb c hc =>
      hdistinct b (List.mem_cons_of_mem a hb) c (List.mem_cons_of_mem a hc)
    have hne : ∀ b ∈ l, w.handle a ≠ w.handle b := fun b hb heq =>
      hnot (hdistinct a List.mem_cons_self b (List.mem_cons_of_mem a hb) heq ▸ hb)
  · have hrest := ih hnodup hdistinct' (hlive.call .freeTransaction rc h0 hfree) fun b hb => by
      simpa [Trace.calls, hne b hb] using hl b hb
    simpa using hrest
  · have hlogged := hlive.call .processLogging lrc h0 hfree
    have hfree' : EngineCall.freeTransaction ∉
        Trace.calls (w.handle a) (t ++ [.call (.engine (w.handle a) .processLogging) lrc]) := by
      simpa [Trace.calls] using hfree
    have hrest := ih hnodup hdistinct' (hlogged.call .freeTransaction rc h0 hfree') fun b hb => by
      simpa [Trace.calls, hne b hb] using hl b hb
    simpa using hrest

theorem Alive.destroyed (h : Alive w) (e : Env) : (w.destroyed e).trace.Live := by
  obtain ⟨-, evs, htr, hclosed⟩ := destroyed_closed h.nodup e
  rw [htr]
  exact hclosed.live h.nodup h.distinct h.live fun a ha => ⟨(h.given a ha).1, h.unfreed a ha⟩

/-! ## The context that is left behind -/

/-- the context installed has no transaction, or one that has been freed -/
def World.DeadCtx (w : World) : Prop :=
  ∃ a, w.installed = some a ∧ (w.handle a = 0 ∨ EngineCall.freeTransaction ∈ w.calls a)

/-- **NULL.** `ngx_http_coraza_create_ctx` leaves a dead context behind exactly when the cleanup could not be
registered. -/
theorem Created.dead_iff (hc : Created e w none w') (h : Ledger w) (hfresh : FreshHandles e)
    (hinst : w.installed = none) :
    w'.DeadCtx ↔ Event.call .cleanupAdd 0 ∈ w'.trace.drop w.trace.length := by
  have houtside : ∀ {evs : Trace}, (∀ ev ∈ evs, ev.Outside) → Event.call .cleanupAdd 0 ∉ evs :=
    fun hevs hin => hevs _ hin 0
  cases hc with
  | refused evs hevs =>
    have hdrop : (w.logs evs).trace.drop w.trace.length = evs := List.drop_left
    rw [hdrop]
    constructor
    · rintro ⟨a, ha, -⟩
      exact absurd (hinst.symm.trans ha) nofun
    · intro hin
      rcases hevs _ hin with hout | ⟨waf, id, rc, heq, -⟩
      · exact (hout 0).elim
      · cases heq
  | abandoned tx evs rc w' ho htr hev =>
    obtain ⟨before, waf, id, rfl, -⟩ := hev
    refine ⟨fun _ => ?_, fun _ => ⟨_, ho.installed, Or.inl ho.handle_self⟩⟩
    rw [htr, List.drop_left]
    simp
  | unkept tx evs behind w' ho =>
    obtain ⟨cln, hcln, hev⟩ := ho.events
    obtain ⟨h0, hnew, -, hcalls, -⟩ := hev.fresh hfresh
    rw [ho.trace, List.drop_left]
    constructor
    · rintro ⟨a, ha, hdead⟩
      rw [ho.installed] at ha
      cases ha
      rw [World.calls, ho.toOpening.handle_self, ho.trace, Trace.calls_append, (h.unused h0 hnew).2, hcalls,
        (Opened.behind_outside cln ho.outside tx).2] at hdead
      rcases hdead with hzero | hfreed
      · exact absurd hzero h0
      · exact absurd hfreed List.not_mem_nil
    · intro hin
      obtain ⟨before, waf, id, rfl, -, -, hbefore⟩ := hev
      rcases List.mem_append.1 hin with hin | hin
      · exact absurd hin (houtside hbefore)
      · rcases List.mem_cons.1 hin with heq | hin
        · cases heq
        · rcases List.mem_cons.1 hin with heq | hin
          · cases heq
            exact absurd rfl hcln
          · exact absurd hin (houtside ho.outside)

/-! ## Every run -/

/-- **No call on a dead handle.** In every run in which the pool never refuses a cleanup, no call is made on a
transaction that is NULL or has been freed, up to the end of the request, and no dead context is installed. Whatever has
come before it, a creation that returns NULL leaves a dead context behind exactly when the pool refuses the cleanup. -/
theorem no_call_on_a_dead_handle (r : Request) (mainWaf : ℕ) (steps : List Step)
    (hfresh : ∀ step ∈ steps, step.GivesFresh) : (Event.call .cleanupAdd 0 ∉ ((World.start r mainWaf).run steps).trace →
      ((World.start r mainWaf).run steps).trace.Live ∧ ¬ ((World.start r mainWaf).run steps).DeadCtx ∧
        ∀ e, (((World.start r mainWaf).run steps).destroyed e).trace.Live) ∧
    ∀ (e : Env) (r' : Request), FreshHandles e → ((World.start r mainWaf).run steps).installed = none →
      ((Hook.createCtx : Hook (Option ℕ) (Option ℕ)).run e (((World.start r mainWaf).run steps).setR r')).1 = none →
      (((Hook.createCtx : Hook (Option ℕ) (Option ℕ)).run e (((World.start r mainWaf).run steps).setR r')).2.DeadCtx ↔
        Event.call .cleanupAdd 0 ∈ ((Hook.createCtx : Hook (Option ℕ) (Option ℕ)).run e
          (((World.start r mainWaf).run steps).setR r')).2.trace.drop
            ((World.start r mainWaf).run steps).trace.length) := by
  constructor
  · intro hno
    have h := (Alive.start r mainWaf).run hfresh hno
    refine ⟨h.live, ?_, h.destroyed⟩
    rintro ⟨a, ha, hzero | hfreed⟩
    · exact (h.given a (h.registered a ha)).1 hzero
    · exact h.unfreed a (h.registered a ha) hfreed
  · intro e r' hfresh' hinst hnone
    have h := (Ledger.start r mainWaf).run hfresh
    set w := (World.start r mainWaf).run steps
    have hr : Ledger (w.setR r') := ⟨h.installed, h.cleanups, h.nodup, h.zeroed, h.given, h.distinct, h.known, h.logged,
      h.unfreed⟩
    have hcreated : Created e (w.setR r') _ _ :=
      (wp_run (Q := Created e (w.setR r')) (Hook.createCtx : Hook (Option ℕ) (Option ℕ))).1
        (createCtx_spec fun _ _ hc => hc)
    rw [hnone] at hcreated
    exact hcreated.dead_iff hr hfresh' hinst

/-- the same engine, and a pool that has no room for the cleanup -/
def Env.unregistered : Env :=
  { Env.counting with
    ret := fun t call => match call with
      | .cleanupAdd => 0
      | call => Env.counting.ret t call }

/-- a redirected request uses live handles only; a cleanup that is refused at the start leaves a dead context -/
theorem no_call_on_a_dead_handle_redirected :
    (((World.start {} 7).run redirected).destroyed .counting).trace.Live ∧
      ((Hook.createCtx : Hook (Option ℕ) (Option ℕ)).run .unregistered
        (((World.start {} 7).run []).setR {})).2.DeadCtx := by
  have hfresh : ∀ step ∈ redirected, step.GivesFresh := by
    simp only [redirected, List.forall_mem_cons, List.not_mem_nil, false_imp_iff, implies_true, and_true]
    exact ⟨Env.counting_fresh, Env.counting_fresh, trivial, Env.counting_fresh, Env.counting_fresh⟩
  constructor
  · exact ((no_call_on_a_dead_handle {} 7 redirected hfresh).1 (by decide +kernel)).2.2 _
  · refine ((no_call_on_a_dead_handle {} 7 [] fun _ h => absurd h List.not_mem_nil).2 .unregistered {}
      Env.counting_fresh rfl
      (by decide +kernel)).2 ?_
    decide +kernel

/-- the cleanup is refused, and the header filter works for the error response -/
def deadRewrite : List Step := [.call .rewrite .unregistered {}, .call .header .counting {}]

theorem not_always_live : ¬ ∀ (r : Request) (mainWaf : ℕ) (steps : List Step) (e : Env),
    (∀ step ∈ steps, step.GivesFresh) → (((World.start r mainWaf).run steps).destroyed e).trace.Live := by
  intro h
  have hlive := h {} 7 deadRewrite .counting (by
    simp only [deadRewrite, List.forall_mem_cons, List.not_mem_nil, false_imp_iff, implies_true, and_true]
    exact ⟨Env.counting_fresh, Env.counting_fresh⟩)
  have hcalled : (((World.start {} 7).run deadRewrite).destroyed .counting).trace.calls 0 ≠ [] := by decide +kernel
  exact hcalled hlive.not_null

end CorazaNginx
