/-
One handler call on a request, whether it finds a context or not.

`Turn e w callback rc w'`: nginx has called the handler on `w`, which answered `rc` and left `w'`. It has touched no
transaction, worked on the context installed, or created one; `turn_spec` says there is no other case. `Opened` is a
context created with its cleanup registered; in the case `abandoned` of `Created` the registration failed, and the
context is installed all the same, with its transaction freed and its handle zeroed.
-/
import Mathlib.Tactic
import CorazaNginx.Lifecycle.Phases

namespace CorazaNginx

open CorazaNginx.Core Prog

variable {ρ α : Type} {e : Env} {w w' : World} {P : EngineCall → Prop}

/-! ## Transactions in a trace -/

/-- the handles the engine has given out -/
def Trace.handles (t : Trace) : List ℕ := t.filterMap fun
  | .call (.newTransaction ..) rc => some rc.toNat
  | _ => none

@[simp] theorem Trace.handles_append (a b : Trace) : Trace.handles (a ++ b) = a.handles ++ b.handles :=
  List.filterMap_append

/-- the engine gives every transaction a handle of its own -/
def FreshHandles (e : Env) : Prop := ∀ (t : Trace) (waf : ℕ) (id : Option Bytes),
  (e.ret t (.newTransaction waf id)).toNat ≠ 0 → (e.ret t (.newTransaction waf id)).toNat ∉ t.handles

/-- an environment in which nothing fails, and the handles are counted up -/
def Env.counting : Env :=
  { Env.calm (.fill 0) with
    ret := fun t call => match call with
      | .alloc _ => 1
      | .cleanupAdd => 1
      | .readFile size _ => size
      | .newTransaction .. => (t.handles.sum + 1 : ℕ)
      | _ => 0 }

theorem Env.counting_fresh : FreshHandles Env.counting := by
  intro t waf id _ hin
  have hle : t.handles.sum + 1 ≤ t.handles.sum := List.le_sum_of_mem hin
  omega

/-- an event that has to do with no transaction -/
def Event.Outside (ev : Event) : Prop := ∀ tx, ev.Within tx fun _ => False

/-- an event that uses the transaction `tx` -/
def Event.Uses (tx : ℕ) : Event → Prop
  | .call (.engine tx' _) _ => tx' = tx
  | .poll tx' _ _ => tx' = tx
  | _ => False

theorem Event.Within.uses {tx tx' : ℕ} {ev : Event} (h : ev.Within tx P) (hu : ev.Uses tx') : tx' = tx := by
  cases ev with
  | poll => exact hu.symm.trans h
  | call c rc =>
    cases c with
    | engine => exact hu.symm.trans h.1
    | _ => exact hu.elim

theorem Event.Outside.not_uses {tx : ℕ} {ev : Event} (h : ev.Outside) : ¬ ev.Uses tx := by
  intro hu
  have h0 := (h (tx + 1)).uses hu
  omega

theorem Trace.handles_of_within {tx : ℕ} {evs : Trace} (h : ∀ ev ∈ evs, ev.Within tx P) : evs.handles = [] := by
  rw [List.eq_nil_iff_forall_not_mem]
  intro x hx
  obtain ⟨ev, hev, hx⟩ := List.mem_filterMap.1 hx
  cases ev with
  | poll => cases hx
  | call c rc =>
    cases c with
    | newTransaction => exact h _ hev
    | _ => cases hx

theorem Trace.calls_of_outside {evs : Trace} (h : ∀ ev ∈ evs, ev.Outside) (tx : ℕ) : evs.calls tx = [] := by
  rw [List.eq_nil_iff_forall_not_mem]
  exact Trace.forall_calls_of_within fun ev hev => h ev hev tx

/-! ## Creating a context -/

section
variable {Q : α → World → Prop} {E : ρ → World → Prop}

@[simp] theorem Hook.wp_invoke (c : Call) {Q : ℤ → World → Prop} :
    wp (Hook.invoke c : Hook ρ ℤ) Q E e w ↔ Q (e.ret w.trace c) (w.log (.call c (e.ret w.trace c))) := Iff.rfl

@[simp] theorem Hook.wp_newTransaction (waf : ℕ) (id : Option Bytes) {Q : ℕ → World → Prop} :
    wp (Hook.newTransaction waf id : Hook ρ ℕ) Q E e w ↔
      Q (e.ret w.trace (.newTransaction waf id)).toNat
        (w.log (.call (.newTransaction waf id) (e.ret w.trace (.newTransaction waf id)))) := Iff.rfl

@[simp] theorem Hook.wp_onCtx (a : ℕ) (m : Handler ρ α) : wp (Hook.onCtx a m) Q E e w ↔
    wp m (fun x s => Q x (w.put a s)) (fun r s => E r (w.put a s)) e (w.view a) := wp_focus _ _ _

@[simp] theorem Hook.wp_offCtx (m : Handler ρ α) : wp (Hook.offCtx m) Q E e w ↔
    wp m (fun x s => Q x (w.putBare s)) (fun r s => E r (w.putBare s)) e w.bare := wp_focus _ _ _

end

/-- append a stretch of events -/
def World.logs (w : World) (evs : Trace) : World := { w with trace := w.trace ++ evs }

/-- what the creation of a context for `tx` makes of the world, whatever it records -/
structure Opening (w : World) (tx : ℕ) (w' : World) : Prop where
  r : w'.r = w.r
  installed : w'.installed = some w.ctxCount
  ctxCount : w'.ctxCount = w.ctxCount + 1
  others : ∀ b, b ≠ w.ctxCount → w'.ctxs b = w.ctxs b
  ctx : ∃ id, w'.ctxs w.ctxCount = { corazaTransaction := tx, transactionId := id }

/-- the events of a creation: a new transaction, nothing that has to do with one before it, and `behind` after it -/
def OpenedBy (e : Env) (w : World) (tx : ℕ) (evs behind : Trace) : Prop :=
  ∃ (before : Trace) (waf : ℕ) (id : Option Bytes),
    evs = before ++ .call (.newTransaction waf id) (e.ret (w.trace ++ before) (.newTransaction waf id)) :: behind ∧
    tx = (e.ret (w.trace ++ before) (.newTransaction waf id)).toNat ∧ tx ≠ 0 ∧ ∀ ev ∈ before, ev.Outside

/-- a context has been created and its cleanup registered -/
structure Opened (e : Env) (w : World) (tx : ℕ) (evs behind : Trace) (w' : World) : Prop extends Opening w tx w' where
  trace : w'.trace = w.trace ++ evs
  events : ∃ cln, cln ≠ 0 ∧ OpenedBy e w tx evs (.call .cleanupAdd cln :: behind)
  cleanups : w'.cleanups = w.ctxCount :: w.cleanups
  outside : ∀ ev ∈ behind, ev.Outside

/-- what `ngx_http_coraza_create_ctx` comes to -/
inductive Created (e : Env) (w : World) : Option ℕ → World → Prop where
  /-- no transaction, and no context -/
  | refused (evs : Trace)
      (h : ∀ ev ∈ evs, ev.Outside ∨ ∃ waf id rc, ev = .call (.newTransaction waf id) rc ∧ rc.toNat = 0) :
      Created e w none (w.logs evs)
  /-- the cleanup could not be registered: the context is installed, its transaction freed and its handle zeroed -/
  | abandoned (tx : ℕ) (evs : Trace) (rc : ℤ) (w' : World) (opening : Opening w 0 w')
      (trace : w'.trace = w.trace ++ evs)
      (events : OpenedBy e w tx evs [.call .cleanupAdd 0, .call (.engine tx .freeTransaction) rc])
      (cleanups : w'.cleanups = w.cleanups) : Created e w none w'
  /-- the transaction id could not be copied -/
  | unkept (tx : ℕ) (evs behind : Trace) (w' : World) (opened : Opened e w tx evs behind w')
      (why : ∃ ev ∈ behind, ev.refused = true) : Created e w none w'
  | created (tx : ℕ) (evs behind : Trace) (w' : World) (opened : Opened e w tx evs behind w') :
      Created e w (some w.ctxCount) w'

theorem Created.opened {a : ℕ} (hc : Created e w (some a) w') : ∃ tx evs behind, Opened e w tx evs behind w' := by
  cases hc with
  | created tx evs behind w' opened => exact ⟨tx, evs, behind, opened⟩

theorem addCleanup_spec (a : ℕ) {Q : Bool → World → Prop} {E : ρ → World → Prop}
    (hno : ∀ rc, Q false (((w.log (.call .cleanupAdd 0)).log
      (.call (.engine (w.ctxs a).corazaTransaction .freeTransaction) rc)).setCtx a
        { w.ctxs a with corazaTransaction := 0 }))
    (hok : ∀ cln, cln ≠ 0 → Q true { w.log (.call .cleanupAdd cln) with cleanups := a :: w.cleanups }) :
    wp (Hook.addCleanup a : Hook ρ Bool) Q E e w := by
  rw [Hook.addCleanup, wp_bind, Hook.wp_invoke]
  refine (wp_ite _ _ _).2 ⟨fun h0 => ?_, fun h0 => ?_⟩
  · rw [wp_bind, wp_get, wp_bind, Hook.wp_invoke, wp_bind, wp_modify, wp_pure, h0]
    exact hno _
  · rw [wp_bind, wp_modify, wp_pure]
    exact hok _ h0

theorem keepId_spec (a : ℕ) (id : Option Bytes) {Q : Bool → World → Prop} {E : ρ → World → Prop}
    (hno : ∀ n, Q false (w.log (.call (.alloc n) 0)))
    (hok : ∀ (evs : Trace) id', (∀ ev ∈ evs, ev.Outside) →
      Q true ((w.logs evs).setCtx a { w.ctxs a with transactionId := id' })) :
    wp (Hook.keepId a id : Hook ρ Bool) Q E e w := by
  cases id with
  | none =>
    have h := hok [] (w.ctxs a).transactionId fun _ hev => absurd hev List.not_mem_nil
    have hsame : (w.logs []).setCtx a { w.ctxs a with transactionId := (w.ctxs a).transactionId } = w := by
      simp [World.logs, World.setCtx]
    rwa [hsame] at h
  | some id =>
    rw [Hook.keepId, wp_bind, Hook.wp_invoke]
    refine (wp_ite _ _ _).2 ⟨fun h0 => ?_, fun _ => ?_⟩
    · rw [wp_pure, h0]
      exact hno _
    · rw [wp_bind, wp_modify, wp_pure]
      refine hok [_] id fun ev hev => ?_
      rw [List.mem_singleton.1 hev]
      exact fun _ => trivial

/-- from the call that makes the transaction on -/
theorem openCtx_spec (before : Trace) (waf : ℕ) (id : Option Bytes) (hbefore : ∀ ev ∈ before, ev.Outside)
    {Q : Option ℕ → World → Prop} (h : ∀ res w', Created e w res w' → Q res w') : wp (do
      let tx ← Hook.newTransaction waf id
      when (tx = 0) do exit none
      modify fun v => v.install tx
      let registered ← Hook.addCleanup w.ctxCount
      when (!registered) do exit none
      let kept ← Hook.keepId w.ctxCount id
      when (!kept) do exit none
      return some w.ctxCount : Hook (Option ℕ) (Option ℕ)) Q Q e (w.logs before) := by
  rw [wp_bind, Hook.wp_newTransaction, wp_bind]
  set rc := e.ret (w.trace ++ before) (.newTransaction waf id) with hrc
  set ev := Event.call (.newTransaction waf id) rc with hev
  refine (wp_when _ _).2 ⟨fun h0 => ?_, fun h0 => ?_⟩
  · have hlogs : (w.logs before).log ev = w.logs (before ++ [ev]) := by simp [World.log, World.logs]
    have hall : ∀ x ∈ before ++ [ev],
        x.Outside ∨ ∃ waf id rc, x = .call (.newTransaction waf id) rc ∧ rc.toNat = 0 := by
      intro x hx
      rcases List.mem_append.1 hx with hx | hx
      · exact Or.inl (hbefore x hx)
      · exact Or.inr ⟨_, _, _, List.mem_singleton.1 hx, h0⟩
    have hres := h _ _ (.refused _ hall)
    rwa [← hlogs] at hres
  rw [wp_bind, wp_modify, wp_bind]
  set u := ((w.logs before).log ev).install rc.toNat with hu
  change wp _ _ _ e u
  have hself : u.ctxs w.ctxCount = { corazaTransaction := rc.toNat } := Function.update_self _ _ _
  have hother : ∀ b, b ≠ w.ctxCount → u.ctxs b = w.ctxs b := fun b hb => Function.update_of_ne hb _ _
  have hutr : u.trace = w.trace ++ (before ++ [ev]) := List.append_assoc _ _ _
  refine addCleanup_spec w.ctxCount (fun frc => ?_) (fun cln hcln => ?_)
  · rw [wp_bind]
    refine (wp_when _ _).2 ⟨fun _ => ?_, fun hno => absurd rfl hno⟩
    rw [hself]
    refine h _ _
      (.abandoned rc.toNat (before ++ ev :: [.call .cleanupAdd 0, .call (.engine rc.toNat .freeTransaction) frc])
        frc _ ⟨rfl, rfl, rfl, fun b hb => ?_, [], Function.update_self _ _ _⟩ ?_ ⟨before, waf, id, rfl, rfl, h0,
        hbefore⟩ rfl)
    · exact (Function.update_of_ne hb _ _).trans (hother b hb)
    · simp [World.log, World.setCtx, hutr]
  rw [wp_bind]
  refine (wp_when _ _).2 ⟨fun hno => absurd hno (by decide), fun _ => ?_⟩
  rw [wp_bind]
  refine keepId_spec w.ctxCount id (fun n => ?_) (fun evs id' hevs => ?_)
  · rw [wp_bind]
    refine (wp_when _ _).2 ⟨fun _ => ?_, fun hno => absurd rfl hno⟩
    refine h _ _ (.unkept rc.toNat (before ++ ev :: [.call .cleanupAdd cln, .call (.alloc n) 0]) [.call (.alloc n) 0] _
      ⟨⟨rfl, rfl, rfl, hother, [], hself⟩, ?_, ⟨cln, hcln, before, waf, id, rfl, rfl, h0, hbefore⟩, rfl, ?_⟩
      ⟨_, List.mem_singleton_self _, rfl⟩)
    · simp [World.log, hutr]
    · intro x hx
      rw [List.mem_singleton.1 hx]
      exact fun _ => trivial
  · rw [wp_bind]
    refine (wp_when _ _).2 ⟨fun hno => absurd hno (by decide), fun _ => ?_⟩
    refine h _ _ (.created rc.toNat (before ++ ev :: (.call .cleanupAdd cln :: evs)) evs _
      ⟨⟨rfl, rfl, rfl, fun b hb => ?_, id', ?_⟩, ?_, ⟨cln, hcln, before, waf, id, rfl, rfl, h0, hbefore⟩, rfl, hevs⟩)
    · exact (Function.update_of_ne hb _ _).trans (hother b hb)
    · refine (Function.update_self _ _ _).trans ?_
      exact congrArg (fun c : Ctx => { c with transactionId := id' }) hself
    · simp [World.log, World.logs, World.setCtx, hutr]

theorem createCtx_spec {Q : Option ℕ → World → Prop} {E : ρ → World → Prop}
    (h : ∀ res w', Created e w res w' → Q res w') :
    wp (Hook.createCtx : Hook ρ (Option ℕ)) Q E e w := by
  rw [Hook.createCtx, wp_call, wp_bind, Hook.wp_invoke, wp_bind]
  set e1 := Event.call (.alloc 128) (e.ret w.trace (.alloc 128)) with he1
  have h1 : ∀ ev ∈ [e1], ev.Outside := by
    intro ev hev
    rw [List.mem_singleton.1 hev]
    exact fun _ => trivial
  refine (wp_when _ _).2 ⟨fun _ => ?_, fun _ => ?_⟩
  · exact h _ _ (.refused [e1] fun ev hev => Or.inl (h1 ev hev))
  rw [wp_bind, wp_get, wp_bind]
  refine (wp_when _ _).2 ⟨fun _ => ?_, fun _ => ?_⟩
  · exact h _ _ (.refused [e1] fun ev hev => Or.inl (h1 ev hev))
  rw [wp_bind, Hook.evaluateId, wp_bind, wp_ask, wp_bind, wp_get]
  refine (wp_ite _ _ _).2 ⟨fun _ => ?_, fun _ => ?_⟩
  · rw [wp_bind, Hook.wp_invoke, wp_pure]
    set e2 := Event.call .complexValue (e.ret (w.log e1).trace .complexValue) with he2
    have h2 : ∀ ev ∈ [e1, e2], ev.Outside := by
      refine List.forall_mem_cons.2 ⟨fun _ => trivial, List.forall_mem_cons.2 ⟨fun _ => trivial, ?_⟩⟩
      exact fun _ hev => absurd hev List.not_mem_nil
    have hlogs : (w.log e1).log e2 = w.logs [e1, e2] := by simp [World.log, World.logs]
    rw [hlogs]
    split
    · exact h _ _ (.refused [e1, e2] fun ev hev => Or.inl (h2 ev hev))
    · exact openCtx_spec [e1, e2] _ _ h2 h
  · rw [wp_pure]
    exact openCtx_spec [e1] _ none h1 h

/-! ## One call -/

/-- what a handler call comes to -/
inductive Turn (e : Env) (w : World) : Callback → ℤ → World → Prop where
  /-- no context is there, or it is not looked at -/
  | idle (callback : Callback) (rc : ℤ) (s : St) (evs : Trace) (bare : callback = .header → w.installed = none)
      (trace : s.trace = w.trace ++ evs) (outside : ∀ ev ∈ evs, ev.Outside) : Turn e w callback rc (w.putBare s)
  /-- the context is there and nothing is called on its transaction -/
  | quiet (callback : Callback) (rc : ℤ) (a : ℕ) (s : St) (inst : w.installed = some a)
      (header : callback = .header → (w.ctxs a).interventionTriggered = true ∨ (w.ctxs a).processed = true)
      (h : Confined (fun _ => False) (w.view a) s) : Turn e w callback rc (w.put a s)
  | preAccess (rc : ℤ) (a : ℕ) (s : St) (inst : w.installed = some a)
      (unmarked : (w.ctxs a).interventionTriggered = false) (h : Confined EngineCall.OnRequestBody (w.view a) s) :
      Turn e w .preAccess rc (w.put a s)
  | header (rc : ℤ) (a : ℕ) (s : St) (inst : w.installed = some a)
      (unmarked : (w.ctxs a).interventionTriggered = false) (unprocessed : (w.ctxs a).processed = false)
      (h : HeaderCalls (w.view a) rc s) : Turn e w .header rc (w.put a s)
  | body (inn : List Buf) (rc : ℤ) (a : ℕ) (s : St) (inst : w.installed = some a)
      (unmarked : (w.ctxs a).interventionTriggered = false)
      (h : Confined (EngineCall.OnResponseBody (w.ctxs a).responseBodyProcessable) (w.view a) s) :
      Turn e w (.body inn) rc (w.put a s)
  | log (rc : ℤ) (a : ℕ) (inst : w.installed = some a) (unlogged : (w.ctxs a).logged = false) (ret : ℤ) :
      Turn e w .log rc
        (w.put a (((w.view a).log (.call (.engine (w.ctxs a).corazaTransaction .processLogging) ret)).setCtx
        { w.ctxs a with logged := true }))
  /-- a context could not be created -/
  | denied (w' : World) (inst : w.installed = none) (h : Created e w none w') :
      Turn e w .rewrite ngxHttpInternalServerError w'
  | rewrite (rc : ℤ) (w' : World) (s : St) (inst : w.installed = none) (h : Created e w (some w.ctxCount) w')
      (calls : RewriteCalls (w'.view w.ctxCount) s) : Turn e w .rewrite rc (w'.put w.ctxCount s)

theorem Turn.unchanged (callback : Callback) (rc : ℤ) (hne : callback ≠ .header) : Turn e w callback rc w :=
  .idle callback rc w.bare [] (fun h => absurd h hne) (List.append_nil _).symm fun _ h => absurd h List.not_mem_nil

theorem rewrite_turn : wp Hook.rewrite (Turn e w .rewrite) (Turn e w .rewrite) e w := by
  rw [Hook.rewrite, wp_bind, wp_get, wp_bind]
  refine (wp_when _ _).2 ⟨fun _ => Turn.unchanged _ _ nofun, fun hon => ?_⟩
  cases hinst : w.installed with
  | some a => exact Turn.unchanged _ _ nofun
  | none =>
    rw [wp_bind]
    refine createCtx_spec fun res w' hw' => ?_
    cases res with
    | none => exact .denied w' hinst hw'
    | some a =>
      have ha : a = w.ctxCount := by cases hw'; rfl
      subst ha
      obtain ⟨tx, evs, behind, hopened⟩ := hw'.opened
      obtain ⟨id, hctx⟩ := hopened.ctx
      rw [Hook.wp_onCtx]
      have henable : (w'.view w.ctxCount).r.loc.enable = 1 := by
        change w'.r.loc.enable = 1
        rw [hopened.r]
        exact not_not.1 hon
      have hlog : (w'.view w.ctxCount).ctx.logged = false := by
        change (w'.ctxs w.ctxCount).logged = false
        rw [hctx]
      exact wp_mono (rewriteInspect_calls henable hlog (E := fun _ _ => False))
        (fun rc s hs => .rewrite rc w' s hinst hw' hs)
        (fun _ _ h => h.elim)

theorem preAccess_turn : wp Hook.preAccess (Turn e w .preAccess) (Turn e w .preAccess) e w := by
  rw [Hook.preAccess, wp_bind, wp_get, wp_bind]
  refine (wp_when _ _).2 ⟨fun _ => Turn.unchanged _ _ nofun, fun _ => ?_⟩
  cases hinst : w.installed with
  | none => exact Turn.unchanged _ _ nofun
  | some a =>
    change wp (Hook.onCtx a preAccessHandler) _ _ e w
    rw [Hook.wp_onCtx]
    cases ht : (w.ctxs a).interventionTriggered with
    | true =>
      -- the handler declines before it looks at anything else
      have hself : ∀ rc, Turn e w .preAccess rc (w.put a (w.view a)) := fun rc =>
        .quiet .preAccess rc a (w.view a) hinst nofun (Confined.refl _)
      rw [preAccessHandler, wp_call, wp_bind, wp_get, wp_bind]
      refine (wp_when _ _).2 ⟨fun _ => hself _, fun _ => ?_⟩
      rw [wp_bind]
      exact (wp_when _ _).2 ⟨fun _ => hself _, fun hno => absurd ht hno⟩
    | false =>
      exact wp_mono (preAccessHandler_keeps e (w.view a)) (fun rc s hs => .preAccess rc a s hinst ht hs)
        (fun rc s hs => .preAccess rc a s hinst ht hs)

/-- the request behind a callback that found no context -/
def World.readThroughNull (w : World) (rc : ℤ) : World :=
  w.putBare ⟨w.r.release, {}, w.inn, w.trace ++ [.call .nullContext rc]⟩

theorem requestReadBack_bare (hinst : w.installed = none) {Q E : ℤ → World → Prop}
    (h : ∀ rc, Q ngxOk (w.readThroughNull rc)) : wp Hook.requestReadBack Q E e w := by
  rw [Hook.requestReadBack, wp_bind, wp_get, hinst]
  dsimp only
  rw [wp_bind, Hook.wp_offCtx, wp_bind, wp_modify, wp_bind, Handler.wp_invoke, wp_pure, wp_pure]
  exact h _

theorem requestReadBack_onCtx {a : ℕ} (hinst : w.installed = some a) {Q E : ℤ → World → Prop}
    (h : wp (requestRead : Handler ℤ Unit) (fun _ t => Q ngxOk (w.put a t)) (fun rc t => E rc (w.put a t)) e
      (w.view a)) : wp Hook.requestReadBack Q E e w := by
  rw [Hook.requestReadBack, wp_bind, wp_get, hinst]
  dsimp only
  rw [wp_bind, Hook.wp_onCtx]
  exact h

theorem requestRead_turn : wp Hook.requestReadBack (Turn e w .requestRead) (Turn e w .requestRead) e w := by
  cases hinst : w.installed with
  | none =>
    refine requestReadBack_bare hinst fun rc => ?_
    refine .idle _ _ _ [.call .nullContext rc] (by simp) rfl fun ev hev => ?_
    rw [List.mem_singleton.1 hev]
    exact fun _ => trivial
  | some a =>
    exact requestReadBack_onCtx hinst (wp_mono (requestRead_keeps e (w.view a))
      (fun _ s hs => .quiet _ _ a s hinst nofun hs) fun rc s hs => .quiet _ rc a s hinst nofun hs)

theorem header_turn : wp Hook.header (Turn e w .header) (Turn e w .header) e w := by
  rw [Hook.header, wp_bind, wp_get]
  cases hinst : w.installed with
  | none =>
    change wp (Hook.offCtx nextHeaderFilter) _ _ e w
    simp only [Hook.wp_offCtx, nextHeaderFilter, wp_bind, wp_ask, wp_get, Handler.wp_invoke, wp_modify, wp_pure]
    refine .idle _ _ _ [_] (fun _ => hinst) rfl fun ev hev => ?_
    rw [List.mem_singleton.1 hev]
    exact fun _ => trivial
  | some a =>
    change wp (Hook.onCtx a headerFilter) _ _ e w
    rw [Hook.wp_onCtx]
    by_cases hpass : (w.ctxs a).interventionTriggered = true ∨ (w.ctxs a).processed = true
    · exact headerFilter_passes hpass fun rc s hs => .quiet _ rc a s hinst (fun _ => hpass) hs
    · rw [not_or, Bool.not_eq_true, Bool.not_eq_true] at hpass
      exact wp_mono (headerFilter_calls hpass.1 hpass.2 (E := fun _ _ => False))
        (fun rc s hs => .header rc a s hinst hpass.1 hpass.2 hs) (fun _ _ h => h.elim)

theorem body_turn (inn : List Buf) : wp (Hook.body inn) (Turn e w (.body inn)) (Turn e w (.body inn)) e w := by
  rw [Hook.body, wp_bind, wp_get]
  cases hinst : w.installed with
  | none =>
    change wp (Hook.offCtx (do
      modify fun s => s.setInn inn
      nextBodyFilter (inLinks inn))) _ _ e w
    simp only [Hook.wp_offCtx, nextBodyFilter, wp_bind, wp_ask, wp_get, Handler.wp_invoke, wp_modify]
    refine .idle _ _ _ [_] (by simp) rfl fun ev hev => ?_
    rw [List.mem_singleton.1 hev]
    exact fun _ => trivial
  | some a =>
    change wp (Hook.onCtx a (bodyFilter inn)) _ _ e w
    rw [Hook.wp_onCtx]
    cases ht : (w.ctxs a).interventionTriggered with
    | true => exact bodyFilter_passes inn ht fun rc s hs => .quiet _ rc a s hinst (by simp) hs
    | false => exact bodyFilter_confined inn fun rc s hs => .body inn rc a s hinst ht hs

theorem logPhase_turn : wp Hook.logPhase (Turn e w .log) (Turn e w .log) e w := by
  rw [Hook.logPhase, wp_bind, wp_get]
  cases hinst : w.installed with
  | none => exact Turn.unchanged _ _ (by simp)
  | some a =>
    have hself : ∀ rc, Turn e w .log rc (w.put a (w.view a)) := fun rc =>
      .quiet .log rc a (w.view a) hinst (by simp) (Confined.refl _)
    change wp (Hook.onCtx a logHandler) _ _ e w
    rw [Hook.wp_onCtx, logHandler, wp_call, wp_bind, wp_get, wp_bind]
    refine (wp_when _ _).2 ⟨fun _ => hself _, fun _ => ?_⟩
    rw [wp_bind]
    refine (wp_when _ _).2 ⟨fun _ => hself _, fun hlog => ?_⟩
    rw [wp_bind, Handler.wp_engine, wp_bind, wp_modify, wp_pure]
    exact .log _ a hinst (Bool.eq_false_of_not_eq_true hlog) _

/-- **One call.** Every handler call is one of these. -/
theorem turn_spec (callback : Callback) (e : Env) (w : World) :
    Turn e w callback (callback.code.run e w).1 (callback.code.run e w).2 := by
  have hwp : wp callback.code (Turn e w callback) (Turn e w callback) e w := by
    cases callback with
    | rewrite => exact rewrite_turn
    | preAccess => exact preAccess_turn
    | requestRead => exact requestRead_turn
    | header => exact header_turn
    | body inn => exact body_turn inn
    | log => exact logPhase_turn
  exact (wp_run (Q := Turn e w callback) callback.code).1 hwp

end CorazaNginx
