/-
The order of the phases on one transaction.

`Ordered calls`: every call comes at its time (`Timely`), given the calls in front of it. The module keeps no record of
what it has called: five handlers go by four flags of the context, and by what nginx calls them for. `Begun` says what
those flags stand for as long as nginx works on the response. It holds of a context that the rewrite handler has taken
through phase 1, or has marked; a handler call keeps it and adds calls that come at their time (`Turn.timeline`), so a
run is in order as long as every context it creates begins like that (`CleanStart`). The rewrite handler can leave one
that does not: it gives up without a mark when an allocation fails, and it goes on with a transaction that it has logged
already.
-/
import Mathlib.Tactic
import Mathlib.Data.List.TakeWhile
import CorazaNginx.Lifecycle.Handles

namespace CorazaNginx

open CorazaNginx.Core Prog

variable {e : Env} {w w' : World} {a tx : ℕ} {s t : St} {evs : Trace} {pre l m : List EngineCall} {c : EngineCall}

/-! ## Calls in order -/

/-- the response headers have been evaluated -/
def Answered (calls : List EngineCall) : Prop := ∃ status version, .processResponseHeaders status version ∈ calls

/-- a call comes at its time, with the calls `pre` in front of it -/
def Timely (pre : List EngineCall) : EngineCall → Prop
  | .processRequestHeaders => .processLogging ∉ pre ∧ .processRequestHeaders ∉ pre
  | .appendRequestBody .. | .processRequestBody => .processLogging ∉ pre ∧ .processRequestHeaders ∈ pre
  | .processResponseHeaders .. => .processLogging ∉ pre ∧ .processRequestHeaders ∈ pre ∧ ¬ Answered pre
  | .appendResponseBody .. | .processResponseBody => .processLogging ∉ pre ∧ Answered pre
  | .processConnection .. | .processUri .. | .addRequestHeaders .. | .addRequestHeader .. | .addResponseHeaders ..
  | .addResponseHeader .. | .processLogging => .processLogging ∉ pre
  | .isRequestBodyAccessible | .isResponseBodyProcessable | .updateStatusCode _ | .freeTransaction => True

/-- every call comes at its time -/
def Ordered (calls : List EngineCall) : Prop := Each Timely calls

theorem Answered.mono (h : Answered l) (hl : l ⊆ m) : Answered m := h.imp fun _ => Exists.imp fun _ hin => hl hin

theorem answered_append : Answered (l ++ m) ↔ Answered l ∨ Answered m := by
  constructor
  · rintro ⟨status, version, hin⟩
    exact (List.mem_append.1 hin).imp (fun h => ⟨status, version, h⟩) fun h => ⟨status, version, h⟩
  · rintro (h | h)
    · exact h.mono (List.subset_append_left l m)
    · exact h.mono (List.subset_append_right l m)

/-- response headers are evaluated behind request headers -/
theorem Ordered.begun (h : Ordered l) (ha : Answered l) : .processRequestHeaders ∈ l := by
  obtain ⟨status, version, hin⟩ := ha
  obtain ⟨pre, post, rfl⟩ := List.append_of_mem hin
  exact List.mem_append_left _ (h pre _ post rfl).2.1

/-- a stretch of calls that may be repeated, and log nothing -/
theorem Ordered.stretch {P : EngineCall → Prop} (h : Ordered l) (hl : .processLogging ∉ l) (hm : ∀ c ∈ m, P c)
    (hP : ¬ P .processLogging) (hsteady : ∀ pre c, P c → .processLogging ∉ pre → l ⊆ pre → Timely pre c) :
    Ordered (l ++ m) := by
  refine each_append.2 ⟨h, each_of_mem fun pre c hpre hc => ?_⟩
  refine hsteady (l ++ pre) c (hm c hc) ?_ (List.subset_append_left l pre)
  intro hin
  rcases List.mem_append.1 hin with hin | hin
  · exact hl hin
  · exact hP (hm _ (hpre _ hin))

theorem Ordered.concat (h : Ordered l) (hc : Timely l c) : Ordered (l ++ [c]) := each_concat.2 ⟨h, hc⟩

theorem Timely.onRequestBody (hc : c.OnRequestBody) (hlog : .processLogging ∉ pre)
    (hbegun : .processRequestHeaders ∈ pre) :
    Timely pre c := by
  cases c <;> first | exact hc.elim | trivial

theorem Timely.onResponseBody {processable : Bool} (hc : c.OnResponseBody processable) (hlog : .processLogging ∉ pre)
    (hanswered : Answered pre) : Timely pre c := by
  cases c <;> first | exact hc.elim | trivial

theorem Timely.addsResponseHeader (hc : c.AddsResponseHeader) (hlog : .processLogging ∉ pre) : Timely pre c := by
  cases c <;> first | exact hc.elim | exact hlog

theorem Timely.beforePhase1 (hc : c.BeforePhase1) (hlog : .processLogging ∉ pre) : Timely pre c := by
  cases c <;> first | exact hc.elim | exact hlog

theorem Timely.behindPhase (hc : c.BehindPhase) : Timely pre c := by
  cases c <;> first | exact hc.elim | trivial

/-- the response headers are added and evaluated -/
theorem Ordered.answer {adds behind : List EngineCall} (h : Ordered l) (hlog : .processLogging ∉ l)
    (hbegun : .processRequestHeaders ∈ l) (hnot : ¬ Answered l) (hadds : ∀ c ∈ adds, c.AddsResponseHeader) (status : ℤ)
    (version : Bytes) (hbehind : ∀ c ∈ behind, c.BehindPhase) :
    Ordered (l ++ (adds ++ .processResponseHeaders status version :: behind)) := by
  have hadded : Ordered (l ++ adds) := h.stretch hlog hadds id fun pre c hc hpre _ => Timely.addsResponseHeader hc hpre
  have hnone : ∀ {c : EngineCall}, ¬ c.AddsResponseHeader → c ∉ adds := fun hc hin => hc (hadds _ hin)
  have hphase : Ordered (l ++ adds ++ [.processResponseHeaders status version]) := by
    refine hadded.concat ⟨?_, List.mem_append_left _ hbegun, ?_⟩
    · rw [List.mem_append, not_or]
      exact ⟨hlog, hnone id⟩
    · rw [answered_append, not_or]
      exact ⟨hnot, fun ⟨_, _, hin⟩ => hnone id hin⟩
  have hall := each_append.2 ⟨hphase, each_of_forall (a := behind) fun c hc pre => Timely.behindPhase (hbehind c hc)⟩
  rw [List.append_assoc, List.append_assoc] at hall
  exact hall

/-- phase 1 of a transaction on which nothing has been called, and the log behind it if there is one -/
theorem Ordered.phase1 {before behind : List EngineCall} (hbefore : ∀ c ∈ before, c.BeforePhase1)
    (hbehind : (∀ c ∈ behind, c.Updates) ∨ ∃ status, behind = [.updateStatusCode status, .processLogging]) :
    Ordered (before ++ .processRequestHeaders :: behind) := by
  have hnone : ∀ {c : EngineCall}, ¬ c.BeforePhase1 → c ∉ before := fun hc hin => hc (hbefore _ hin)
  have hadded : Ordered ([] ++ before) := by
    refine Ordered.stretch each_nil List.not_mem_nil hbefore id fun pre c hc hpre _ => Timely.beforePhase1 hc hpre
  have hphase : Ordered (before ++ [.processRequestHeaders]) := hadded.concat ⟨hnone id, hnone id⟩
  have hunlogged : .processLogging ∉ before ++ [.processRequestHeaders] := by
    rw [List.mem_append, not_or]
    exact ⟨hnone id, by simp⟩
  have hall : Ordered (before ++ [.processRequestHeaders] ++ behind) := by
    rcases hbehind with hupdates | ⟨status, rfl⟩
    · refine hphase.stretch hunlogged hupdates id fun pre c hc _ _ => ?_
      cases c <;> first | exact hc.elim | trivial
    · have hupdated := hphase.concat (c := .updateStatusCode status) trivial
      have hlogged := hupdated.concat (c := .processLogging) (by
        change EngineCall.processLogging ∉ _
        rw [List.mem_append, not_or]
        exact ⟨hunlogged, by simp⟩)
      rwa [List.append_assoc] at hlogged
  rwa [List.append_assoc] at hall

/-! ## What the rewrite handler may meet -/

def Event.makesTransaction : Event → Bool
  | .call (.newTransaction ..) _ => true
  | _ => false

def Event.handsUri : Event → Bool
  | .call (.engine _ (.processUri ..)) _ => true
  | _ => false

/-- the events from the transaction's creation up to the URI's being handed over -/
def Trace.preparation (evs : Trace) : Trace :=
  (evs.dropWhile fun ev => !ev.makesTransaction).takeWhile fun ev => !ev.handsUri

/-- a stretch that ends before the URI is handed over -/
theorem Trace.preparation_eq {before behind : Trace} (waf : ℕ) (id : Option Bytes) (rc : ℤ)
    (hbefore : ∀ ev ∈ before, ev.Outside) (hbehind : ∀ ev ∈ behind, ev.handsUri = false) :
    Trace.preparation (before ++ .call (.newTransaction waf id) rc :: behind) =
      .call (.newTransaction waf id) rc :: behind := by
  have hdrop : ∀ ev ∈ before, (!ev.makesTransaction) = true := by
    intro ev hev
    have hout := hbefore ev hev 0
    cases ev with
    | poll => rfl
    | call c rc => cases c <;> first | rfl | exact hout.elim
  have htake : ∀ ev ∈ (Event.call (.newTransaction waf id) rc :: behind), (!ev.handsUri) = true := by
    refine List.forall_mem_cons.2 ⟨rfl, fun ev hev => ?_⟩
    rw [hbehind ev hev]
    rfl
  rw [Trace.preparation, List.dropWhile_append_of_pos hdrop,
    List.dropWhile_cons_of_neg (by simp [Event.makesTransaction])]
  exact List.takeWhile_eq_self_iff.2 htake

/-- nothing is refused to the rewrite handler between the transaction and its URI, and an interruption of phase 1 is not
passed over, which is what happens on an error page, and with the status 0 -/
structure CleanStart (r : Request) (evs : Trace) : Prop where
  prepared : ∀ ev ∈ evs.preparation, ev.refused = false
  heeded : ∀ tx sent iv, .poll tx sent (some iv) ∈ evs → iv.status ≠ 200 →
    r.errorPage = false ∧ (iv.status = 0 → sent = true)

/-- in a step that calls the rewrite handler -/
def Step.CleanStart (w : World) : Step → Prop
  | .call .rewrite e r => CorazaNginx.CleanStart r (w.events .rewrite e r)
  | _ => True

/-- the order in which nginx goes through the handlers: a response body only behind response headers that were let
through, and nothing but the LOG phase behind a header filter that failed, or behind the LOG phase -/
def Callback.Allowed (p : ResponseStage) : Callback → Prop
  | .log => True
  | .body _ => p = .sending
  | _ => p = .phases ∨ p = .sending

def Step.Allowed (w : World) : Step → Prop
  | .call callback _ _ => callback.Allowed w.stage
  | .clearCtx => w.stage ≠ .logging

/-- every step of the run is as `C` asks, in the world it is made in -/
def World.Along (C : World → Step → Prop) (w : World) : List Step → Prop
  | [] => True
  | step :: steps => C w step ∧ (w.next step).Along C steps

/-- events on a transaction that hand over no URI -/
theorem Event.Within.not_handsUri {P : EngineCall → Prop} {ev : Event} (h : ev.Within tx P)
    (hP : ∀ uri method version, ¬ P (.processUri uri method version)) : ev.handsUri = false := by
  cases ev with
  | poll => rfl
  | call c rc =>
    cases c with
    | engine tx' c =>
      cases c with
      | processUri uri method version => exact absurd h.2 (hP uri method version)
      | _ => rfl
    | _ => rfl

/-- **A context with its cleanup refused, or its id,** is not one that the condition allows. -/
theorem Created.refuses (hc : Created e w none w') (htr : w'.trace = w.trace ++ evs)
    (hprepared : ∀ ev ∈ evs.preparation, ev.refused = false) (hinst : w.installed = none) : w'.installed = none := by
  cases hc with
  | refused evs hevs => exact hinst
  | abandoned tx evs' rc w' ho htr' hev =>
    obtain ⟨before, waf, id, hsplit, -, -, hbefore⟩ := hev
    have heq : evs = evs' := List.append_cancel_left (htr.symm.trans htr')
    subst heq
    rw [hsplit, Trace.preparation_eq waf id _ hbefore (by simp [Event.handsUri])] at hprepared
    exact absurd (hprepared (.call .cleanupAdd 0) (by simp)) (by decide)
  | unkept tx evs' behind w' ho hwhy =>
    obtain ⟨cln, -, before, waf, id, hsplit, -, -, hbefore⟩ := ho.events
    obtain ⟨ev, hev, hrefused⟩ := hwhy
    have heq : evs = evs' := List.append_cancel_left (htr.symm.trans ho.trace)
    subst heq
    have hbehind : ∀ x ∈ Event.call .cleanupAdd cln :: behind, x.handsUri = false :=
      List.forall_mem_cons.2 ⟨rfl, fun x hx => (ho.outside x hx 0).not_handsUri fun _ _ _ => not_false⟩
    rw [hsplit, Trace.preparation_eq waf id _ hbefore hbehind] at hprepared
    have hno := hprepared ev (List.mem_cons_of_mem _ (List.mem_cons_of_mem _ hev))
    exact absurd (hrefused.symm.trans hno) nofun

/-- the pool refuses a cleanup to the rewrite handler only, before the URI is handed over -/
theorem Turn.refused {callback : Callback} {rc : ℤ} (ht : Turn e w callback rc w') (htr : w'.trace = w.trace ++ evs)
    (hin : .call .cleanupAdd 0 ∈ evs) : callback = .rewrite ∧ .call .cleanupAdd 0 ∈ evs.preparation := by
  -- a stretch on one transaction registers nothing
  have within : ∀ {P : EngineCall → Prop} {evs' : Trace} {x : ℕ}, w'.trace = w.trace ++ evs' →
      (∀ ev ∈ evs', ev.Within x P) → callback = .rewrite ∧ .call .cleanupAdd 0 ∈ evs.preparation := by
    intro P evs' x htr' hevs
    have heq : evs = evs' := List.append_cancel_left (htr.symm.trans htr')
    subst heq
    exact (hevs _ hin).elim
  have opened : ∀ {tx : ℕ} {evs' m behind : Trace} {w'' : World}, Opened e w tx evs' behind w'' →
      w'.trace = w.trace ++ (evs' ++ m) → (∀ ev ∈ m, ev ≠ .call .cleanupAdd 0) →
      callback = .rewrite ∧ .call .cleanupAdd 0 ∈ evs.preparation := by
    intro tx evs' m behind w'' ho htr' hmore
    obtain ⟨cln, hcln, before, waf, id, hsplit, -, -, hbefore⟩ := ho.events
    have heq : evs = evs' ++ m := List.append_cancel_left (htr.symm.trans htr')
    rw [heq, hsplit] at hin
    simp only [List.mem_append, List.mem_cons] at hin
    rcases hin with (hin | hin | hin | hin) | hin
    · exact (hbefore _ hin 0).elim
    · cases hin
    · cases hin
      exact absurd rfl hcln
    · exact (ho.outside _ hin 0).elim
    · exact absurd rfl (hmore _ hin)
  cases ht with
  | idle callback rc s evs' _ htr' hout => exact within htr' fun ev hev => hout ev hev 0
  | quiet callback rc a s _ _ hc =>
    obtain ⟨evs', htr', hevs⟩ := hc.trace
    exact within htr' hevs
  | preAccess rc a s _ _ hc =>
    obtain ⟨evs', htr', hevs⟩ := hc.trace
    exact within htr' hevs
  | header rc a s _ _ _ hc =>
    obtain ⟨evs', htr', hevs, -⟩ := hc.unlogged
    exact within htr' hevs
  | body inn rc a s _ _ hc =>
    obtain ⟨evs', htr', hevs⟩ := hc.trace
    exact within htr' hevs
  | log rc a _ _ ret =>
    have htr' : evs = [.call (.engine (w.handle a) .processLogging) ret] := List.append_cancel_left (htr.symm.trans rfl)
    rw [htr', List.mem_singleton] at hin
    cases hin
  | denied w' _ hc =>
    cases hc with
    | refused evs' hevs =>
      have heq : evs = evs' := List.append_cancel_left (htr.symm.trans rfl)
      subst heq
      rcases hevs _ hin with hout | ⟨_, _, _, heq, -⟩
      · exact (hout 0).elim
      · cases heq
    | abandoned tx evs' rc w' ho htr' hev =>
      obtain ⟨before, waf, id, hsplit, -, -, hbefore⟩ := hev
      have heq : evs = evs' := List.append_cancel_left (htr.symm.trans htr')
      rw [heq, hsplit, Trace.preparation_eq waf id _ hbefore (by simp [Event.handsUri])]
      exact ⟨rfl, by simp⟩
    | unkept tx evs' behind w' ho =>
      exact opened (m := []) ho (by rw [ho.trace, List.append_nil]) fun _ h => absurd h List.not_mem_nil
  | rewrite rc w'' s _ hc hcalls =>
    obtain ⟨tx, evs', behind, ho⟩ := hc.opened
    obtain ⟨id, hctx⟩ := ho.ctx
    have hlog : (w''.ctxs w.ctxCount).logged = false := by rw [hctx]
    obtain ⟨more, htr', hmore, -⟩ := hcalls.logged hlog
    refine opened (m := more) ho ?_ fun ev hev heq => ?_
    · have hview : (w''.view w.ctxCount).trace = w.trace ++ evs' := ho.trace
      change s.trace = _
      rw [htr', hview, List.append_assoc]
    · rw [heq] at hev
      exact (hmore _ hev).elim

/-! ## The flags of the context -/

/-- what the flags of the context installed stand for, as long as nginx works on the response -/
structure Begun (p : ResponseStage) (c : Ctx) (calls : List EngineCall) : Prop where
  begun : c.interventionTriggered = true ∨ (.processRequestHeaders ∈ calls ∧ .processLogging ∉ calls)
  unanswered : c.processed = false → ¬ Answered calls
  answered : c.processed = true → c.interventionTriggered = true ∨ Answered calls ∨ p = .failed
  sending : p = .sending → c.interventionTriggered = true ∨ Answered calls

/-- calls that neither log nor evaluate the response headers -/
theorem Begun.next {p p' : ResponseStage} {c' : Ctx} {cx : Ctx} (h : Begun p cx l)
    (hm : ∀ c ∈ m, c ≠ .processLogging ∧ ¬ Answered [c]) (hproc : c'.processed = cx.processed)
    (hmarked : cx.interventionTriggered = true → c'.interventionTriggered = true) (hp : p ≠ .failed)
    (hsending : p' = .sending → cx.interventionTriggered = true ∨ Answered l) : Begun p' c' (l ++ m) := by
  have hsub := List.subset_append_left l m
  have hnone : ¬ Answered m := fun ⟨status, version, hin⟩ => (hm _ hin).2 ⟨status, version, List.mem_singleton_self _⟩
  have hstays : cx.interventionTriggered = true ∨ Answered l → c'.interventionTriggered = true ∨ Answered (l ++ m) :=
    Or.imp hmarked fun ha => ha.mono hsub
  refine ⟨?_, fun hc => ?_, fun hc => ?_, fun hs => hstays (hsending hs)⟩
  · refine h.begun.imp hmarked fun ⟨hbegun, hlog⟩ => ⟨hsub hbegun, fun hin => ?_⟩
    rcases List.mem_append.1 hin with hin | hin
    · exact hlog hin
    · exact (hm _ hin).1 rfl
  · rw [answered_append, not_or]
    exact ⟨h.unanswered (hproc.symm.trans hc), hnone⟩
  · rcases h.answered (hproc.symm.trans hc) with ht | ha | hf
    · exact Or.inl (hmarked ht)
    · exact Or.inr (Or.inl (ha.mono hsub))
    · exact absurd hf hp

/-- the context that the header filter has worked on -/
theorem Begun.answer {p p' : ResponseStage} {c' : Ctx} {cx : Ctx} {adds behind : List EngineCall} (h : Begun p cx l)
    (hunmarked : cx.interventionTriggered = false) (hadds : ∀ c ∈ adds, c.AddsResponseHeader) (status : ℤ)
    (version : Bytes) (hbehind : ∀ c ∈ behind, c.BehindPhase) (hproc : c'.processed = true) :
    Begun p' c' (l ++ (adds ++ .processResponseHeaders status version :: behind)) := by
  have hall : Answered (l ++ (adds ++ .processResponseHeaders status version :: behind)) := ⟨status, version, by simp⟩
  obtain ⟨hbegun, hlog⟩ := h.begun.resolve_left (by simp [hunmarked])
  refine ⟨Or.inr ⟨List.mem_append_left _ hbegun, fun hin => ?_⟩, fun hc => ?_, fun _ => Or.inr (Or.inl hall),
    fun _ => Or.inr hall⟩
  · simp only [List.mem_append, List.mem_cons, reduceCtorEq, false_or] at hin
    rcases hin with hin | hin | hin
    · exact hlog hin
    · exact (hadds _ hin).elim
    · exact (hbehind _ hin).elim
  · exact absurd (hproc.symm.trans hc) nofun

/-- the context whose response headers could not be added -/
theorem Begun.broke {p : ResponseStage} {c' : Ctx} {cx : Ctx} {adds : List EngineCall} (h : Begun p cx l)
    (hunmarked : cx.interventionTriggered = false) (hunprocessed : cx.processed = false)
    (hadds : ∀ c ∈ adds, c.AddsResponseHeader) : Begun .failed c' (l ++ adds) := by
  obtain ⟨hbegun, hlog⟩ := h.begun.resolve_left (by simp [hunmarked])
  refine ⟨Or.inr ⟨List.mem_append_left _ hbegun, fun hin => ?_⟩, fun _ => ?_, fun _ => Or.inr (Or.inr rfl), nofun⟩
  · rcases List.mem_append.1 hin with hin | hin
    · exact hlog hin
    · exact (hadds _ hin).elim
  · rw [answered_append, not_or]
    exact ⟨h.unanswered hunprocessed, fun ⟨_, _, hin⟩ => (hadds _ hin).elim⟩

/-- **A context that the rewrite handler leaves behind**, unless it was refused something or passed an interruption
over. -/
theorem RewriteCalls.begun (hc : RewriteCalls s t) (hproc : s.ctx.processed = false) (hprepared : ¬ Stopped1 s t)
    (hheeded : ∀ evs, t.trace = s.trace ++ evs → ∀ tx sent iv, .poll tx sent (some iv) ∈ evs → iv.status ≠ 200 →
      s.r.errorPage = false ∧ (iv.status = 0 → sent = true)) :
    ∃ evs, t.trace = s.trace ++ evs ∧ Ordered (evs.calls s.ctx.corazaTransaction) ∧
      Begun .phases t.ctx (evs.calls s.ctx.corazaTransaction) := by
  have unanswered : ∀ {P : EngineCall → Prop} {l : List EngineCall}, (∀ c ∈ l, P c) →
      (∀ status version, ¬ P (.processResponseHeaders status version)) → ¬ Answered l :=
    fun hl hP ⟨status, version, hin⟩ => hP status version (hl _ hin)
  cases hc with
  | stopped h => exact absurd h hprepared
  | tooLong evs marked hevs =>
    have hcalls := Trace.forall_calls_of_within hevs
    refine ⟨evs, by rw [marked]; rfl, ?_, ?_, fun _ => unanswered hcalls fun _ _ => id, fun hc => ?_, nofun⟩
    · have hord :=
        Ordered.stretch (l := []) each_nil List.not_mem_nil hcalls id fun _ _ hc hpre _ => Timely.beforePhase1 hc hpre
      exact hord
    · rw [marked]
      exact Or.inl rfl
    · rw [marked] at hc
      exact absurd (hproc.symm.trans hc) nofun
  | evaluated evs rest pret htr hevs hb =>
    have htr' :
        t.trace = s.trace ++ (evs ++ .call (.engine s.ctx.corazaTransaction .processRequestHeaders) pret :: rest) := by
      rw [htr, List.append_assoc]
    have hsplit : Trace.calls s.ctx.corazaTransaction
        (evs ++ .call (.engine s.ctx.corazaTransaction .processRequestHeaders) pret :: rest) =
        evs.calls s.ctx.corazaTransaction ++ .processRequestHeaders :: rest.calls s.ctx.corazaTransaction := by
      simp [Trace.calls]
    have hbefore := Trace.forall_calls_of_within hevs
    have hbehind := Trace.forall_calls_of_within hb.within
    refine ⟨_, htr', ?_, ?_⟩ <;> rw [hsplit]
    · apply Ordered.phase1 hbefore
      rcases hb.logging with ⟨-, hnot⟩ | ⟨-, hcalls, -⟩
      · refine Or.inl fun c hc => ?_
        have hc' := hbehind c hc
        cases c with
        | updateStatusCode => trivial
        | processLogging => exact absurd hc hnot
        | _ => exact hc'.elim
      · exact Or.inr hcalls
    · refine ⟨?_, fun _ => ?_, fun hc => ?_, nofun⟩
      · rcases hb.logging with ⟨-, hnot⟩ | ⟨-, -, hmarked | hover⟩
        · refine Or.inr ⟨by simp, fun hin => ?_⟩
          simp only [List.mem_append, List.mem_cons, reduceCtorEq, false_or] at hin
          rcases hin with hin | hin
          · exact (hbefore _ hin).elim
          · exact hnot hin
        · exact Or.inl hmarked
        · obtain ⟨tx, sent, iv, hpoll, h200, hpassed⟩ := hover
          obtain ⟨hep, hzero⟩ := hheeded _ htr' tx sent iv (by simp [hpoll]) h200
          rcases hpassed with hep' | ⟨h0, hsent⟩
          · exact absurd (hep.symm.trans hep') nofun
          · exact absurd (hsent.symm.trans (hzero h0)) nofun
      · rw [answered_append, not_or]
        refine ⟨unanswered hbefore fun _ _ => id, ?_⟩
        rintro ⟨status, version, hin⟩
        rcases List.mem_cons.1 hin with heq | hin
        · cases heq
        · exact (hbehind _ hin).elim
      · exact absurd (hproc.symm.trans (hb.processed.symm.trans hc)) nofun

/-! ## One call -/

/-- the calls on every transaction are in order, and the flags of the context installed stand for what they should -/
structure Timeline (w : World) : Prop extends Alive w where
  unrefused : .call .cleanupAdd 0 ∉ w.trace
  ordered : ∀ tx, Ordered (w.trace.calls tx)
  begun : ∀ a, w.installed = some a → w.stage ≠ .logging → Begun w.stage (w.ctxs a) (w.calls a)

theorem Timeline.start (r : Request) (mainWaf : ℕ) : Timeline (World.start r mainWaf) where
  toAlive := Alive.start r mainWaf
  unrefused := List.not_mem_nil
  ordered := fun _ => each_nil
  begun := nofun

theorem Callback.Allowed.stage_ne {callback : Callback} {p : ResponseStage} (h : callback.Allowed p)
    (hne : callback ≠ .log) :
    p ≠ .logging ∧ p ≠ .failed := by
  have hp : p = .phases ∨ p = .sending := by
    cases callback with
    | log => exact absurd rfl hne
    | body => exact Or.inr h
    | _ => exact h
  rcases hp with rfl | rfl <;> exact ⟨nofun, nofun⟩

theorem Callback.stage_sending {callback : Callback} {rc : ℤ} {p : ResponseStage} (hne : callback ≠ .header)
    (h : callback.stage rc evs p = .sending) : p = .sending := by
  cases callback with
  | header => exact absurd rfl hne
  | rewrite => cases h
  | log => cases h
  | _ => exact h

/-- the order on every transaction, behind work on one of them -/
theorem ordered_work {P : EngineCall → Prop} (h : ∀ x, Ordered (w.trace.calls x)) (htr : s.trace = w.trace ++ evs)
    (hevs : ∀ ev ∈ evs, ev.Within tx P) (hown : Ordered (w.trace.calls tx ++ evs.calls tx)) (x : ℕ) :
    Ordered (s.trace.calls x) := by
  rw [htr, Trace.calls_append]
  by_cases hx : x = tx
  · rw [hx]
    exact hown
  · rw [Trace.calls_of_within hevs hx, List.append_nil]
    exact h x

theorem calls_work (htr : s.trace = w.trace ++ evs) (htx : s.ctx.corazaTransaction = w.handle a) :
    (w.put a s).calls a = w.calls a ++ evs.calls (w.handle a) := by
  rw [World.calls, World.put_handle htx]
  change s.trace.calls (w.handle a) = _
  rw [htr, Trace.calls_append]
  rfl

/-- what is left to show for a call that works on the context installed -/
theorem Timeline.work {P : EngineCall → Prop} {callback : Callback} {rc : ℤ} (h : Timeline w)
    (hinst : w.installed = some a) (halive : Alive (w.put a s)) (htr : s.trace = w.trace ++ evs)
    (hevs : ∀ ev ∈ evs, ev.Within (w.handle a) P) (htx : s.ctx.corazaTransaction = w.handle a)
    (hordered : Ordered (w.calls a ++ evs.calls (w.handle a)))
    (hbegun : callback ≠ .log → Begun (callback.stage rc evs w.stage) s.ctx (w.calls a ++ evs.calls (w.handle a))) :
    Timeline { w.put a s with stage := callback.stage rc evs w.stage } where
  toAlive := halive.setStage _
  unrefused := by
    change _ ∉ s.trace
    rw [htr]
    intro hin
    rcases List.mem_append.1 hin with hin | hin
    · exact h.unrefused hin
    · exact (hevs _ hin).elim
  ordered := ordered_work h.ordered htr hevs hordered
  begun := by
    intro b hb hstage
    have heq : b = a := Option.some.inj (hb.symm.trans hinst)
    subst heq
    change Begun _ ((w.put b s).ctxs b) ((w.put b s).calls b)
    rw [World.put_self, calls_work htr htx]
    apply hbegun
    rintro rfl
    exact hstage rfl

/-- the context installed is fit for another call, unless it is marked -/
theorem Timeline.unmarked {callback : Callback} (h : Timeline w) (hinst : w.installed = some a)
    (hallowed : callback.Allowed w.stage) (hne : callback ≠ .log)
    (hunmarked : (w.ctxs a).interventionTriggered = false) :
    .processRequestHeaders ∈ w.calls a ∧ .processLogging ∉ w.calls a ∧ Begun w.stage (w.ctxs a) (w.calls a) ∧
      w.stage ≠ .failed := by
  have hstage := hallowed.stage_ne hne
  have hbegun := h.begun a hinst hstage.1
  obtain ⟨hphase, hlog⟩ := hbegun.begun.resolve_left (by simp [hunmarked])
  exact ⟨hphase, hlog, hbegun, hstage.2⟩

/-- what is left to show for a call that touches neither the contexts nor their transactions -/
theorem Timeline.beside {callback : Callback} {rc : ℤ} (h : Timeline w) (halive : Alive w')
    (hinst : w'.installed = w.installed) (hctxs : w'.ctxs = w.ctxs) (hno : .call .cleanupAdd 0 ∉ w'.trace)
    (hcalls : ∀ x, w'.trace.calls x = w.trace.calls x) (hallowed : callback.Allowed w.stage)
    (hbare : callback = .header → w.installed = none) :
    Timeline { w' with stage := callback.stage rc evs w.stage } where
  toAlive := halive.setStage _
  unrefused := hno
  ordered := by
    intro x
    change Ordered (w'.trace.calls x)
    rw [hcalls]
    exact h.ordered x
  begun := by
    intro a ha hstage
    have ha' : w.installed = some a := hinst.symm.trans ha
    have hne : callback ≠ .log := by
      rintro rfl
      exact hstage rfl
    have hheader : callback ≠ .header := fun heq => absurd ((hbare heq).symm.trans ha') nofun
    have hp := hallowed.stage_ne hne
    change Begun _ (w'.ctxs a) (w'.trace.calls (w'.ctxs a).corazaTransaction)
    rw [hctxs, hcalls]
    have hbegun := h.begun a ha' hp.1
    have hnext : Begun (callback.stage rc evs w.stage) (w.ctxs a) (w.calls a ++ []) :=
      hbegun.next (fun _ hin => absurd hin List.not_mem_nil) rfl id hp.2 fun hs =>
        hbegun.sending (Callback.stage_sending hheader hs)
    rw [List.append_nil] at hnext
    exact hnext

/-- the header filter, on a context that it has not processed -/
theorem Timeline.headers {rc : ℤ} (h : Timeline w) (hinst : w.installed = some a)
    (hallowed : Callback.header.Allowed w.stage) (hunmarked : (w.ctxs a).interventionTriggered = false)
    (hunprocessed : (w.ctxs a).processed = false) (hc : HeaderCalls (w.view a) rc s) (halive : Alive (w.put a s))
    (htr : s.trace = w.trace ++ evs) :
    Timeline { w.put a s with stage := Callback.header.stage rc evs w.stage } := by
  obtain ⟨hphase, hlog, hbegun, hp⟩ := h.unmarked hinst hallowed nofun hunmarked
  have hunanswered := hbegun.unanswered hunprocessed
  obtain ⟨evs', htr', hevs, htx, -⟩ := hc.unlogged
  obtain rfl : evs' = evs := List.append_cancel_left (htr'.symm.trans htr)
  cases hc with
  | broke evs t htr'' hadds hunfinished =>
    obtain rfl : evs = evs' := List.append_cancel_left (htr''.symm.trans htr')
    have hcalls := Trace.forall_calls_of_within hadds
    refine h.work hinst halive htr' hevs htx ?_ fun _ => ?_
    · exact Ordered.stretch (h.ordered _) hlog hcalls id fun pre c hc hpre _ => Timely.addsResponseHeader hc hpre
    · have hstage : Callback.header.stage ngxError evs w.stage = .failed := by
        rw [Callback.stage, if_pos rfl, if_neg]
        rw [List.any_eq_true]
        rintro ⟨ev, hev, hfin⟩
        have hev' := hunfinished ev hev
        cases ev with
        | poll => cases hfin
        | call c rc => cases c <;> first | exact absurd hfin Bool.false_ne_true | cases hev'
      rw [hstage]
      exact hbegun.broke hunmarked hunprocessed hcalls
  | evaluated evs rest status pret rc version t htr'' hadds hbehind htx' hlog' hproc =>
    have hsplit : evs'.calls (w.handle a) =
        evs.calls (w.handle a) ++ .processResponseHeaders status version :: rest.calls (w.handle a) := by
      have heq : evs' = evs ++ .call (.engine (w.handle a) (.processResponseHeaders status version)) pret :: rest := by
        rw [List.append_assoc] at htr''
        exact List.append_cancel_left (htr'.symm.trans htr'')
      rw [heq]
      simp [Trace.calls]
    have hadds' := Trace.forall_calls_of_within hadds
    have hbehind' := Trace.forall_calls_of_within hbehind
    refine h.work hinst halive htr' hevs htx ?_ fun _ => ?_ <;> rw [hsplit]
    · exact Ordered.answer (h.ordered _) hlog hphase hunanswered hadds' status version hbehind'
    · exact hbegun.answer hunmarked hadds' status version hbehind' hproc

/-- a context that the rewrite handler was refused something for -/
theorem Opened.not_stopped {behind evs₀ : Trace} (ho : Opened e w tx evs₀ behind w') (htr : s.trace = w.trace ++ evs)
    (hprep : ∀ ev ∈ evs.preparation, ev.refused = false) : ¬ Stopped1 (w'.view w.ctxCount) s := by
  rintro ⟨more, rfl, hmore, ev, hin, hrefused⟩
  obtain ⟨cln, -, before, waf, id, hsplit, -, -, hbefore⟩ := ho.events
  have hevs : evs = before ++ .call (.newTransaction waf id) (e.ret (w.trace ++ before) (.newTransaction waf id)) ::
      (.call .cleanupAdd cln :: behind ++ more) := by
    have hview : ((w'.view w.ctxCount).logs more).trace = w.trace ++ (evs₀ ++ more) := by
      rw [← List.append_assoc, ← ho.trace]
      rfl
    rw [List.append_cancel_left (htr.symm.trans hview), hsplit, List.append_assoc]
    rfl
  have hbehind : ∀ x ∈ Event.call .cleanupAdd cln :: behind ++ more, x.handsUri = false := by
    refine List.forall_mem_append.2 ⟨List.forall_mem_cons.2 ⟨rfl, fun x hx => ?_⟩, fun x hx => ?_⟩
    · exact (ho.outside x hx 0).not_handsUri fun _ _ _ => not_false
    · exact (hmore x hx).not_handsUri fun _ _ _ => not_false
  rw [hevs, Trace.preparation_eq waf id _ hbefore hbehind] at hprep
  have hno := hprep ev (List.mem_cons_of_mem _ (List.mem_append_right _ hin))
  exact absurd (hrefused.symm.trans hno) nofun

/-- the rewrite handler, on the context that it has created -/
theorem Timeline.rewritten {w'' : World} (h : Timeline w) (hfresh : FreshHandles e)
    (hc : Created e w (some w.ctxCount) w'') (hcalls : RewriteCalls (w''.view w.ctxCount) s)
    (halive : Alive (w''.put w.ctxCount s)) (hno : .call .cleanupAdd 0 ∉ s.trace) (htr : s.trace = w.trace ++ evs)
    (hclean : CleanStart w.r evs) :
    Timeline { w''.put w.ctxCount s with stage := .phases } := by
  obtain ⟨tx, evs₀, behind, ho⟩ := hc.opened
  obtain ⟨id, hctx⟩ := ho.ctx
  obtain ⟨cln, -, hev⟩ := ho.events
  obtain ⟨h0, hnew, -⟩ := hev.fresh hfresh
  have hctx' : (w''.view w.ctxCount).ctx = { corazaTransaction := tx, transactionId := id } := hctx
  have hwhole : ∀ {more : Trace}, s.trace = (w''.view w.ctxCount).trace ++ more → evs = evs₀ ++ more := by
    intro more hmore
    have hview : (w''.view w.ctxCount).trace = w.trace ++ evs₀ := ho.trace
    rw [hview, List.append_assoc] at hmore
    exact List.append_cancel_left (htr.symm.trans hmore)
  have hprepared : ¬ Stopped1 (w''.view w.ctxCount) s := ho.not_stopped htr hclean.prepared
  obtain ⟨more, hmore, hordered, hbegun⟩ :=
    hcalls.begun (by rw [hctx']) hprepared fun more hmore x sent iv hpoll h200 => by
    have hr : (w''.view w.ctxCount).r = w.r := ho.r
    rw [hr]
    exact hclean.heeded x sent iv (by rw [hwhole hmore]; exact List.mem_append_right _ hpoll) h200
  obtain ⟨more', hmore', hwithin, htx, -⟩ := hcalls.logged (by rw [hctx'])
  obtain rfl : more = more' := List.append_cancel_left (hmore.symm.trans hmore')
  have hempty : w''.trace.calls (w''.handle w.ctxCount) = [] := by
    rw [ho.toOpening.handle_self, ho.calls_eq hfresh]
    exact (h.unused h0 hnew).2
  refine ⟨halive.setStage _, hno, ?_, fun a ha _ => ?_⟩
  · refine ordered_work (fun x => ?_) hmore hwithin ?_
    · rw [ho.calls_eq hfresh]
      exact h.ordered x
    · change Ordered (w''.trace.calls (w''.handle w.ctxCount) ++ _)
      rw [hempty]
      exact hordered
  · have heq : a = w.ctxCount := by
      have hin : some a = some w.ctxCount := ha.symm.trans ho.installed
      exact Option.some.inj hin
    subst heq
    change Begun .phases ((w''.put w.ctxCount s).ctxs w.ctxCount) ((w''.put w.ctxCount s).calls w.ctxCount)
    rw [World.put_self, calls_work hmore htx, World.calls, hempty]
    exact hbegun

/-- a call that makes no call on the transaction of the context installed -/
theorem Timeline.quiet {callback : Callback} {rc : ℤ} (h : Timeline w) (hinst : w.installed = some a)
    (hallowed : callback.Allowed w.stage)
    (hheader : callback = .header → (w.ctxs a).interventionTriggered = true ∨ (w.ctxs a).processed = true)
    (hc : Confined (fun _ => False) (w.view a) s) (halive : Alive (w.put a s)) (htr : s.trace = w.trace ++ evs) :
    Timeline { w.put a s with stage := callback.stage rc evs w.stage } := by
  obtain ⟨evs', htr', hevs⟩ := hc.trace
  obtain rfl : evs' = evs := List.append_cancel_left (htr'.symm.trans htr)
  have hnone : evs'.calls (w.handle a) = [] := by
    rw [List.eq_nil_iff_forall_not_mem]
    exact Trace.forall_calls_of_within hevs
  refine h.work hinst halive htr' hevs hc.tx ?_ fun hne => ?_ <;> rw [hnone]
  · rw [List.append_nil]
    exact h.ordered _
  · have hp := hallowed.stage_ne hne
    have hbegun := h.begun a hinst hp.1
    refine hbegun.next (fun _ hin => absurd hin List.not_mem_nil) hc.processed hc.marked hp.2 fun hs => ?_
    by_cases hcb : callback = .header
    · rcases hheader hcb with hmarked | hproc
      · exact Or.inl hmarked
      · exact (hbegun.answered hproc).imp_right fun ha => ha.resolve_right hp.2
    · exact hbegun.sending (Callback.stage_sending hcb hs)

/-- a call that makes calls on a body, on a context that has not been marked -/
theorem Timeline.stretch {P : EngineCall → Prop} {callback : Callback} {rc : ℤ} (h : Timeline w)
    (hinst : w.installed = some a) (hallowed : callback.Allowed w.stage) (hlog : callback ≠ .log)
    (hheader : callback ≠ .header) (hunmarked : (w.ctxs a).interventionTriggered = false) (hc : Confined P (w.view a) s)
    (halive : Alive (w.put a s)) (htr : s.trace = w.trace ++ evs) (hP : ∀ c, P c → c ≠ .processLogging ∧ ¬ Answered [c])
    (htimely : ∀ pre c, P c → .processLogging ∉ pre → w.calls a ⊆ pre → Timely pre c) :
    Timeline { w.put a s with stage := callback.stage rc evs w.stage } := by
  obtain ⟨evs', htr', hevs⟩ := hc.trace
  obtain rfl : evs' = evs := List.append_cancel_left (htr'.symm.trans htr)
  have hcalls := Trace.forall_calls_of_within hevs
  obtain ⟨-, hunlogged, hbegun, hp⟩ := h.unmarked hinst hallowed hlog hunmarked
  refine h.work hinst halive htr' hevs hc.tx ?_ fun _ => ?_
  · exact Ordered.stretch (h.ordered _) hunlogged hcalls (fun hno => (hP _ hno).1 rfl) htimely
  · exact hbegun.next (fun c hin => hP c (hcalls c hin)) hc.processed hc.marked hp fun hs =>
      hbegun.sending (Callback.stage_sending hheader hs)

/-- the log handler, on a context that has not been logged -/
theorem Timeline.logs {rc ret : ℤ} (h : Timeline w) (hinst : w.installed = some a)
    (hunlogged : (w.ctxs a).logged = false)
    (htr : s.trace = w.trace ++ [.call (.engine (w.handle a) .processLogging) ret])
    (htx : s.ctx.corazaTransaction = w.handle a) (halive : Alive (w.put a s)) :
    Timeline { w.put a s with
      stage := Callback.log.stage rc [.call (.engine (w.handle a) .processLogging) ret] w.stage } := by
  have hcount := h.toLedger.logged a (h.registered a hinst)
  rw [hunlogged, if_neg (by decide)] at hcount
  have hown : Trace.calls (w.handle a) [.call (.engine (w.handle a) .processLogging) ret] = [.processLogging] := by
    simp [Trace.calls]
  refine h.work (P := (· = .processLogging)) hinst halive htr ?_ htx ?_ fun hne => absurd rfl hne
  · intro ev hev
    rw [List.mem_singleton.1 hev]
    exact ⟨rfl, rfl⟩
  · rw [hown]
    exact (h.ordered _).concat (List.count_eq_zero.1 hcount)

/-- a rewrite handler that could not create a context, and installed none -/
theorem Timeline.denied (h : Timeline w) (hc : Created e w none w') (hinst : w'.installed = none) (halive : Alive w')
    (hno : .call .cleanupAdd 0 ∉ w'.trace) : Timeline { w' with stage := .phases } := by
  have hcalls : ∀ x, w'.trace.calls x = w.trace.calls x := by
    cases hc with
    | refused evs' hevs =>
      intro x
      have hnone : evs'.calls x = [] := by
        refine List.eq_nil_iff_forall_not_mem.2 fun c hin => ?_
        obtain ⟨rc, hin⟩ := Trace.mem_calls.1 hin
        rcases hevs _ hin with hout | ⟨_, _, _, heq, -⟩
        · exact hout.not_uses rfl
        · cases heq
      change Trace.calls x (w.trace ++ evs') = _
      rw [Trace.calls_append, hnone, List.append_nil]
    | abandoned tx evs' rc w' ho => exact absurd (ho.installed.symm.trans hinst) (by simp)
    | unkept tx evs' behind w' ho => exact absurd (ho.installed.symm.trans hinst) (by simp)
  refine ⟨halive.setStage _, hno, fun x => ?_, fun a ha => absurd (hinst.symm.trans ha) (by simp)⟩
  change Ordered (w'.trace.calls x)
  rw [hcalls]
  exact h.ordered x

/-- **One call.** A call that nginx may make, and that starts a context well if it starts one, keeps the order. -/
theorem Turn.timeline {callback : Callback} {rc : ℤ} (ht : Turn e w callback rc w') (h : Timeline w)
    (hfresh : FreshHandles e) (hallowed : callback.Allowed w.stage) (htr : w'.trace = w.trace ++ evs)
    (hclean : callback = .rewrite → CleanStart w.r evs) :
    Timeline { w' with stage := callback.stage rc evs w.stage } := by
  have hno : .call .cleanupAdd 0 ∉ w'.trace := by
    rw [htr]
    intro hin
    rcases List.mem_append.1 hin with hin | hin
    · exact h.unrefused hin
    · obtain ⟨hrewrite, hprep⟩ := ht.refused htr hin
      exact absurd ((hclean hrewrite).prepared _ hprep) (by decide)
  have halive := ht.alive h.toAlive hfresh hno
  have same : ∀ {evs' : Trace}, w'.trace = w.trace ++ evs' → evs' = evs := fun htr' =>
    List.append_cancel_left (htr'.symm.trans htr)
  cases ht with
  | idle callback rc s evs' hbare htr' hout =>
    refine h.beside halive rfl rfl hno (fun x => ?_) hallowed hbare
    change s.trace.calls x = _
    rw [htr', Trace.calls_append, Trace.calls_of_outside hout, List.append_nil]
  | quiet callback rc a s hinst hheader hc => exact h.quiet hinst hallowed hheader hc halive htr
  | preAccess rc a s hinst hunmarked hc =>
    have hphase := (h.unmarked hinst hallowed (by simp) hunmarked).1
    refine h.stretch hinst hallowed (by simp) (by simp) hunmarked hc halive htr (fun c hc => ⟨?_, ?_⟩) ?_
    · rintro rfl
      exact hc.elim
    · rintro ⟨status, version, hin⟩
      rw [← List.mem_singleton.1 hin] at hc
      exact hc.elim
    · exact fun pre c hc hpre hsub => Timely.onRequestBody hc hpre (hsub hphase)
  | body inn rc a s hinst hunmarked hc =>
    -- nginx sends a body behind its headers
    have hsending : w.stage = .sending := hallowed
    have hbegun := (h.unmarked hinst hallowed (by simp) hunmarked).2.2.1
    have hanswered := (hbegun.sending hsending).resolve_left (by simp [hunmarked])
    refine h.stretch hinst hallowed (by simp) (by simp) hunmarked hc halive htr (fun c hc => ⟨?_, ?_⟩) ?_
    · rintro rfl
      exact hc.elim
    · rintro ⟨status, version, hin⟩
      rw [← List.mem_singleton.1 hin] at hc
      exact hc.elim
    · exact fun pre c hc hpre hsub => Timely.onResponseBody hc hpre (hanswered.mono hsub)
  | header rc a s hinst hunmarked hunprocessed hc => exact h.headers hinst hallowed hunmarked hunprocessed hc halive htr
  | log rc a hinst hunlogged ret =>
    obtain rfl := same rfl
    exact h.logs hinst hunlogged rfl rfl halive
  | denied w' hinst hc => exact h.denied hc (hc.refuses htr (hclean rfl).prepared hinst) halive hno
  | rewrite rc w'' s hinst hc hcalls => exact h.rewritten hfresh hc hcalls halive hno htr (hclean rfl)

/-! ## Every run -/

theorem Timeline.next {step : Step} (h : Timeline w) (hfresh : step.GivesFresh) (hallowed : step.Allowed w)
    (hclean : step.CleanStart w) : Timeline (w.next step) := by
  cases step with
  | clearCtx =>
    have hledger : Ledger (w.next .clearCtx) := h.toLedger.next trivial
    -- a cleared context is not installed
    have hnone : ∀ a, (w.next .clearCtx).installed ≠ some a := fun a ha => by cases ha
    exact ⟨⟨hledger, fun a ha => absurd ha (hnone a), h.live⟩, h.unrefused, h.ordered, fun a ha => absurd ha (hnone a)⟩
  | call callback e r =>
    have hr : Timeline (w.setR r) :=
      ⟨⟨⟨h.installed, h.cleanups, h.nodup, h.zeroed, h.given, h.distinct, h.known, h.logged,
      h.unfreed⟩, h.registered, h.live⟩, h.unrefused, h.ordered, h.begun⟩
    have ht := turn_spec callback e (w.setR r)
    obtain ⟨evs, htr⟩ := ht.extends
    have hevents : w.events callback e r = evs := by
      rw [World.events, htr]
      exact List.drop_left
    have hnext := ht.timeline hr hfresh hallowed htr fun heq => by
      subst heq
      have hstart : CorazaNginx.CleanStart r (w.events .rewrite e r) := hclean
      rwa [hevents] at hstart
    rw [← hevents] at hnext
    exact hnext

theorem Timeline.run {steps : List Step} (h : Timeline w) (hfresh : ∀ step ∈ steps, step.GivesFresh)
    (hallowed : w.Along (fun w step => step.Allowed w) steps)
    (hclean : w.Along (fun w step => step.CleanStart w) steps) :
    Timeline (w.run steps) := by
  induction steps generalizing w with
  | nil => exact h
  | cons step steps ih =>
    obtain ⟨hstep, hsteps⟩ := List.forall_mem_cons.1 hfresh
    exact ih (h.next hstep hallowed.1 hclean.1) hsteps hallowed.2 hclean.2

/-- the cleanups come at their time -/
theorem Timeline.destroyed (h : Timeline w) (e : Env) (x : ℕ) : Ordered ((w.destroyed e).trace.calls x) := by
  obtain ⟨-, evs, htr, hclosed⟩ := destroyed_closed h.nodup e
  rw [htr, Trace.calls_append]
  by_cases hx : ∃ a ∈ w.cleanups, w.handle a = x
  · obtain ⟨a, ha, rfl⟩ := hx
    rw [hclosed.calls_own h.nodup h.distinct ha, Ctx.closing]
    have hcount := h.toLedger.logged a ha
    have hord := h.ordered (w.handle a)
    cases hlogged : (w.ctxs a).logged with
    | true => exact hord.concat (c := .freeTransaction) trivial
    | false =>
      rw [hlogged, if_neg (by decide)] at hcount
      have hlog :=
        (hord.concat (c := .processLogging) (List.count_eq_zero.1 hcount)).concat (c := .freeTransaction) trivial
      rw [List.append_assoc] at hlog
      exact hlog
  · push Not at hx
    rw [hclosed.calls_other hx, List.append_nil]
    exact h.ordered x

/-- **The order of the phases.** In every run that nginx may make of the handlers, in which the rewrite handler is
refused nothing between a transaction's creation and its URI and no interruption of phase 1 is passed over, the calls on
every transaction are in order, in every state and up to the end of the request. -/
theorem phases_in_order (r : Request) (mainWaf : ℕ) (steps : List Step) (hfresh : ∀ step ∈ steps, step.GivesFresh)
    (hallowed : (World.start r mainWaf).Along (fun w step => step.Allowed w) steps)
    (hclean : (World.start r mainWaf).Along (fun w step => step.CleanStart w) steps) (x : ℕ) :
    Ordered (((World.start r mainWaf).run steps).trace.calls x) ∧
      ∀ e, Ordered ((((World.start r mainWaf).run steps).destroyed e).trace.calls x) :=
  have h := (Timeline.start r mainWaf).run hfresh hallowed hclean
  ⟨h.ordered x, fun e => h.destroyed e x⟩

/-- the same environment, with a request body at hand and both bodies wanted -/
def Env.inspecting : Env :=
  { Env.counting with
    requestBody := fun _ => some { bufs := [{ last := 1, memory := true, lastBuf := true }] }
    ret := fun t call => match call with
      | .engine _ .isRequestBodyAccessible => 1
      | .engine _ .isResponseBodyProcessable => 1
      | call => Env.counting.ret t call }

/-- a request with a body that is answered with one in two calls, and logged in the LOG phase -/
def served : List Step :=
  [.call .rewrite .counting {}, .call .preAccess .inspecting {}, .call .header .inspecting {},
    .call (.body [{ last := 1, memory := true }]) .inspecting {},
    .call (.body [{ last := 2, memory := true, lastBuf := true }]) .inspecting {}, .call .log .counting {}]

theorem phases_in_order_served :
    Ordered ((((World.start {} 7).run served).destroyed .counting).trace.calls 1) ∧
      (∀ c ∈ [.processRequestHeaders, .processRequestBody, .processResponseBody, .processLogging, .freeTransaction],
        c ∈ (((World.start {} 7).run served).destroyed .counting).trace.calls 1) := by
  have hfresh : ∀ step ∈ served, step.GivesFresh := by
    have hinspecting : FreshHandles Env.inspecting := Env.counting_fresh
    simp only [served, List.forall_mem_cons, List.not_mem_nil, false_imp_iff, implies_true, and_true]
    exact ⟨Env.counting_fresh, hinspecting, hinspecting, hinspecting, hinspecting, Env.counting_fresh⟩
  have hallowed : (World.start {} 7).Along (fun w step => step.Allowed w) served := by
    refine ⟨Or.inl rfl, Or.inl ?_, Or.inl ?_, ?_, ?_, trivial, trivial⟩
    · decide +kernel
    · decide +kernel
    · change _ = ResponseStage.sending
      decide +kernel
    · change _ = ResponseStage.sending
      decide +kernel
  have hclean : (World.start {} 7).Along (fun w step => step.CleanStart w) served := by
    have hquiet : ((World.start {} 7).events .rewrite .counting {}).all
        (fun ev => !ev.isPoll && !ev.refused) = true := by decide +kernel
    rw [List.all_eq_true] at hquiet
    refine ⟨⟨fun ev hev => ?_, fun tx sent iv hpoll => ?_⟩, trivial, trivial, trivial, trivial, trivial, trivial⟩
    swap
    · have hnot := hquiet _ hpoll
      simp [Event.isPoll] at hnot
    have hin : ev ∈ (World.start {} 7).events .rewrite .counting {} :=
      (List.dropWhile_sublist _).subset ((List.takeWhile_sublist _).subset hev)
    have hok := hquiet ev hin
    cases ev with
    | poll => rfl
    | call c rc => simpa [Event.isPoll] using hok
  exact ⟨(phases_in_order {} 7 served hfresh hallowed hclean 1).2 .counting, by decide +kernel⟩

/-- the pool has no room for a copy of the URI -/
def Env.uriRefused : Env :=
  { Env.counting with
    ret := fun t call => match call with
      | .alloc 2 => 0
      | call => Env.counting.ret t call }

/-- the rewrite handler gives up on the request, and the header filter works for the error response -/
def unasked : List Step :=
  [.call .rewrite .uriRefused { unparsedUri := [47] }, .call .header .counting { unparsedUri := [47] }]

/-- response headers are evaluated on a transaction whose request headers have not been -/
theorem not_always_in_order : ¬ ∀ (r : Request) (mainWaf : ℕ) (steps : List Step), (∀ step ∈ steps, step.GivesFresh) →
    (World.start r mainWaf).Along (fun w step => step.Allowed w) steps →
    ∀ x, Ordered (((World.start r mainWaf).run steps).trace.calls x) := by
  intro h
  have hordered := h {} 7 unasked (by
    simp only [unasked, List.forall_mem_cons, List.not_mem_nil, false_imp_iff, implies_true, and_true]
    exact ⟨Env.counting_fresh, Env.counting_fresh⟩) ⟨Or.inl rfl, Or.inl (by decide +kernel), trivial⟩ 1
  have hanswered : Answered (((World.start {} 7).run unasked).trace.calls 1) :=
    ⟨0, ascii "HTTP/1.1", by decide +kernel⟩
  have hnot : .processRequestHeaders ∉ ((World.start {} 7).run unasked).trace.calls 1 := by decide +kernel
  exact hnot (hordered.begun hanswered)

end CorazaNginx
