/-
Which engine calls a handler makes, and on which transaction.

`Keeps P m`: a block `m` of a handler works on its context's own transaction only, makes only the engine calls in `P`,
neither creates a transaction nor registers a cleanup, and leaves alone the fields of the context that coordinate the
handlers (`Confined`). It is a guarantee, hence closed under all statement formers, and one lemma for each function
follows. The pre-access handler and the body filter keep to it as a whole; the header filter is followed up to phase 3
here, and the rewrite handler, which may log, in `Lifecycle.Phases`.
-/
import Mathlib.Tactic
import CorazaNginx.Model.Lifecycle

namespace CorazaNginx

open CorazaNginx.Core Prog Handler

variable {ρ α β : Type} {e : Env} {s t : St} {P P' : EngineCall → Prop}

/-! ## Calls on a transaction -/

/-- the engine calls on a transaction -/
def Trace.calls (tx : ℕ) (t : Trace) : List EngineCall := t.filterMap fun
  | .call (.engine tx' c) _ => if tx' = tx then some c else none
  | _ => none

@[simp] theorem Trace.calls_nil (tx : ℕ) : Trace.calls tx [] = [] := rfl

@[simp] theorem Trace.calls_append (tx : ℕ) (a b : Trace) : Trace.calls tx (a ++ b) = a.calls tx ++ b.calls tx :=
  List.filterMap_append

theorem Trace.mem_calls {tx : ℕ} {c : EngineCall} {t : Trace} :
    c ∈ t.calls tx ↔ ∃ rc, .call (.engine tx c) rc ∈ t := by
  rw [Trace.calls, List.mem_filterMap]
  constructor
  · rintro ⟨ev, hev, h⟩
    cases ev with
    | poll => cases h
    | call c' rc =>
      cases c' with
      | engine tx' c'' =>
        simp only [Option.ite_none_right_eq_some, Option.some.injEq] at h
        obtain ⟨rfl, rfl⟩ := h
        exact ⟨rc, hev⟩
      | _ => cases h
  · rintro ⟨rc, h⟩
    exact ⟨_, h, if_pos rfl⟩

/-- an event of a handler that works on the transaction `tx` and makes only the calls in `P` on it -/
def Event.Within (tx : ℕ) (P : EngineCall → Prop) : Event → Prop
  | .call (.engine tx' c) _ => tx' = tx ∧ P c
  | .call (.newTransaction ..) _ => False
  | .call .cleanupAdd _ => False
  | .call _ _ => True
  | .poll tx' _ _ => tx' = tx

theorem Event.Within.mono {tx : ℕ} {ev : Event} (h : ev.Within tx P) (hP : ∀ c, P c → P' c) : ev.Within tx P' := by
  cases ev with
  | poll => exact h
  | call c rc =>
    cases c with
    | engine tx' c => exact ⟨h.1, hP c h.2⟩
    | newTransaction => exact h
    | cleanupAdd => exact h
    | _ => trivial

/-- a stretch on one transaction is nothing to another -/
theorem Trace.calls_of_within {tx tx' : ℕ} {evs : Trace} (h : ∀ ev ∈ evs, ev.Within tx P) (hne : tx' ≠ tx) :
    evs.calls tx' = [] := by
  rw [List.eq_nil_iff_forall_not_mem]
  intro c hc
  obtain ⟨rc, hin⟩ := Trace.mem_calls.1 hc
  exact hne (h _ hin).1

theorem Trace.forall_calls_of_within {tx : ℕ} {evs : Trace} (h : ∀ ev ∈ evs, ev.Within tx P) :
    ∀ c ∈ evs.calls tx, P c := by
  intro c hc
  obtain ⟨rc, hin⟩ := Trace.mem_calls.1 hc
  exact (h _ hin).2

/-! ## Blocks of handlers -/

/-- only calls in `P`, on the context's own transaction, and nothing that coordinates the handlers has changed -/
structure Confined (P : EngineCall → Prop) (s t : St) : Prop where
  trace : ∃ evs : Trace, t.trace = s.trace ++ evs ∧ ∀ ev ∈ evs, ev.Within s.ctx.corazaTransaction P
  tx : t.ctx.corazaTransaction = s.ctx.corazaTransaction
  logged : t.ctx.logged = s.ctx.logged
  processed : t.ctx.processed = s.ctx.processed
  processable : t.ctx.responseBodyProcessable = s.ctx.responseBodyProcessable
  marked : s.ctx.interventionTriggered = true → t.ctx.interventionTriggered = true

namespace Confined

theorem of_trace (htr : t.trace = s.trace) (htx : t.ctx.corazaTransaction = s.ctx.corazaTransaction)
    (hlog : t.ctx.logged = s.ctx.logged) (hproc : t.ctx.processed = s.ctx.processed)
    (hbody : t.ctx.responseBodyProcessable = s.ctx.responseBodyProcessable)
    (hmarked : s.ctx.interventionTriggered = true → t.ctx.interventionTriggered = true) : Confined P s t :=
  ⟨⟨[], by rw [htr, List.append_nil], fun _ h => absurd h List.not_mem_nil⟩, htx, hlog, hproc, hbody, hmarked⟩

theorem refl (s : St) : Confined P s s := of_trace rfl rfl rfl rfl rfl id

theorem trans (s t u : St) (h : Confined P s t) (h' : Confined P t u) : Confined P s u := by
  obtain ⟨evs, htr, hevs⟩ := h.trace
  obtain ⟨evs', htr', hevs'⟩ := h'.trace
  rw [h.tx] at hevs'
  refine ⟨⟨evs ++ evs', ?_, List.forall_mem_append.2 ⟨hevs, hevs'⟩⟩, h'.tx.trans h.tx, h'.logged.trans h.logged,
    h'.processed.trans h.processed, h'.processable.trans h.processable, fun hm => h'.marked (h.marked hm)⟩
  rw [htr', htr, List.append_assoc]

theorem log {ev : Event} (h : ev.Within s.ctx.corazaTransaction P) : Confined P s (s.log ev) :=
  ⟨⟨[ev], rfl, fun x hx => by rwa [List.mem_singleton.1 hx]⟩, rfl, rfl, rfl, rfl, id⟩

end Confined

/-- a block that keeps to the calls in `P` -/
def Keeps (P : EngineCall → Prop) (m : Handler ρ α) : Prop := Guar (Confined P) m

namespace Keeps

theorem pure (a : α) : Keeps P (pure a : Handler ρ α) := Guar.pure Confined.refl a

theorem exit (r : ρ) : Keeps P (exit r : Handler ρ α) := Guar.exit Confined.refl r

theorem get : Keeps P (get : Handler ρ St) := Guar.get Confined.refl

theorem ask : Keeps P (ask : Handler ρ Env) := Guar.ask Confined.refl

theorem bind {m : Handler ρ α} {f : α → Handler ρ β} (hm : Keeps P m) (hf : ∀ a, Keeps P (f a)) : Keeps P (m >>= f) :=
  Guar.bind Confined.trans hm hf

theorem ite {c : Prop} [Decidable c] {m n : Handler ρ α} (hm : Keeps P m) (hn : Keeps P n) :
    Keeps P (if c then m else n) := Guar.ite hm hn

theorem when {c : Prop} [Decidable c] {m : Handler ρ Unit} (hm : Keeps P m) : Keeps P (when c m) :=
  Guar.when Confined.refl hm

theorem call {m : Handler α α} (hm : Keeps P m) : Keeps P (call m : Handler ρ α) := Guar.call hm

/-- an assignment to a field that does not coordinate the handlers -/
theorem modify {f : St → St} (h : ∀ s : St, Confined P s (f s)) : Keeps P (modify f : Handler ρ Unit) := Guar.modify h

/-- a call to nginx -/
theorem invoke {c : Call} (h : ∀ tx rc, Event.Within tx P (.call c rc)) : Keeps P (Handler.invoke c : Handler ρ ℤ) :=
  fun _ _ => Confined.log (h _ _)

/-- a call to the engine -/
theorem engine {c : EngineCall} (h : P c) : Keeps P (Handler.engine c : Handler ρ ℤ) := fun _ _ => Confined.log ⟨rfl, h⟩

theorem alloc (n : ℕ) : Keeps P (Handler.alloc n : Handler ρ Bool) := fun _ _ => Confined.log trivial

theorem readFile (n : ℕ) (o : ℤ) : Keeps P (Handler.readFile n o : Handler ρ (ReadResult n)) := fun _ _ =>
  Confined.log trivial

theorem trigger : Keeps P (Handler.trigger : Handler ρ Unit) :=
  modify fun _ => Confined.of_trace rfl rfl rfl rfl rfl fun _ => rfl

theorem pollEngine : Keeps P (CorazaNginx.pollEngine : Handler ρ (Option Intervention)) := fun _ _ => Confined.log rfl

/-- give up behind a trigger -/
theorem fail (rc : ℤ) : Keeps P (do Handler.trigger; Prog.exit rc : Handler ℤ Unit) := bind trigger fun _ => exit rc

/-- return what another function returned -/
theorem exitWith {m : Handler ℤ ℤ} (hm : Keeps P m) : Keeps P (m >>= fun rc => Prog.exit rc : Handler ℤ α) :=
  bind hm fun _ => exit _

end Keeps

/-! ## Polls -/

theorem installRedirect_keeps (iv : Intervention) : Keeps P (installRedirect iv : Handler ρ Unit) := by
  unfold installRedirect
  cases redirectTarget iv with
  | none => exact Keeps.pure ()
  | some data =>
    refine Keeps.bind (Keeps.alloc 1) fun pushed => Keeps.when (Keeps.bind Keeps.get fun s => ?_)
    refine Keeps.bind (Keeps.modify fun _ => Confined.of_trace rfl rfl rfl rfl rfl id) fun _ => ?_
    refine Keeps.bind (Keeps.alloc _) fun copied =>
      Keeps.when (Keeps.modify fun _ => Confined.of_trace rfl rfl rfl rfl rfl id)

/-- acting on an interruption without logging -/
theorem enforceIntervention_keeps (hP : ∀ status, P (.updateStatusCode status)) (iv : Intervention) :
    Keeps P (enforceIntervention false iv) := by
  refine Keeps.bind (Keeps.engine (hP _)) fun _ => ?_
  refine Keeps.bind (fun _ s => Confined.refl s) fun _ => Keeps.bind Keeps.get fun s => ?_
  refine Keeps.bind (Keeps.when (Keeps.exit _)) fun _ => ?_
  exact Keeps.bind (installRedirect_keeps iv) fun _ => Keeps.pure _

theorem processIntervention_keeps (hP : ∀ status, P (.updateStatusCode status)) :
    Keeps P (processIntervention false : Handler ρ ℤ) := by
  refine Keeps.call (Keeps.bind Keeps.pollEngine fun iv => ?_)
  cases iv with
  | none => exact Keeps.pure _
  | some iv => exact Keeps.ite (Keeps.pure _) (enforceIntervention_keeps hP iv)

theorem pollAfterProcess_keeps (hP : ∀ status, P (.updateStatusCode status)) (pret : ℤ) :
    Keeps P (pollAfterProcess false pret : Handler ρ ℤ) := by
  refine Keeps.call (Keeps.bind (Keeps.when (Keeps.exit _)) fun _ => ?_)
  exact Keeps.bind (Keeps.when (Keeps.exit _)) fun _ => processIntervention_keeps hP

theorem afterPhasePoll_keeps (ret : ℤ) : Keeps P (afterPhasePoll ret) := by
  refine Keeps.bind Keeps.get fun s => Keeps.bind (Keeps.when (Keeps.exit _)) fun _ => ?_
  exact Keeps.bind (Keeps.when (Keeps.fail _)) fun _ => Keeps.when (Keeps.fail _)

/-! ## Pre-access -/

/-- the calls of the pre-access handler -/
def EngineCall.OnRequestBody : EngineCall → Prop
  | .isRequestBodyAccessible | .appendRequestBody .. | .processRequestBody | .updateStatusCode _ => True
  | _ => False

section
variable {ρ : Type}

theorem processIntervention_onRequestBody :
    Keeps EngineCall.OnRequestBody (processIntervention false : Handler ρ ℤ) :=
  processIntervention_keeps fun _ => trivial

theorem pollBefore_keeps (f : TempFile) (o : ℤ) :
    Keeps EngineCall.OnRequestBody (pollBefore f o : Handler ρ (Option ℤ)) := by
  refine Keeps.ite (Keeps.call (Keeps.bind processIntervention_onRequestBody fun ret => ?_)) (Keeps.pure _)
  refine Keeps.bind Keeps.get fun s => Keeps.bind (Keeps.when (Keeps.exit _)) fun _ => ?_
  refine Keeps.bind (Keeps.when (Keeps.exit _)) fun _ => ?_
  exact Keeps.bind (Keeps.when (Keeps.bind Keeps.trigger fun _ => Keeps.exit _)) fun _ => Keeps.pure _

/-- the loop over a file: by induction on what is left of it -/
theorem requestFileLoop_keeps (f : TempFile) (o : ℤ) :
    Keeps EngineCall.OnRequestBody (requestFileLoop f o : Handler ρ ℤ) := by
  induction hn : (f.offset - o).toNat using Nat.strong_induction_on generalizing o with
  | _ n ih =>
    rw [requestFileLoop]
    split_ifs with hlt
    · refine Keeps.bind (Keeps.readFile _ o) fun res => ?_
      cases res with
      | error => exact Keeps.pure _
      | bytes k le =>
        dsimp only
        split_ifs with hk
        · exact Keeps.pure _
        · refine Keeps.bind Keeps.ask fun e => Keeps.bind (Keeps.engine trivial) fun ret => ?_
          refine Keeps.ite (Keeps.pure _) (Keeps.bind (pollBefore_keeps f _) fun left => ?_)
          cases left with
          | some rc => exact Keeps.pure rc
          | none => exact ih _ (by omega) _ rfl
    · exact Keeps.pure _

theorem appendRequestBodyFile_keeps (f : TempFile) :
    Keeps EngineCall.OnRequestBody (appendRequestBodyFile f : Handler ρ ℤ) := by
  refine Keeps.call (Keeps.bind (Keeps.when (Keeps.exit _)) fun _ => ?_)
  refine Keeps.bind (Keeps.when (Keeps.fail _)) fun _ => ?_
  refine Keeps.bind (Keeps.invoke fun _ _ => trivial) fun opened => Keeps.bind (Keeps.when (Keeps.fail _)) fun _ => ?_
  refine Keeps.bind (requestFileLoop_keeps f 0) fun rc => Keeps.bind (Keeps.invoke fun _ _ => trivial) fun _ => ?_
  exact Keeps.bind (Keeps.when Keeps.trigger) fun _ => Keeps.pure _

theorem appendChain_keeps (l : List Buf) : Keeps EngineCall.OnRequestBody (appendChain l) := by
  induction l with
  | nil => exact Keeps.pure ()
  | cons b l ih =>
    refine Keeps.bind Keeps.ask fun e => Keeps.bind (Keeps.when (Keeps.fail _)) fun _ => ?_
    refine Keeps.bind (Keeps.when (Keeps.bind (Keeps.engine trivial) fun ret => Keeps.when (Keeps.fail _))) fun _ => ?_
    refine Keeps.ite (Keeps.pure ()) (Keeps.bind processIntervention_onRequestBody fun ret => ?_)
    exact Keeps.bind (afterPhasePoll_keeps ret) fun _ => ih

theorem appendBody_keeps (rb : RequestBody) : Keeps EngineCall.OnRequestBody (appendBody rb) := by
  unfold appendBody
  cases rb.tempFile with
  | some f => exact Keeps.bind (appendRequestBodyFile_keeps f) fun rc => Keeps.when (Keeps.exit _)
  | none => exact appendChain_keeps rb.bufs

theorem processRequestBodyPhase_keeps : Keeps EngineCall.OnRequestBody (processRequestBodyPhase : Handler ρ ℤ) := by
  refine Keeps.call (Keeps.bind (Keeps.engine trivial) fun pret => ?_)
  refine Keeps.bind (Keeps.when (Keeps.fail _)) fun _ => ?_
  refine Keeps.bind (pollAfterProcess_keeps (fun _ => trivial) pret) fun ret => ?_
  exact Keeps.bind (afterPhasePoll_keeps ret) fun _ => Keeps.pure _

theorem submitRequestBody_keeps : Keeps EngineCall.OnRequestBody submitRequestBody := by
  refine Keeps.bind Keeps.get fun s => ?_
  cases s.r.requestBody with
  | none => exact Keeps.exit _
  | some rb =>
    refine Keeps.bind (Keeps.modify fun _ => Confined.of_trace rfl rfl rfl rfl rfl id) fun _ => ?_
    refine Keeps.bind (appendBody_keeps rb) fun _ => Keeps.bind processIntervention_onRequestBody fun ret => ?_
    exact Keeps.bind (afterPhasePoll_keeps ret) fun _ => Keeps.exitWith processRequestBodyPhase_keeps

theorem requestRead_keeps : Keeps P (requestRead : Handler ρ Unit) := by
  refine Keeps.bind (Keeps.modify fun _ => Confined.of_trace rfl rfl rfl rfl rfl id) fun _ =>
    Keeps.bind Keeps.get fun s => ?_
  refine Keeps.when (Keeps.bind (Keeps.modify fun _ => Confined.of_trace rfl rfl rfl rfl rfl id) fun _ => ?_)
  exact Keeps.bind (Keeps.invoke fun _ _ => trivial) fun _ => Keeps.pure _

theorem readClientRequestBody_keeps : Keeps P (readClientRequestBody : Handler ρ ℤ) := by
  refine Keeps.bind Keeps.ask fun e => Keeps.bind (Keeps.invoke fun _ _ => trivial) fun rc => ?_
  refine Keeps.bind (Keeps.modify fun _ => Confined.of_trace rfl rfl rfl rfl rfl id) fun _ => ?_
  exact Keeps.bind (Keeps.when requestRead_keeps) fun _ => Keeps.pure _

theorem requestBodyAccess_keeps : Keeps EngineCall.OnRequestBody requestBodyAccess := by
  refine Keeps.bind (Keeps.engine trivial) fun accessible => ?_
  refine Keeps.bind (Keeps.when (Keeps.exitWith processRequestBodyPhase_keeps)) fun _ => ?_
  refine Keeps.bind (Keeps.modify fun _ => Confined.of_trace rfl rfl rfl rfl rfl id) fun _ => ?_
  refine Keeps.bind readClientRequestBody_keeps fun rc => Keeps.bind (Keeps.when (Keeps.exit _)) fun _ => ?_
  refine Keeps.when (Keeps.bind (Keeps.modify fun _ => Confined.of_trace rfl rfl rfl rfl rfl id) fun _ => Keeps.exit _)

/-- **The pre-access handler.** -/
theorem preAccessHandler_keeps : Keeps EngineCall.OnRequestBody (preAccessHandler : Handler ρ ℤ) := by
  refine Keeps.call (Keeps.bind Keeps.get fun s => ?_)
  refine Keeps.bind (Keeps.when (Keeps.exit _)) fun _ => Keeps.bind (Keeps.when (Keeps.exit _)) fun _ => ?_
  refine Keeps.bind (Keeps.when (Keeps.exit _)) fun _ => ?_
  refine Keeps.bind (Keeps.when requestBodyAccess_keeps) fun _ => Keeps.bind Keeps.get fun s' => ?_
  exact Keeps.bind (Keeps.when submitRequestBody_keeps) fun _ => Keeps.pure _

/-! ## The body filter -/

/-- the calls of the body filter; it appends only while the body is to be inspected -/
def EngineCall.OnResponseBody (processable : Bool) : EngineCall → Prop
  | .appendResponseBody .. => processable = true
  | .processResponseBody | .updateStatusCode _ => True
  | _ => False

theorem nextHeaderFilter_keeps : Keeps P (nextHeaderFilter : Handler ρ ℤ) := by
  refine Keeps.bind Keeps.ask fun e => Keeps.bind Keeps.get fun s => ?_
  refine Keeps.bind (Keeps.invoke fun _ _ => trivial) fun rc => ?_
  exact Keeps.bind (Keeps.modify fun _ => Confined.of_trace rfl rfl rfl rfl rfl id) fun _ => Keeps.pure _

theorem nextBodyFilter_keeps (out : List Link) : Keeps P (nextBodyFilter out : Handler ρ ℤ) :=
  Keeps.bind Keeps.ask fun _ => Keeps.bind Keeps.get fun _ => Keeps.invoke fun _ _ => trivial

theorem filterFinalizeRequest_keeps (status : ℤ) : Keeps P (filterFinalizeRequest status : Handler ρ ℤ) := by
  refine Keeps.bind Keeps.ask fun e => Keeps.bind (Keeps.invoke fun _ _ => trivial) fun rc => ?_
  exact Keeps.bind (Keeps.modify fun _ => Confined.of_trace rfl rfl rfl rfl rfl id) fun _ => Keeps.pure _

theorem bodyFilterFinalize_keeps (status : ℤ) : Keeps P (bodyFilterFinalize status : Handler ρ ℤ) := by
  refine Keeps.call (Keeps.bind Keeps.get fun s => ?_)
  refine Keeps.bind (Keeps.when (Keeps.modify fun _ => Confined.of_trace rfl rfl rfl rfl rfl id)) fun _ => ?_
  refine Keeps.bind (Keeps.when ?_) fun _ => filterFinalizeRequest_keeps status
  refine Keeps.bind (Keeps.modify fun _ => Confined.of_trace rfl rfl rfl rfl rfl id) fun _ => ?_
  refine Keeps.bind (Keeps.modify fun _ => Confined.of_trace rfl rfl rfl rfl rfl id) fun _ => ?_
  exact Keeps.exitWith nextHeaderFilter_keeps

theorem bodyFilterInternalError_keeps : Keeps P (bodyFilterInternalError : Handler ρ ℤ) :=
  Keeps.call (Keeps.bind Keeps.trigger fun _ => bodyFilterFinalize_keeps _)

theorem block_keeps (status : ℤ) : Keeps P (block status) :=
  Keeps.bind Keeps.trigger fun _ => Keeps.exitWith (bodyFilterFinalize_keeps status)

theorem afterPoll_keeps (ret : ℤ) : Keeps P (afterPoll ret) := by
  refine Keeps.bind Keeps.get fun s => Keeps.bind (Keeps.when (Keeps.exitWith (nextBodyFilter_keeps _))) fun _ => ?_
  exact Keeps.bind (Keeps.when (block_keeps ret)) fun _ => Keeps.when (block_keeps _)

/-- the read loop: by induction on what is left to read -/
theorem readRange_keeps (b : Buf) (f : File) (n : ℕ) (o : ℤ) (data : Bytes) :
    Keeps P (readRange b f n o data : Handler ρ (Option Bytes)) := by
  induction n using Nat.strong_induction_on generalizing o data with
  | _ n ih =>
    rw [readRange]
    split_ifs with h0
    · exact Keeps.pure _
    · refine Keeps.bind (Keeps.readFile n o) fun res => ?_
      cases res with
      | error => exact Keeps.pure _
      | bytes k le =>
        dsimp only
        split_ifs with hk
        · exact Keeps.pure _
        · exact Keeps.bind Keeps.ask fun e => ih _ (by omega) _ _

theorem readBodyData_keeps (b : Buf) : Keeps P (readBodyData b : Handler ρ (Option Bytes)) := by
  refine Keeps.call (Keeps.bind (Keeps.when (Keeps.bind Keeps.ask fun e => Keeps.exit _)) fun _ => ?_)
  cases b.fileBacked with
  | none => exact Keeps.pure _
  | some f =>
    refine Keeps.bind (Keeps.when (Keeps.exit _)) fun _ => Keeps.bind (Keeps.alloc _) fun ok => ?_
    exact Keeps.bind (Keeps.when (Keeps.exit _)) fun _ => readRange_keeps b f _ _ _

/-- the loop over a file: by induction on what is left of it -/
theorem appendFileLoop_keeps (b : Buf) (f : File) (o : ℤ) :
    Keeps (EngineCall.OnResponseBody true) (appendFileLoop b f o : Handler ρ ℤ) := by
  induction hn : (b.fileLast - o).toNat using Nat.strong_induction_on generalizing o with
  | _ n ih =>
    rw [appendFileLoop]
    split_ifs with hlt
    · refine Keeps.bind (Keeps.readFile _ o) fun res => ?_
      cases res with
      | error => exact Keeps.pure _
      | bytes k le =>
        dsimp only
        split_ifs with hk
        · exact Keeps.pure _
        · refine Keeps.bind Keeps.ask fun e => Keeps.bind (Keeps.engine rfl) fun ret => ?_
          exact Keeps.ite (Keeps.pure _) (ih _ (by omega) _ rfl)
    · exact Keeps.pure _

theorem appendResponseBodyFile_keeps (b : Buf) (f : File) :
    Keeps (EngineCall.OnResponseBody true) (appendResponseBodyFile b f : Handler ρ ℤ) := by
  refine Keeps.call (Keeps.bind (Keeps.when (Keeps.fail _)) fun _ => Keeps.bind (Keeps.when (Keeps.exit _)) fun _ => ?_)
  refine Keeps.bind (Keeps.alloc _) fun ok => Keeps.bind (Keeps.when (Keeps.fail _)) fun _ => ?_
  refine Keeps.bind (Keeps.ite (Keeps.invoke fun _ _ => trivial) (Keeps.pure _)) fun off => ?_
  refine Keeps.bind (Keeps.ite (Keeps.pure _) (appendFileLoop_keeps b f _)) fun rc => ?_
  refine Keeps.bind (Keeps.when (Keeps.bind (Keeps.invoke fun _ _ => trivial) fun _ => Keeps.pure _)) fun _ => ?_
  refine Keeps.bind (Keeps.invoke fun _ _ => trivial) fun _ => ?_
  exact Keeps.bind (Keeps.when Keeps.trigger) fun _ => Keeps.pure _

theorem appendBuf_keeps (b : Buf) : Keeps (EngineCall.OnResponseBody true) (appendBuf b) := by
  unfold appendBuf
  cases b.fileBacked with
  | some f =>
    refine Keeps.bind (appendResponseBodyFile_keeps b f) fun rc => ?_
    exact Keeps.when (Keeps.exitWith (bodyFilterFinalize_keeps _))
  | none =>
    refine Keeps.bind (Keeps.when (block_keeps _)) fun _ => Keeps.bind (readBodyData_keeps b) fun data => ?_
    cases data with
    | none => exact block_keeps _
    | some data => exact Keeps.when (Keeps.bind (Keeps.engine rfl) fun ret => Keeps.when (block_keeps _))

theorem inspectBuf_keeps (b : Buf) : Keeps (EngineCall.OnResponseBody true) (inspectBuf b) :=
  Keeps.bind (appendBuf_keeps b) fun _ =>
    Keeps.bind (processIntervention_keeps fun _ => trivial) fun ret => afterPoll_keeps ret

theorem finishBody_keeps (processable : Bool) : Keeps (EngineCall.OnResponseBody processable) finishBody := by
  refine Keeps.bind (Keeps.engine trivial) fun pret => Keeps.bind (Keeps.when (block_keeps _)) fun _ => ?_
  exact Keeps.bind (pollAfterProcess_keeps (fun _ => trivial) pret) fun ret => afterPoll_keeps ret

theorem allocOrFail_keeps (n : ℕ) : Keeps P (allocOrFail n) :=
  Keeps.bind (Keeps.alloc n) fun _ => Keeps.when (Keeps.exitWith bodyFilterInternalError_keeps)

theorem enqueueBuf_keeps (i : ℕ) (b : Buf) : Keeps P (enqueueBuf i b) := by
  refine Keeps.bind (allocOrFail_keeps _) fun _ => ?_
  refine Keeps.ite (Keeps.modify fun _ => Confined.of_trace rfl rfl rfl rfl rfl id) ?_
  refine Keeps.ite (Keeps.bind (allocOrFail_keeps _) fun _ => Keeps.modify fun _ =>
    Confined.of_trace rfl rfl rfl rfl rfl id) ?_
  refine Keeps.bind (readBodyData_keeps b) fun data => ?_
  cases data with
  | none => exact Keeps.exitWith bodyFilterInternalError_keeps
  | some data =>
    refine Keeps.bind (allocOrFail_keeps _) fun _ => Keeps.bind (Keeps.when (allocOrFail_keeps _)) fun _ => ?_
    exact Keeps.modify fun _ => Confined.of_trace rfl rfl rfl rfl rfl id

/-- one buffer: whether it is appended is decided by a field that the filter leaves alone -/
theorem bodyFilterBuf_confined (x : Buf × ℕ) :
    wp (bodyFilterBuf x) (fun _ => Confined (EngineCall.OnResponseBody s.ctx.responseBodyProcessable) s)
      (fun _ => Confined (EngineCall.OnResponseBody s.ctx.responseBodyProcessable) s) e s := by
  have behind : Keeps (EngineCall.OnResponseBody s.ctx.responseBodyProcessable) (do
      when x.1.lastBuf do finishBody
      when (← Prog.get).ctx.headersDelayed do enqueueBuf x.2 x.1) :=
    Keeps.bind (Keeps.when (finishBody_keeps _)) fun _ =>
      Keeps.bind Keeps.get fun s => Keeps.when (enqueueBuf_keeps x.2 x.1)
  rw [bodyFilterBuf, wp_bind, wp_get, wp_bind]
  refine (wp_when _ _).2 ⟨fun hp => ?_, fun _ => behind e s⟩
  rw [hp] at behind ⊢
  refine wp_mono (inspectBuf_keeps x.1 e s) (fun _ t ht => ?_) (fun _ _ h => h)
  exact wp_mono (behind e t) (fun _ _ h => Confined.trans _ _ _ ht h) (fun _ _ h => Confined.trans _ _ _ ht h)

theorem flushDelayed_keeps : Keeps P (flushDelayed : Handler ρ ℤ) := by
  refine Keeps.call (Keeps.bind (Keeps.modify fun _ => Confined.of_trace rfl rfl rfl rfl rfl id) fun _ => ?_)
  refine Keeps.bind nextHeaderFilter_keeps fun rc => Keeps.bind (Keeps.when (Keeps.exit _)) fun _ => ?_
  refine Keeps.bind Keeps.get fun s => ?_
  exact Keeps.bind (Keeps.modify fun _ => Confined.of_trace rfl rfl rfl rfl rfl id) fun _ => nextBodyFilter_keeps _

/-- **The body filter.** -/
theorem bodyFilter_confined (inn : List Buf) {Q : ℤ → St → Prop} {E : ρ → St → Prop}
    (h : ∀ rc t, Confined (EngineCall.OnResponseBody s.ctx.responseBodyProcessable) s t → Q rc t) :
    wp (bodyFilter inn : Handler ρ ℤ) Q E e s := by
  have back : ∀ {m : Handler ℤ ℤ} {t : St}, Keeps (EngineCall.OnResponseBody s.ctx.responseBodyProcessable) m →
      Confined (EngineCall.OnResponseBody s.ctx.responseBodyProcessable) s t → wp m Q Q e t := fun hm ht =>
    wp_mono (hm e _) (fun rc _ h' => h rc _ (Confined.trans _ _ _ ht h'))
      (fun rc _ h' => h rc _ (Confined.trans _ _ _ ht h'))
  have h0 : Confined (EngineCall.OnResponseBody s.ctx.responseBodyProcessable) s (s.setInn inn) :=
    Confined.of_trace rfl rfl rfl rfl rfl id
  rw [bodyFilter, wp_call, wp_bind, wp_modify, wp_bind]
  refine (wp_when _ _).2 ⟨fun _ => ?_, fun _ => ?_⟩
  · rw [wp_bind]
    exact back (nextBodyFilter_keeps _) h0
  rw [wp_bind, wp_get, wp_bind]
  refine (wp_when _ _).2 ⟨fun _ => ?_, fun _ => ?_⟩
  · rw [wp_bind]
    refine (wp_when _ _).2 ⟨fun _ => ?_, fun _ => ?_⟩
    · rw [wp_bind, bodyFilterConsume, wp_modify, wp_exit]
      exact h _ _ (Confined.of_trace rfl rfl rfl rfl rfl id)
    · rw [wp_bind]
      exact back (nextBodyFilter_keeps _) h0
  rw [wp_bind]
  refine wp_forEach (fun _ => Confined (EngineCall.OnResponseBody s.ctx.responseBodyProcessable) s) _ _ h0
    (fun t ht => ?_) (fun pre x post t _ ht => ?_)
  · rw [wp_bind, wp_get, wp_bind]
    refine (wp_when _ _).2 ⟨fun _ => ?_, fun _ => back (nextBodyFilter_keeps _) ht⟩
    rw [wp_bind]
    refine (wp_when _ _).2 ⟨fun _ => ?_, fun _ => ?_⟩
    · rw [wp_bind]
      exact back flushDelayed_keeps ht
    · rw [wp_bind]
      refine (wp_when _ _).2 ⟨fun _ => ?_, fun _ => h _ _ ht⟩
      rw [wp_bind]
      exact back flushDelayed_keeps ht
  · have hbuf := bodyFilterBuf_confined (e := e) (s := t) x
    rw [ht.processable] at hbuf
    exact wp_mono hbuf (fun _ _ h' => Confined.trans _ _ _ ht h') (fun rc _ h' => h rc _ (Confined.trans _ _ _ ht h'))

/-- behind an intervention the body filter calls nothing of the engine -/
theorem bodyFilter_passes (inn : List Buf) (ht : s.ctx.interventionTriggered = true) {Q : ℤ → St → Prop}
    {E : ρ → St → Prop} (h : ∀ rc t, Confined (fun _ => False) s t → Q rc t) :
    wp (bodyFilter inn : Handler ρ ℤ) Q E e s := by
  have h0 : Confined (fun _ => False) s (s.setInn inn) := Confined.of_trace rfl rfl rfl rfl rfl id
  have back : wp (nextBodyFilter (inLinks inn) : Handler ℤ ℤ) Q Q e (s.setInn inn) :=
    wp_mono (nextBodyFilter_keeps (inLinks inn) e (s.setInn inn)) (fun rc _ h' => h rc _ (Confined.trans _ _ _ h0 h'))
      (fun rc _ h' => h rc _ (Confined.trans _ _ _ h0 h'))
  rw [bodyFilter, wp_call, wp_bind, wp_modify, wp_bind]
  refine (wp_when _ _).2 ⟨fun hnil => ?_, fun _ => ?_⟩
  · rw [hnil] at back
    rw [hnil, wp_bind]
    exact back
  rw [wp_bind, wp_get, wp_bind]
  refine (wp_when _ _).2 ⟨fun _ => ?_, fun hno => absurd ht hno⟩
  rw [wp_bind]
  refine (wp_when _ _).2 ⟨fun _ => ?_, fun _ => ?_⟩
  · rw [wp_bind, bodyFilterConsume, wp_modify, wp_exit]
    exact h _ _ (Confined.of_trace rfl rfl rfl rfl rfl id)
  · rw [wp_bind]
    exact back

end

end CorazaNginx
