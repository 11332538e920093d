/-
What every function of the module keeps, once and for all properties.

A property of blocks is followed through a function statement by statement, and the statements are few. `Phased` lists
those of the request phases up to the two that wait for the client's body, `Filtered` adds those of the filters,
`Creates` those behind a context's creation. A property that has the statements of a list has every function built from
them, one lemma for each function; what the property is (that only certain calls are made, that some field stays) is for
its own module to say.
-/
import Mathlib.Tactic
import CorazaNginx.Lifecycle.Turns

namespace CorazaNginx

open CorazaNginx.Core Prog Handler

variable {ρ α β : Type}

/-! ## The request phases -/

/-- a call that is about the request body's arrival -/
def Call.awaits : Call → Bool
  | .readClientRequestBody => true
  | .runPhases => true
  | _ => false

/-- a property of blocks that the steps of the request phases have, up to those that wait for the body: a call that
sends nothing, a poll, an assignment to a flag, and the installation of a redirect -/
structure Phased (K : ∀ {ρ α : Type}, Handler ρ α → Prop) : Prop extends Compositional K where
  invoke : ∀ {ρ : Type} {c : Call}, c.awaits = false → (∀ rc, (Event.call c rc).isOutput = false) →
    K (Handler.invoke c : Handler ρ ℤ)
  poll : ∀ {ρ : Type}, K (pollEngine : Handler ρ (Option Intervention))
  assign : ∀ {ρ : Type} {f : St → St}, (∀ s, (f s).r = s.r ∧ (f s).trace = s.trace ∧
    (f s).ctx.waitingMoreBody = s.ctx.waitingMoreBody ∧ (f s).ctx.bodyRequested = s.ctx.bodyRequested) →
    K (modify f : Handler ρ Unit)
  install : ∀ {ρ : Type} (iv : Intervention), K (installRedirect iv : Handler ρ Unit)

namespace Phased

variable {K : ∀ {ρ α : Type}, Handler ρ α → Prop}

theorem engine (h : Phased K) (c : EngineCall) : K (engine c : Handler ρ ℤ) :=
  h.bind h.get fun _ => h.invoke rfl fun _ => rfl

theorem alloc (h : Phased K) (n : ℕ) : K (alloc n : Handler ρ Bool) :=
  h.bind (h.invoke rfl fun _ => rfl) fun _ => h.pure _

theorem readFile (h : Phased K) (n : ℕ) (o : ℤ) : K (readFile n o : Handler ρ (ReadResult n)) :=
  h.bind (h.invoke rfl fun _ => rfl) fun _ => h.pure _

theorem trigger (h : Phased K) : K (trigger : Handler ρ Unit) := h.assign fun _ => ⟨rfl, rfl, rfl, rfl⟩

/-- give up behind a trigger -/
theorem fail (h : Phased K) (rc : ℤ) : K (do Handler.trigger; Prog.exit rc : Handler ℤ Unit) :=
  h.bind h.trigger fun _ => h.exit rc

/-- return what another function returned -/
theorem exitWith (h : Phased K) {m : Handler ℤ ℤ} (hm : K m) : K (m >>= fun rc => Prog.exit rc : Handler ℤ α) :=
  h.bind hm fun _ => h.exit _

/-! ### Polls -/

theorem logHandler (h : Phased K) : K (logHandler : Handler ρ ℤ) := by
  refine h.call (h.bind h.get fun s => h.bind (h.when (h.exit _)) fun _ => h.bind (h.when (h.exit _)) fun _ => ?_)
  exact h.bind (h.engine _) fun _ => h.bind (h.assign fun _ => ⟨rfl, rfl, rfl, rfl⟩) fun _ => h.pure _

theorem enforceIntervention (h : Phased K) (early : Bool) (iv : Intervention) : K (enforceIntervention early iv) := by
  refine h.bind (h.engine _) fun _ => h.bind (h.when ?_) fun _ => h.bind h.get fun s => ?_
  · exact h.bind h.logHandler fun _ => h.assign fun _ => ⟨rfl, rfl, rfl, rfl⟩
  · exact h.bind (h.when (h.exit _)) fun _ => h.bind (h.install iv) fun _ => h.pure _

theorem processIntervention (h : Phased K) (early : Bool) : K (processIntervention early : Handler ρ ℤ) := by
  refine h.call (h.bind h.poll fun iv => ?_)
  cases iv with
  | none => exact h.pure _
  | some iv => exact h.ite (h.pure _) (h.enforceIntervention early iv)

theorem pollAfterProcess (h : Phased K) (early : Bool) (pret : ℤ) : K (pollAfterProcess early pret : Handler ρ ℤ) := by
  refine h.call (h.bind (h.when (h.exit _)) fun _ => ?_)
  exact h.bind (h.when (h.exit _)) fun _ => h.processIntervention early

theorem afterPhasePoll (h : Phased K) (ret : ℤ) : K (afterPhasePoll ret) := by
  refine h.bind h.get fun s => h.bind (h.when (h.exit _)) fun _ => ?_
  exact h.bind (h.when (h.fail _)) fun _ => h.when (h.fail _)

/-! ### Rewrite -/

theorem packHeaders (h : Phased K) (pairs : List HeaderPair) : K (packHeaders pairs : Handler ρ (Option Bytes)) := by
  refine h.call ?_
  cases packTotal pairs 0 with
  | none => exact h.pure _
  | some total =>
    refine h.bind (h.when (h.exit _)) fun _ => h.bind (h.alloc total) fun ok => ?_
    exact h.bind (h.when (h.exit _)) fun _ => h.pure _

theorem bulkRequestHeaders (h : Phased K) : K (bulkRequestHeaders : Handler ρ Bool) := by
  refine h.call (h.bind h.get fun s => h.bind (h.when (h.exit _)) fun _ => ?_)
  refine h.bind (h.alloc _) fun ok => h.bind (h.when (h.exit _)) fun _ => ?_
  refine h.bind (h.packHeaders _) fun packed => ?_
  cases packed with
  | none => exact h.pure _
  | some packed => exact h.bind (h.engine _) fun _ => h.pure _

theorem submitRequestHeader (h : Phased K) (x : TableElt × ℕ) : K (submitRequestHeader x) := by
  refine h.ite (h.pure ()) (h.bind (h.when (h.fail _)) fun _ => ?_)
  exact h.bind (h.engine _) fun _ => h.pure _

/-- **The rewrite handler**, once there is a context. -/
theorem rewriteInspect (h : Phased K) : K (rewriteInspect : Handler ρ ℤ) := by
  have copy : ∀ a, K (do when (!(← strToChar a)) do exit ngxHttpInternalServerError : Handler ℤ Unit) := fun a =>
    h.bind (h.alloc _) fun _ => h.when (h.exit _)
  refine h.call (h.bind h.get fun s => h.bind (h.when (copy _)) fun _ => ?_)
  refine h.bind (h.invoke rfl fun _ => rfl) fun rc => h.bind (h.when (h.exit _)) fun _ => ?_
  refine h.bind (h.when (copy _)) fun _ => h.bind (h.engine _) fun _ => ?_
  refine h.bind (h.alloc _) fun _ => h.bind (h.when (h.exit _)) fun _ => ?_
  refine h.bind (h.alloc _) fun _ => h.bind (h.when (h.exit _)) fun _ => ?_
  refine h.bind (h.engine _) fun _ => h.bind h.bulkRequestHeaders fun done => ?_
  refine h.bind (h.when (h.forEach fun x _ => h.submitRequestHeader x)) fun _ => ?_
  refine h.bind (h.engine _) fun pret => h.bind (h.pollAfterProcess true pret) fun ret => ?_
  exact h.bind (h.afterPhasePoll ret) fun _ => h.pure _

/-! ### Pre-access -/

theorem pollBefore (h : Phased K) (f : TempFile) (o : ℤ) : K (pollBefore f o : Handler ρ (Option ℤ)) := by
  refine h.ite (h.call (h.bind (h.processIntervention false) fun ret => h.bind h.get fun s => ?_)) (h.pure _)
  refine h.bind (h.when (h.exit _)) fun _ => h.bind (h.when (h.exit _)) fun _ => ?_
  exact h.bind (h.when (h.bind h.trigger fun _ => h.exit _)) fun _ => h.pure _

/-- the loop over a file: by induction on what is left of it -/
theorem requestFileLoop (h : Phased K) (f : TempFile) (o : ℤ) : K (requestFileLoop f o : Handler ρ ℤ) := by
  induction hn : (f.offset - o).toNat using Nat.strong_induction_on generalizing o with
  | _ n ih =>
    rw [CorazaNginx.requestFileLoop]
    split_ifs with hlt
    · refine h.bind (h.readFile _ o) fun res => ?_
      cases res with
      | error => exact h.pure _
      | bytes k le =>
        dsimp only
        split_ifs with hk
        · exact h.pure _
        · refine h.bind h.ask fun e => h.bind (h.engine _) fun ret => ?_
          refine h.ite (h.pure _) (h.bind (h.pollBefore f _) fun left => ?_)
          cases left with
          | some rc => exact h.pure rc
          | none => exact ih _ (by omega) _ rfl
    · exact h.pure _

theorem appendRequestBodyFile (h : Phased K) (f : TempFile) : K (appendRequestBodyFile f : Handler ρ ℤ) := by
  refine h.call (h.bind (h.when (h.exit _)) fun _ => h.bind (h.when (h.fail _)) fun _ => ?_)
  refine h.bind (h.invoke rfl fun _ => rfl) fun opened => h.bind (h.when (h.fail _)) fun _ => ?_
  refine h.bind (h.requestFileLoop f 0) fun rc => h.bind (h.invoke rfl fun _ => rfl) fun _ => ?_
  exact h.bind (h.when h.trigger) fun _ => h.pure _

theorem appendChain (h : Phased K) (l : List Buf) : K (appendChain l) := by
  induction l with
  | nil => exact h.pure ()
  | cons b l ih =>
    refine h.bind h.ask fun e => h.bind (h.when (h.fail _)) fun _ => ?_
    refine h.bind (h.when (h.bind (h.engine _) fun ret => h.when (h.fail _))) fun _ => ?_
    refine h.ite (h.pure ()) (h.bind (h.processIntervention false) fun ret => ?_)
    exact h.bind (h.afterPhasePoll ret) fun _ => ih

theorem appendBody (h : Phased K) (rb : RequestBody) : K (appendBody rb) := by
  unfold CorazaNginx.appendBody
  cases rb.tempFile with
  | some f => exact h.bind (h.appendRequestBodyFile f) fun rc => h.when (h.exit _)
  | none => exact h.appendChain rb.bufs

theorem processRequestBodyPhase (h : Phased K) : K (processRequestBodyPhase : Handler ρ ℤ) := by
  refine h.call (h.bind (h.engine _) fun pret => h.bind (h.when (h.fail _)) fun _ => ?_)
  exact h.bind (h.pollAfterProcess false pret) fun ret => h.bind (h.afterPhasePoll ret) fun _ => h.pure _

theorem submitRequestBody (h : Phased K) : K submitRequestBody := by
  refine h.bind h.get fun s => ?_
  cases s.r.requestBody with
  | none => exact h.exit _
  | some rb =>
    refine h.bind (h.assign fun _ => ⟨rfl, rfl, rfl, rfl⟩) fun _ => h.bind (h.appendBody rb) fun _ => ?_
    refine h.bind (h.processIntervention false) fun ret => h.bind (h.afterPhasePoll ret) fun _ => ?_
    exact h.exitWith h.processRequestBodyPhase

end Phased

/-! ## The filters -/

/-- a property that also has the steps of the filters: the three calls that send something, and what is assigned to the
request in front of them -/
structure Filtered (K : ∀ {ρ α : Type}, Handler ρ α → Prop) : Prop extends Phased K where
  nextHeaderFilter : ∀ {ρ : Type}, K (nextHeaderFilter : Handler ρ ℤ)
  nextBodyFilter : ∀ {ρ : Type} (out : List Link), K (nextBodyFilter out : Handler ρ ℤ)
  filterFinalizeRequest : ∀ {ρ : Type} (status : ℤ), K (filterFinalizeRequest status : Handler ρ ℤ)
  redirect : ∀ {ρ : Type} (status : ℤ), isRedirectStatus status = true →
    K (modify fun s => s.setR (prepareRedirect s.r status) : Handler ρ Unit)
  delay : ∀ {ρ : Type}, K (modify St.delay : Handler ρ Unit)

namespace Filtered

variable {K : ∀ {ρ α : Type}, Handler ρ α → Prop}

/-- a block where its condition holds -/
theorem guarded (h : Filtered K) {c : Prop} [Decidable c] {m : Handler ρ Unit} (hm : c → K m) : K (when c m) := by
  by_cases hc : c
  · exact h.when (hm hc)
  · rw [when, if_neg hc]
    exact h.pure ()

theorem carried (h : Filtered K) : Carried K := by
  refine ⟨h.toCompositional, h.alloc, fun _ => h.assign fun _ => ⟨rfl, rfl, rfl, rfl⟩, fun _ => h.engine _, fun l => ?_⟩
  refine h.ite (h.pure _) (h.bind (h.packHeaders l) fun packed => ?_)
  cases packed with
  | none => exact h.pure _
  | some packed => exact h.bind (h.engine _) fun _ => h.pure _

theorem dispatchHeaders (h : Filtered K) (ret : ℤ) : K (dispatchHeaders ret) := by
  refine h.bind h.get fun s => h.bind (h.when (h.exitWith h.nextHeaderFilter)) fun _ => ?_
  refine h.bind (h.when (h.bind h.trigger fun _ => h.bind (h.guarded fun hc => ?_) fun _ => ?_)) fun _ => ?_
  · rw [Bool.and_eq_true] at hc
    exact h.bind (h.redirect _ hc.1) fun _ => h.exitWith h.nextHeaderFilter
  · exact h.exitWith (h.filterFinalizeRequest ret)
  · refine h.bind (h.when (h.bind h.delay fun _ => h.exit _)) fun _ => ?_
    exact h.exitWith h.nextHeaderFilter

theorem processResponseHeaders (h : Filtered K) : K processResponseHeaders := by
  refine h.bind h.get fun s => h.bind (h.engine _) fun pret => h.bind (h.engine _) fun processable => ?_
  exact h.bind (h.assign fun _ => ⟨rfl, rfl, rfl, rfl⟩) fun _ => h.pollAfterProcess false pret

/-- **The header filter.** -/
theorem headerFilter (h : Filtered K) : K (headerFilter : Handler ρ ℤ) := by
  refine h.call (h.bind h.get fun s => ?_)
  refine h.bind (h.when (h.exitWith h.nextHeaderFilter)) fun _ => ?_
  refine h.bind (h.when (h.exitWith h.nextHeaderFilter)) fun _ => ?_
  refine h.bind (h.assign fun _ => ⟨rfl, rfl, rfl, rfl⟩) fun _ => h.bind (h.alloc _) fun armed => ?_
  refine h.bind (h.assign fun _ => ⟨rfl, rfl, rfl, rfl⟩) fun _ => h.bind h.carried.submitResponseHeaders fun _ => ?_
  refine h.bind h.carried.flushResponseHeaders fun _ => h.bind h.processResponseHeaders fun ret => ?_
  exact h.bind (h.dispatchHeaders ret) fun _ => h.pure _

theorem bodyFilterFinalize (h : Filtered K) (status : ℤ) : K (bodyFilterFinalize status : Handler ρ ℤ) := by
  refine h.call (h.bind h.get fun s => h.bind (h.when (h.assign fun _ => ⟨rfl, rfl, rfl, rfl⟩)) fun _ => ?_)
  refine h.bind (h.guarded fun hc => ?_) fun _ => h.filterFinalizeRequest status
  rw [Bool.and_eq_true, Bool.and_eq_true] at hc
  refine h.bind (h.redirect _ hc.1.2) fun _ => h.bind (h.assign fun _ => ⟨rfl, rfl, rfl, rfl⟩) fun _ => ?_
  exact h.exitWith h.nextHeaderFilter

theorem bodyFilterInternalError (h : Filtered K) : K (bodyFilterInternalError : Handler ρ ℤ) :=
  h.call (h.bind h.trigger fun _ => h.bodyFilterFinalize _)

theorem block (h : Filtered K) (status : ℤ) : K (block status) :=
  h.bind h.trigger fun _ => h.exitWith (h.bodyFilterFinalize status)

theorem afterPoll (h : Filtered K) (ret : ℤ) : K (afterPoll ret) := by
  refine h.bind h.get fun s => h.bind (h.when (h.exitWith (h.nextBodyFilter _))) fun _ => ?_
  exact h.bind (h.when (h.block ret)) fun _ => h.when (h.block _)

/-- the read loop: by induction on what is left to read -/
theorem readRange (h : Filtered K) (b : Buf) (f : File) (n : ℕ) (o : ℤ) (data : Bytes) :
    K (CorazaNginx.readRange b f n o data : Handler ρ (Option Bytes)) := by
  induction n using Nat.strong_induction_on generalizing o data with
  | _ n ih =>
    rw [CorazaNginx.readRange]
    split_ifs with h0
    · exact h.pure _
    · refine h.bind (h.readFile n o) fun res => ?_
      cases res with
      | error => exact h.pure _
      | bytes k le =>
        dsimp only
        split_ifs with hk
        · exact h.pure _
        · exact h.bind h.ask fun e => ih _ (by omega) _ _

theorem readBodyData (h : Filtered K) (b : Buf) : K (readBodyData b : Handler ρ (Option Bytes)) := by
  refine h.call (h.bind (h.when (h.bind h.ask fun e => h.exit _)) fun _ => ?_)
  cases b.fileBacked with
  | none => exact h.pure _
  | some f =>
    refine h.bind (h.when (h.exit _)) fun _ => h.bind (h.alloc _) fun ok => ?_
    exact h.bind (h.when (h.exit _)) fun _ => h.readRange b f _ _ _

/-- the loop over a file: by induction on what is left of it -/
theorem appendFileLoop (h : Filtered K) (b : Buf) (f : File) (o : ℤ) : K (appendFileLoop b f o : Handler ρ ℤ) := by
  induction hn : (b.fileLast - o).toNat using Nat.strong_induction_on generalizing o with
  | _ n ih =>
    rw [CorazaNginx.appendFileLoop]
    split_ifs with hlt
    · refine h.bind (h.readFile _ o) fun res => ?_
      cases res with
      | error => exact h.pure _
      | bytes k le =>
        dsimp only
        split_ifs with hk
        · exact h.pure _
        · refine h.bind h.ask fun e => h.bind (h.engine _) fun ret => ?_
          exact h.ite (h.pure _) (ih _ (by omega) _ rfl)
    · exact h.pure _

theorem appendResponseBodyFile (h : Filtered K) (b : Buf) (f : File) :
    K (appendResponseBodyFile b f : Handler ρ ℤ) := by
  refine h.call (h.bind (h.when (h.fail _)) fun _ => h.bind (h.when (h.exit _)) fun _ => ?_)
  refine h.bind (h.alloc _) fun ok => h.bind (h.when (h.fail _)) fun _ => ?_
  refine h.bind (h.ite (h.invoke rfl fun _ => rfl) (h.pure _)) fun off => ?_
  refine h.bind (h.ite (h.pure _) (h.appendFileLoop b f _)) fun rc => ?_
  refine h.bind (h.when (h.bind (h.invoke rfl fun _ => rfl) fun _ => h.pure _)) fun _ => ?_
  refine h.bind (h.invoke rfl fun _ => rfl) fun _ => h.bind (h.when h.trigger) fun _ => h.pure _

theorem appendBuf (h : Filtered K) (b : Buf) : K (appendBuf b) := by
  unfold CorazaNginx.appendBuf
  cases b.fileBacked with
  | some f =>
    refine h.bind (h.appendResponseBodyFile b f) fun rc => ?_
    exact h.when (h.exitWith (h.bodyFilterFinalize _))
  | none =>
    refine h.bind (h.when (h.block _)) fun _ => h.bind (h.readBodyData b) fun data => ?_
    cases data with
    | none => exact h.block _
    | some data => exact h.when (h.bind (h.engine _) fun ret => h.when (h.block _))

theorem inspectBuf (h : Filtered K) (b : Buf) : K (inspectBuf b) :=
  h.bind (h.appendBuf b) fun _ => h.bind (h.processIntervention false) fun ret => h.afterPoll ret

theorem finishBody (h : Filtered K) : K finishBody := by
  refine h.bind (h.engine _) fun pret => h.bind (h.when (h.block _)) fun _ => ?_
  exact h.bind (h.pollAfterProcess false pret) fun ret => h.afterPoll ret

theorem allocOrFail (h : Filtered K) (n : ℕ) : K (allocOrFail n) :=
  h.bind (h.alloc n) fun _ => h.when (h.exitWith h.bodyFilterInternalError)

theorem enqueueBuf (h : Filtered K) (i : ℕ) (b : Buf) : K (enqueueBuf i b) := by
  refine h.bind (h.allocOrFail _) fun _ => h.ite (h.assign fun _ => ⟨rfl, rfl, rfl, rfl⟩) ?_
  refine h.ite (h.bind (h.allocOrFail _) fun _ => h.assign fun _ => ⟨rfl, rfl, rfl, rfl⟩) ?_
  refine h.bind (h.readBodyData b) fun data => ?_
  cases data with
  | none => exact h.exitWith h.bodyFilterInternalError
  | some data =>
    refine h.bind (h.allocOrFail _) fun _ => h.bind (h.when (h.allocOrFail _)) fun _ => ?_
    exact h.assign fun _ => ⟨rfl, rfl, rfl, rfl⟩

theorem bodyFilterBuf (h : Filtered K) (x : Buf × ℕ) : K (bodyFilterBuf x) := by
  refine h.bind h.get fun s => h.bind (h.when (h.inspectBuf _)) fun _ => ?_
  refine h.bind (h.when h.finishBody) fun _ => h.bind h.get fun s' => ?_
  exact h.when (h.enqueueBuf _ _)

theorem flushDelayed (h : Filtered K) : K (flushDelayed : Handler ρ ℤ) := by
  refine h.call (h.bind (h.assign fun _ => ⟨rfl, rfl, rfl, rfl⟩) fun _ => h.bind h.nextHeaderFilter fun rc => ?_)
  refine h.bind (h.when (h.exit _)) fun _ => h.bind h.get fun s => ?_
  exact h.bind (h.assign fun _ => ⟨rfl, rfl, rfl, rfl⟩) fun _ => h.nextBodyFilter _

/-- **The body filter.** -/
theorem bodyFilter (h : Filtered K) (inn : List Buf) : K (bodyFilter inn : Handler ρ ℤ) := by
  have flush : K (do exit (← CorazaNginx.flushDelayed) : Handler ℤ Unit) := h.exitWith h.flushDelayed
  refine h.call (h.bind (h.assign fun _ => ⟨rfl, rfl, rfl, rfl⟩) fun _ => ?_)
  refine h.bind (h.when (h.exitWith (h.nextBodyFilter _))) fun _ => h.bind h.get fun s => ?_
  refine h.bind (h.when (h.bind (h.when ?_) fun _ => h.exitWith (h.nextBodyFilter _))) fun _ => ?_
  · exact h.bind (h.assign fun _ => ⟨rfl, rfl, rfl, rfl⟩) fun _ => h.exit _
  refine h.bind (h.forEach fun x _ => h.bodyFilterBuf x) fun _ => h.bind h.get fun s' => ?_
  refine h.bind (h.when ?_) fun _ => h.nextBodyFilter _
  exact h.bind (h.when flush) fun _ => h.bind (h.when flush) fun _ => h.exit _

end Filtered

/-! ## Creating a context -/

/-- what the contexts remember of the request body is as it was, and a new one remembers nothing -/
structure World.Grows (w w' : World) : Prop where
  count : w.ctxCount ≤ w'.ctxCount
  old : ∀ a < w.ctxCount, (w'.ctxs a).waitingMoreBody = (w.ctxs a).waitingMoreBody ∧
    (w'.ctxs a).bodyRequested = (w.ctxs a).bodyRequested
  new : ∀ a, w.ctxCount ≤ a → a < w'.ctxCount → (w'.ctxs a).waitingMoreBody = false ∧ (w'.ctxs a).bodyRequested = false
  installed : w'.installed = w.installed ∨ ∃ a < w'.ctxCount, w'.installed = some a

theorem World.Grows.refl (w : World) : w.Grows w where
  count := le_rfl
  old := fun _ _ => ⟨rfl, rfl⟩
  new := fun _ hle hlt => absurd hlt (not_lt.2 hle)
  installed := Or.inl rfl

theorem World.Grows.trans {w w' w'' : World} (h : w.Grows w') (h' : w'.Grows w'') : w.Grows w'' where
  count := h.count.trans h'.count
  old := fun a ha =>
    have ha' := h'.old a (ha.trans_le h.count)
    ⟨ha'.1.trans (h.old a ha).1, ha'.2.trans (h.old a ha).2⟩
  new := by
    intro a hle hlt
    by_cases hmid : a < w'.ctxCount
    · exact ⟨(h'.old a hmid).1.trans (h.new a hle hmid).1, (h'.old a hmid).2.trans (h.new a hle hmid).2⟩
    · exact h'.new a (not_lt.1 hmid) hlt
  installed := by
    rcases h'.installed with heq | hnew
    · rw [heq]
      exact h.installed.imp_right fun ⟨a, ha, hin⟩ => ⟨a, ha.trans_le h'.count, hin⟩
    · exact Or.inr hnew

/-- an assignment to a context that leaves alone what it remembers of the body -/
theorem World.Grows.setCtx {w : World} {a : ℕ} {c : Ctx} (hw : c.waitingMoreBody = (w.ctxs a).waitingMoreBody)
    (hr : c.bodyRequested = (w.ctxs a).bodyRequested) : w.Grows (w.setCtx a c) where
  count := le_rfl
  old := by
    intro b _
    by_cases hb : b = a
    · have hself : (w.setCtx a c).ctxs b = c := hb ▸ Function.update_self _ _ _
      rw [hself, hb]
      exact ⟨hw, hr⟩
    · have hother : (w.setCtx a c).ctxs b = w.ctxs b := Function.update_of_ne hb _ _
      rw [hother]
      exact ⟨rfl, rfl⟩
  new := fun _ hle hlt => absurd hlt (not_lt.2 hle)
  installed := Or.inl rfl

theorem World.Grows.install (w : World) (tx : ℕ) : w.Grows (w.install tx) where
  count := Nat.le_succ _
  old := by
    intro a ha
    have hother : (w.install tx).ctxs a = w.ctxs a := Function.update_of_ne ha.ne _ _
    rw [hother]
    exact ⟨rfl, rfl⟩
  new := by
    intro a hle hlt
    obtain rfl : a = w.ctxCount := le_antisymm (Nat.lt_succ_iff.1 hlt) hle
    have hself : (w.install tx).ctxs w.ctxCount = { corazaTransaction := tx } := Function.update_self _ _ _
    rw [hself]
    exact ⟨rfl, rfl⟩
  installed := Or.inr ⟨_, Nat.lt_succ_self _, rfl⟩

/-- a property of blocks that the steps of a context's creation have -/
structure Creates (K : ∀ {ρ α : Type}, Hook ρ α → Prop) : Prop extends Compositional K where
  invoke : ∀ {ρ : Type} {c : Call}, c.awaits = false → (∀ rc, (Event.call c rc).isOutput = false) →
    K (Hook.invoke c : Hook ρ ℤ)
  assign : ∀ {ρ : Type} {f : World → World}, (∀ w, (f w).r = w.r ∧ (f w).trace = w.trace ∧ w.Grows (f w)) →
    K (modify f : Hook ρ Unit)

namespace Creates

variable {K : ∀ {ρ α : Type}, Hook ρ α → Prop}

theorem newTransaction (h : Creates K) (waf : ℕ) (id : Option Bytes) : K (Hook.newTransaction waf id : Hook ρ ℕ) :=
  h.bind (h.invoke rfl fun _ => rfl) fun _ => h.pure _

theorem evaluateId (h : Creates K) : K (Hook.evaluateId : Hook ρ (Option (Option Bytes))) := by
  refine h.bind h.ask fun e => h.bind h.get fun w => ?_
  exact h.ite (h.bind (h.invoke rfl fun _ => rfl) fun rc => h.pure _) (h.pure _)

theorem addCleanup (h : Creates K) (a : ℕ) : K (Hook.addCleanup a : Hook ρ Bool) := by
  refine h.bind (h.invoke rfl fun _ => rfl) fun cln => h.ite ?_ ?_
  · refine h.bind h.get fun w => h.bind (h.invoke rfl fun _ => rfl) fun _ => ?_
    exact h.bind (h.assign fun w => ⟨rfl, rfl, .setCtx rfl rfl⟩) fun _ => h.pure _
  · refine h.bind (h.assign fun w => ⟨rfl, rfl, ?_⟩) fun _ => h.pure _
    exact ⟨le_rfl, fun _ _ => ⟨rfl, rfl⟩, fun _ hle hlt => absurd hlt (not_lt.2 hle), Or.inl rfl⟩

theorem keepId (h : Creates K) (a : ℕ) (id : Option Bytes) : K (Hook.keepId a id : Hook ρ Bool) := by
  cases id with
  | none => exact h.pure _
  | some id =>
    refine h.bind (h.invoke rfl fun _ => rfl) fun copied => h.ite (h.pure _) ?_
    exact h.bind (h.assign fun w => ⟨rfl, rfl, .setCtx rfl rfl⟩) fun _ => h.pure _

theorem createCtx (h : Creates K) : K (Hook.createCtx : Hook ρ (Option ℕ)) := by
  refine h.call (h.bind (h.invoke rfl fun _ => rfl) fun ctx => h.bind (h.when (h.exit _)) fun _ => ?_)
  refine h.bind h.get fun w => h.bind (h.when (h.exit _)) fun _ => h.bind h.evaluateId fun id => ?_
  cases id with
  | none => exact h.pure _
  | some id =>
    refine h.bind (h.newTransaction _ _) fun tx => h.bind (h.when (h.exit _)) fun _ => ?_
    refine h.bind (h.assign fun w => ⟨rfl, rfl, .install w tx⟩) fun _ => h.bind (h.addCleanup _) fun registered => ?_
    refine h.bind (h.when (h.exit _)) fun _ => h.bind (h.keepId _ _) fun kept => ?_
    exact h.bind (h.when (h.exit _)) fun _ => h.pure _

end Creates

/-! ## The handlers as nginx calls them -/

/-- a property of hooks that they have from the handler that runs on the context -/
structure Hooked (L : ∀ {ρ α : Type}, Handler ρ α → Prop) (K : ∀ {ρ α : Type}, Hook ρ α → Prop) : Prop extends
    Creates K where
  filtered : Filtered L
  onCtx : ∀ {ρ α : Type} (a : ℕ) (m : Handler ρ α), L m → K (Hook.onCtx a m)
  offCtx : ∀ {ρ α : Type} (m : Handler ρ α), L m → K (Hook.offCtx m)

/-- **Every handler** but the two that wait for the request body. -/
theorem Hooked.callback {L : ∀ {ρ α : Type}, Handler ρ α → Prop} {K : ∀ {ρ α : Type}, Hook ρ α → Prop} (h : Hooked L K)
    (callback : Callback) (hpre : callback ≠ .preAccess) (hread : callback ≠ .requestRead) : K callback.code := by
  cases callback with
  | rewrite =>
    refine h.bind h.get fun w => h.bind (h.when (h.exit _)) fun _ => ?_
    cases w.installed with
    | some a => exact h.pure _
    | none =>
      refine h.bind h.createCtx fun created => ?_
      cases created with
      | none => exact h.pure _
      | some a => exact h.onCtx a _ h.filtered.rewriteInspect
  | preAccess => exact absurd rfl hpre
  | requestRead => exact absurd rfl hread
  | header =>
    refine h.bind h.get fun w => ?_
    cases w.installed with
    | none => exact h.offCtx _ h.filtered.nextHeaderFilter
    | some a => exact h.onCtx a _ h.filtered.headerFilter
  | body inn =>
    refine h.bind h.get fun w => ?_
    cases w.installed with
    | none =>
      refine h.offCtx _ (h.filtered.bind (h.filtered.assign fun _ => ⟨rfl, rfl, rfl, rfl⟩) fun _ => ?_)
      exact h.filtered.nextBodyFilter _
    | some a => exact h.onCtx a _ (h.filtered.bodyFilter inn)
  | log =>
    refine h.bind h.get fun w => ?_
    cases w.installed with
    | none => exact h.pure _
    | some a => exact h.onCtx a _ h.filtered.logHandler

end CorazaNginx
