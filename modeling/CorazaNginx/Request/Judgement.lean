/-
Phase 2 judges the whole request body, or none of it.

`BodyDelivery` follows the entries in which nothing fails. Here is what holds of every entry of the pre-access handler,
on an error page or not, whatever cuts it short. What the engine is told of the body is its bytes (`some`) and that it
is to judge it (`none`): an entry tells it a prefix of the whole body with the verdict behind it, or the verdict alone
for a transaction that does not want the body (`Entered`). Over a run it is one entry at most that tells it of a body
(`whole_body_or_none`).
-/
import Mathlib.Tactic
import CorazaNginx.Lifecycle.Telling
import CorazaNginx.Request.BodyDelivery
import CorazaNginx.Request.Suspension

namespace CorazaNginx

open CorazaNginx.Core Prog Handler

variable {ρ α : Type} {e : Env} {s t u : St} {l : List (Option UInt8)}

/-! ## What the engine is told -/

/-- the bytes appended to the request body, and that phase 2 is evaluated -/
def Event.toldRequest : Event → List (Option UInt8)
  | .call (.engine _ (.appendRequestBody data _)) _ => data.map some
  | .call (.engine _ .processRequestBody) _ => [none]
  | _ => []

def Trace.toldRequest (t : Trace) : List (Option UInt8) := t.flatMap Event.toldRequest

abbrev Sends (s t : St) (l : List (Option UInt8)) : Prop := Tells Event.toldRequest s.trace t.trace l

abbrev SendsPart (s t : St) (l : List (Option UInt8)) : Prop := TellsPart Event.toldRequest s.trace t.trace l

/-- whatever it is called with -/
abbrev Submits (e : Env) (l : List (Option UInt8)) (m : Handler ρ α) : Prop := Speaks Event.toldRequest e l m

theorem toldRequest_ofEngine : OfEngine Event.toldRequest where
  poll := fun _ _ _ => rfl
  call := fun c _ h => by
    cases c with
    | engine tx c => exact absurd rfl (h tx c)
    | _ => rfl

/-- a block without a call that tells of the request body -/
theorem Keeps.submits {m : Handler ρ α} (h : Keeps (EngineCall.Untold Event.toldRequest) m) : Submits e [] m :=
  h.speaks toldRequest_ofEngine

theorem Confined.sends (h : Confined (EngineCall.Untold Event.toldRequest) s t) : Sends s t [] :=
  h.tells toldRequest_ofEngine

theorem processIntervention_sends {Q : ℤ → St → Prop} {E : ρ → St → Prop} (hQ : ∀ rc t, Sends s t [] → Q rc t) :
    wp (processIntervention false : Handler ρ ℤ) Q E e s :=
  processIntervention_tells toldRequest_ofEngine (fun _ _ _ => rfl) hQ

/-! ## A temp file -/

theorem pollBefore_sends (f : TempFile) (o : ℤ) {Q : Option ℤ → St → Prop} {E : ρ → St → Prop}
    (hnone : ∀ t, Sends s t [] → Q none t) (hsome : ∀ rc t, rc ≠ ngxOk → Sends s t [] → Q (some rc) t) :
    wp (pollBefore f o : Handler ρ (Option ℤ)) Q E e s := by
  unfold pollBefore
  refine (wp_ite _ _ _).2 ⟨fun _ => ?_, fun _ => hnone s (.refl _)⟩
  rw [pollChunk, wp_call, wp_bind]
  refine processIntervention_sends fun ret t ht => ?_
  rw [wp_bind, wp_get, wp_bind]
  refine (wp_when _ _).2 ⟨fun _ => hsome _ t (by decide) ht, fun _ => ?_⟩
  rw [wp_bind]
  refine (wp_when _ _).2 ⟨fun _ => hsome _ t (by decide) ht, fun _ => ?_⟩
  rw [wp_bind]
  refine (wp_when _ _).2 ⟨fun hpos => ?_, fun _ => hnone t ht⟩
  rw [wp_bind, wp_trigger, wp_exit]
  exact hsome ret _ hpos.ne' ht

/-- the bytes of a range of the file -/
def TempFile.script (f : TempFile) (c : Content) (o : ℤ) (n : ℕ) : List (Option UInt8) :=
  (c.range true f.file.id o n).map some

/-- the loop over a file: by induction on what is left of it -/
theorem requestFileLoop_sends (f : TempFile) (o : ℤ) {Q : ℤ → St → Prop} {E : ρ → St → Prop}
    (hok : ∀ t, Sends s t (f.script e.content o (f.offset - o).toNat) → Q ngxOk t)
    (hbad : ∀ rc t, rc ≠ ngxOk → SendsPart s t (f.script e.content o (f.offset - o).toNat) → Q rc t) :
    wp (requestFileLoop f o : Handler ρ ℤ) Q E e s := by
  generalize hk : (f.offset - o).toNat = k at hok hbad
  induction k using Nat.strong_induction_on generalizing o s with
  | _ k ih =>
    have hfail : ∀ t, Sends s t [] → Q ngxHttpInternalServerError t := fun t ht => hbad _ t (by decide) (.none ht _)
    rw [requestFileLoop]
    refine (wp_dite _ _ _).2 ⟨fun hlt => ?_, fun hlt => ?_⟩
    · rw [wp_bind, wp_readFile]
      set size := min (f.offset - o).toNat requestBodyFileChunkSize with hsize
      have hread : Sends s (s.log (.call (.readFile size o) (e.ret s.trace (.readFile size o)))) [] := .single _ _
      cases ReadResult.of size (e.ret s.trace (.readFile size o)) with
      | error => exact hfail _ hread
      | bytes m le =>
        refine (wp_dite _ _ _).2 ⟨fun _ => hfail _ hread, fun hm => ?_⟩
        have hmk : m ≤ k := hk ▸ le.trans (min_le_left _ _)
        have hsplit : f.script e.content o k = f.script e.content o m ++ f.script e.content (o + m) (k - m) := by
          rw [TempFile.script, TempFile.script, TempFile.script, ← List.map_append, ← Content.range_add,
            Nat.add_sub_cancel' hmk]
        rw [hsplit] at hok hbad
        simp only [wp_bind, wp_ask, wp_engine]
        set s1 := (s.log _).log _ with hs1
        have hchunk : Sends s s1 (f.script e.content o m) := hread.trans (.single _ _)
        refine (wp_ite _ _ _).2 ⟨fun _ => hbad _ _ (by decide) (hchunk.part _), fun _ => ?_⟩
        rw [wp_bind]
        refine pollBefore_sends f _ (fun t ht => ?_) (fun rc t hrc ht => hbad rc t hrc ((hchunk.idly ht).part _))
        have hnext : (f.offset - (o + m)).toNat = k - m := by omega
        refine ih (k - m) (by omega) (o + m) hnext (fun u hu => ?_) (fun rc u hrc hu => ?_)
        · exact hok u ((hchunk.idly ht).trans hu)
        · exact hbad rc u hrc ((hchunk.idly ht).after hu)
    · have h0 : k = 0 := by omega
      subst h0
      exact hok s (.refl _)

theorem appendRequestBodyFile_sends (f : TempFile) {Q : ℤ → St → Prop} {E : ρ → St → Prop}
    (hok : ∀ t, Sends s t (f.script e.content 0 f.offset.toNat) → Q ngxOk t)
    (hbad : ∀ rc t, rc ≠ ngxOk → SendsPart s t (f.script e.content 0 f.offset.toNat) → Q rc t) :
    wp (appendRequestBodyFile f : Handler ρ ℤ) Q E e s := by
  have hfail : ∀ t, Sends s t [] → Q ngxHttpInternalServerError t := fun t ht => hbad _ t (by decide) (.none ht _)
  rw [appendRequestBodyFile, wp_call, wp_bind]
  refine (wp_when _ _).2 ⟨fun h0 => ?_, fun _ => ?_⟩
  · rw [h0] at hok
    exact hok s (.refl _)
  rw [wp_bind]
  refine (wp_when _ _).2 ⟨fun _ => ?_, fun _ => ?_⟩
  · rw [wp_bind, wp_trigger, wp_exit]
    exact hfail _ (.refl _)
  rw [wp_bind, wp_invoke, wp_bind]
  set s1 := s.log (.call .openFile (e.ret s.trace .openFile)) with hs1
  have hopen : Sends s s1 [] := .single _ _
  refine (wp_when _ _).2 ⟨fun _ => ?_, fun _ => ?_⟩
  · rw [wp_bind, wp_trigger, wp_exit]
    exact hfail _ hopen
  rw [wp_bind]
  have hclose : ∀ t : St, Sends t (t.log (.call .closeFile (e.ret t.trace .closeFile))) [] := fun t => .single _ _
  refine requestFileLoop_sends f 0 (fun t ht => ?_) (fun rc t hrc ht => ?_)
  · rw [sub_zero] at ht
    rw [wp_bind, wp_invoke, wp_bind]
    refine (wp_when _ _).2 ⟨fun h => absurd rfl h.1, fun _ => ?_⟩
    exact hok _ (hopen.trans (ht.idly (hclose t)))
  · rw [sub_zero] at ht
    have hpart := hopen.after (ht.idly (hclose t))
    rw [wp_bind, wp_invoke, wp_bind]
    refine (wp_when _ _).2 ⟨fun _ => ?_, fun _ => hbad rc _ hrc hpart⟩
    rw [wp_trigger]
    exact hbad rc _ hrc hpart

/-! ## A body -/

/-- the loop over a chain: by induction on it -/
theorem appendChain_submits (l : List Buf) :
    Submits e (((upToLast l).flatMap (Buf.chunk e.content)).map some) (appendChain l) := by
  induction l with
  | nil => exact .pure ()
  | cons b l ih =>
    have hchunk : Submits e ((b.chunk e.content).map some) (do
        when (0 < sizeT (b.last - b.pos)) do
          let ret ← engine (.appendRequestBody (b.memBytes e.content) (cInt (sizeT (b.last - b.pos))))
          when (ret ≠ 0) do
            trigger
            exit ngxHttpInternalServerError : Handler ℤ Unit) := by
      have happ : Submits e ((b.memBytes e.content).map some ++ []) (do
          let ret ← engine (.appendRequestBody (b.memBytes e.content) (cInt (sizeT (b.last - b.pos))))
          when (ret ≠ 0) do
            trigger
            exit ngxHttpInternalServerError : Handler ℤ Unit) :=
        .bind (engine_speaks _ fun _ _ => rfl) fun _ => Keeps.submits (Keeps.when (Keeps.fail _))
      rw [List.append_nil] at happ
      rw [Buf.chunk, apply_ite (List.map some), List.map_nil]
      exact .when fun _ => happ
    have hrest : Submits e (if b.lastBuf then [] else ((upToLast l).flatMap (Buf.chunk e.content)).map some) (do
        if b.lastBuf then pure ()
        else
          afterPhasePoll (← processIntervention false)
          appendChain l : Handler ℤ Unit) := by
      refine .ite (fun _ => .pure ()) fun _ => ?_
      have hpoll : Submits e [] (processIntervention false : Handler ℤ ℤ) :=
        poll_speaks toldRequest_ofEngine fun _ _ _ => rfl
      exact .bind hpoll fun ret => .bind (Keeps.submits (afterPhasePoll_keeps ret)) fun _ => ih
    have hsplit : ((upToLast (b :: l)).flatMap (Buf.chunk e.content)).map some = (b.chunk e.content).map some ++
        if b.lastBuf then [] else ((upToLast l).flatMap (Buf.chunk e.content)).map some := by
      rw [upToLast]
      split_ifs <;> simp
    rw [hsplit]
    intro s hs
    rw [appendChain, wp_bind, wp_ask]
    exact Says.bind (Keeps.submits (Keeps.when (Keeps.fail _))) (fun _ => .bind hchunk fun _ => hrest) s hs

/-- **A body**, whole or a part of it. -/
theorem appendBody_submits (rb : RequestBody) : Submits e ((rb.chunks e.content).map some) (appendBody rb) := by
  unfold appendBody RequestBody.chunks
  cases rb.tempFile with
  | none => exact appendChain_submits rb.bufs
  | some f =>
    intro s _
    rw [wp_bind]
    refine appendRequestBodyFile_sends f (fun t ht => ?_) (fun rc t hrc ht => ?_)
    · exact (wp_when _ _).2 ⟨fun h => absurd rfl h, fun _ => ⟨trivial, ht⟩⟩
    · exact (wp_when _ _).2 ⟨fun _ => ⟨trivial, ht⟩, fun h => absurd hrc h⟩

/-! ## The verdict -/

/-- phase 2 is evaluated, whatever comes of it -/
theorem processRequestBodyPhase_sends {Q : ℤ → St → Prop} {E : ρ → St → Prop} (hQ : ∀ rc t, Sends s t [none] → Q rc t) :
    wp (processRequestBodyPhase : Handler ρ ℤ) Q E e s := by
  rw [processRequestBodyPhase, wp_call, wp_bind, wp_engine]
  have hverdict : ∀ rc, Sends s (s.log (.call (.engine s.ctx.corazaTransaction .processRequestBody) rc)) [none] :=
    fun rc => .single _ _
  have hbehind : Keeps (EngineCall.Untold Event.toldRequest) (do
      when (processBodyFailed (e.ret s.trace (.engine s.ctx.corazaTransaction .processRequestBody))) do
        trigger
        exit ngxHttpInternalServerError
      afterPhasePoll (← pollAfterProcess false (e.ret s.trace (.engine s.ctx.corazaTransaction .processRequestBody)))
      return ngxDeclined : Handler ℤ ℤ) := by
    refine Keeps.bind (Keeps.when (Keeps.fail _)) fun _ => ?_
    refine Keeps.bind (pollAfterProcess_keeps (fun _ _ _ => rfl) _) fun ret => ?_
    exact Keeps.bind (afterPhasePoll_keeps ret) fun _ => Keeps.pure _
  refine wp_mono (hbehind e _) (fun rc t ht => ?_) (fun rc t ht => ?_)
  · exact hQ rc t ((hverdict _).idly ht.sends)
  · exact hQ rc t ((hverdict _).idly ht.sends)

/-- what a body comes to: its bytes, and the verdict -/
def RequestBody.script (c : Content) (rb : RequestBody) : List (Option UInt8) := (rb.chunks c).map some ++ [none]

/-- submitting `rb` -/
theorem submitRequestBody_sends {rb : RequestBody} (hrb : s.r.requestBody = some rb) :
    wp submitRequestBody (fun _ _ => False) (fun _ t => SendsPart s t (rb.script e.content)) e s := by
  rw [submitRequestBody, wp_bind, wp_get, hrb, wp_bind, wp_modify]
  set s1 := s.setCtx { s.ctx with bodySubmitted := true } with hs1
  rw [wp_bind]
  refine wp_mono (appendBody_submits rb s1 trivial) (fun _ t ht => ?_) (fun rc t ht => ht.2.more _)
  rw [wp_bind]
  refine processIntervention_sends fun ret u hu => ?_
  have happended : Sends s u ((rb.chunks e.content).map some) := ht.2.idly hu
  rw [wp_bind]
  refine wp_mono (afterPhasePoll_keeps (P := EngineCall.Untold Event.toldRequest) ret e u) (fun _ v hv => ?_)
    (fun rc v hv => ?_)
  · rw [wp_bind]
    refine processRequestBodyPhase_sends fun rc w hw => ?_
    exact ((happended.idly hv.sends).trans hw).whole
  · exact (happended.idly hv.sends).part _

/-! ## One entry -/

/-- the bytes of the body nginx holds when the handler has it, if there is one -/
def heldBytes (e : Env) (s : St) : Bytes := ((heldBody e s).map (RequestBody.bytes e.content)).getD []

theorem heldBytes_of_held {rb : RequestBody} (h : heldBody e s = some rb) : heldBytes e s = rb.bytes e.content := by
  rw [heldBytes, h]
  rfl

/-- the engine is told nothing, and a context that has its body stays so -/
structure Silent (s t : St) : Prop where
  given : Sends s t []
  submitted : t.ctx.bodySubmitted = s.ctx.bodySubmitted
  requested : s.ctx.bodyRequested = true → t.ctx.bodyRequested = true

/-- the entry finds a transaction that does not want the body -/
def accessOff (e : Env) (s : St) : Bool :=
  !s.ctx.bodyRequested && e.ret s.trace (.engine s.ctx.corazaTransaction .isRequestBodyAccessible) == 0

/-- what an entry comes to for the engine -/
inductive Entered (e : Env) (s t : St) : Prop where
  /-- it is told nothing -/
  | aside (h : Silent s t)
  /-- it is to judge without the body -/
  | off (access : accessOff e s = true) (given : Sends s t [none])
  /-- it is told of a body -/
  | submitted (rb : RequestBody) (held : heldBody e s = some rb) (fresh : s.ctx.bodySubmitted = false)
      (given : SendsPart s t (rb.script e.content)) (marked : t.ctx.bodySubmitted = true)
      (asked : t.ctx.bodyRequested = true)

/-- asking for the body -/
theorem requestBodyAccess_enters (hw : s.ctx.waitingMoreBody = false) (hr : s.ctx.bodyRequested = false)
    {Q : Unit → St → Prop} {E : ℤ → St → Prop} (hE : ∀ rc t, Entered e s t → E rc t)
    (hgo : ∀ t, Sends s t [] → t.ctx = { s.ctx with bodyRequested := true } →
      t.r.requestBody = e.requestBody s.r.askBody → Q () t) : wp requestBodyAccess Q E e s := by
  rw [requestBodyAccess, wp_bind, wp_engine, wp_bind]
  have haccess : Sends s (s.log (accessEvent e s)) [] := .single _ _
  refine (wp_when _ _).2 ⟨fun h0 => ?_, fun _ => ?_⟩
  · rw [wp_bind]
    refine processRequestBodyPhase_sends fun rc t ht => ?_
    exact hE rc t (.off (by simp [accessOff, hr, h0]) (haccess.trans ht))
  · rw [wp_bind, wp_modify, wp_bind]
    refine readClientRequestBody_there ?_ fun rc t htr hctx hbody => ?_
    · exact hw
    have hread : Sends s t [] := haccess.trans ⟨[_], htr, rfl⟩
    have hasked : ∀ v : St, v.trace = t.trace → v.ctx.bodyRequested = t.ctx.bodyRequested →
        v.ctx.bodySubmitted = t.ctx.bodySubmitted → Entered e s v := by
      intro v hv hreq hsub
      refine .aside ⟨?_, ?_, fun _ => ?_⟩
      · rw [Sends, hv]
        exact hread
      · rw [hsub, hctx]
        rfl
      · rw [hreq, hctx]
        rfl
    rw [wp_bind]
    refine (wp_when _ _).2 ⟨fun _ => hE rc t (hasked t rfl rfl rfl), fun _ => ?_⟩
    refine (wp_when _ _).2 ⟨fun _ => ?_, fun _ => hgo t hread hctx hbody⟩
    rw [wp_bind, wp_modify, wp_exit]
    exact hE _ _ (hasked _ rfl rfl rfl)

/-- **One entry.** -/
theorem preAccessHandler_enters :
    wp (preAccessHandler : Handler ℤ ℤ) (fun _ t => Entered e s t) (fun _ t => Entered e s t) e s := by
  have stay : Entered e s s := .aside ⟨.refl _, rfl, fun h => h⟩
  rw [preAccessHandler, wp_call, wp_bind, wp_get, wp_bind]
  refine (wp_when _ _).2 ⟨fun _ => stay, fun _ => ?_⟩
  rw [wp_bind]
  refine (wp_when _ _).2 ⟨fun _ => stay, fun _ => ?_⟩
  rw [wp_bind]
  refine (wp_when _ _).2 ⟨fun _ => stay, fun hwait => ?_⟩
  have hw : s.ctx.waitingMoreBody = false := by simpa using hwait
  -- what is left once the body has been asked for
  have submit : ∀ u, Sends s u [] → u.ctx = { s.ctx with bodyRequested := true } → u.r.requestBody = heldBody e s →
      wp (do
        let s ← get
        when (!s.ctx.waitingMoreBody && !s.ctx.bodySubmitted) submitRequestBody
        return ngxDeclined : Handler ℤ ℤ) (fun _ t => Entered e s t) (fun _ t => Entered e s t) e u := by
    intro u hu hctx hheld
    have aside : Entered e s u := .aside ⟨hu, by rw [hctx], fun _ => by rw [hctx]⟩
    rw [wp_bind, wp_get, wp_bind]
    refine (wp_when _ _).2 ⟨fun hc => ?_, fun _ => aside⟩
    cases hrb : u.r.requestBody with
    | none =>
      rw [submitRequestBody, wp_bind, wp_get, hrb]
      exact aside
    | some rb =>
      have hfresh : s.ctx.bodySubmitted = false := by
        rw [hctx] at hc
        simpa [hw] using hc
      have hboth := wp_and (submitRequestBody_sends (e := e) hrb)
        (submitRequestBody_spec (e := e) (Q := fun _ _ => False) (E := Submitted u) (by simp [hrb]) fun _ _ h => h)
      refine wp_mono hboth (fun _ _ h => h.1.elim) fun rc t h => ?_
      refine .submitted rb (hheld.symm.trans hrb) hfresh ?_ h.2.submitted ?_
      · exact hu.after h.1
      · rw [h.2.requested, hctx]
  rw [wp_bind]
  refine (wp_when _ _).2 ⟨fun hnew => ?_, fun hold => ?_⟩
  · have hreq : s.ctx.bodyRequested = false := by simpa using hnew
    refine requestBodyAccess_enters hw hreq (fun _ _ h => h) fun t ht hctx hbody => submit t ht hctx ?_
    rw [hbody, heldBody, if_neg (by simp [hreq])]
  · have hreq : s.ctx.bodyRequested = true := by simpa using hold
    refine submit s (.refl _) ?_ ?_
    · rw [← hreq]
    · rw [heldBody, if_pos hreq]

/-! ## Runs -/

/-- how many entries of a run find a transaction that does not want the body -/
def offEntries (s : St) : List PhaseStep → ℕ
  | [] => 0
  | .handler e :: steps => (if accessOff e s then 1 else 0) + offEntries ((PhaseStep.handler e).next s) steps
  | step :: steps => offEntries (step.next s) steps

/-- a body an entry finds is well formed -/
def PhaseStep.HoldsValid (s : St) : PhaseStep → Prop
  | .handler e => ∀ rb, heldBody e s = some rb → rb.Valid
  | .bodyRead _ => True
  | .outside _ => True

/-- every body of a run is -/
def RunHoldsValid (s : St) : List PhaseStep → Prop
  | [] => True
  | step :: steps => step.HoldsValid s ∧ RunHoldsValid (step.next s) steps

/-- what the engine has been told over a run from `s` -/
inductive Judged (s : St) (steps : List PhaseStep) : Prop where
  /-- nothing of a body: it has judged transactions that do not want one -/
  | without (k : ℕ) (given : Sends s (phaseRun s steps) (List.replicate k none)) (unwanted : k ≤ offEntries s steps)
  /-- behind that, the body one entry has found or the first part of it, the verdict last -/
  | body (k : ℕ) (l : List (Option UInt8)) (pre : List PhaseStep) (e : Env) (post : List PhaseStep)
      (split : steps = pre ++ .handler e :: post) (given : Sends s (phaseRun s steps) (List.replicate k none ++ l))
      (unwanted : k ≤ offEntries s pre) (part : l <+: (heldBytes e (phaseRun s pre)).map some ++ [none])
      (marked : (phaseRun s steps).ctx.bodySubmitted = true ∧ (phaseRun s steps).ctx.bodyRequested = true)

variable {steps : List PhaseStep}

theorem phaseRun_concat (s : St) (steps : List PhaseStep) (step : PhaseStep) :
    phaseRun s (steps ++ [step]) = step.next (phaseRun s steps) := phaseRun_append s steps [step]

theorem offEntries_append (s : St) (a b : List PhaseStep) :
    offEntries s (a ++ b) = offEntries s a + offEntries (phaseRun s a) b := by
  induction a generalizing s with
  | nil => exact (Nat.zero_add _).symm
  | cons step a ih =>
    cases step with
    | handler e =>
      rw [List.cons_append, offEntries, offEntries, ih, Nat.add_assoc]
      rfl
    | bodyRead e => exact ih _
    | outside r => exact ih _

theorem RunHoldsValid.of_append {a b : List PhaseStep} (h : RunHoldsValid s (a ++ b)) :
    RunHoldsValid s a ∧ RunHoldsValid (phaseRun s a) b := by
  induction a generalizing s with
  | nil => exact ⟨trivial, h⟩
  | cons step a ih => exact ⟨⟨h.1, (ih h.2).1⟩, (ih h.2).2⟩

theorem Judged.silent (h : Judged s steps) (step : PhaseStep)
    (hs : Silent (phaseRun s steps) (step.next (phaseRun s steps))) :
    Judged s (steps ++ [step]) := by
  cases h with
  | without k hg hu =>
    refine .without k ?_ ?_
    · rw [phaseRun_concat]
      exact hg.idly hs.given
    · rw [offEntries_append]
      exact hu.trans (Nat.le_add_right _ _)
  | body k l pre e post hsplit hg hu hpart hm =>
    refine .body k l pre e (post ++ [step]) (by simp [hsplit]) ?_ hu hpart ?_
    · rw [phaseRun_concat]
      exact hg.idly hs.given
    · rw [phaseRun_concat]
      exact ⟨hs.submitted.trans hm.1, hs.requested hm.2⟩

theorem requestRead_silent : wp (requestRead : Handler ρ Unit) (fun _ => Silent s) (fun _ => Silent s) e s := by
  cases hw : s.ctx.waitingMoreBody with
  | true =>
    refine requestRead_waiting hw fun t ht => ?_
    obtain ⟨rc, htr⟩ := ht.trace
    refine ⟨⟨_, htr, rfl⟩, ?_, fun hr => ?_⟩
    · rw [ht.ctx]
    · rw [ht.ctx]
      exact hr
  | false =>
    refine requestRead_without hw fun t htr hctx _ => ⟨?_, ?_, fun hr => ?_⟩
    · rw [Sends, htr]
      exact .refl _
    · rw [hctx]
    · rw [hctx]
      exact hr

/-- one step of nginx: a body is told of only by an entry that finds nothing submitted -/
theorem Judged.concat (h : Judged s steps) (step : PhaseStep) (hvalid : step.HoldsValid (phaseRun s steps)) :
    Judged s (steps ++ [step]) := by
  cases step with
  | handler e =>
    have hentry : Entered e (phaseRun s steps) ((PhaseStep.handler e).next (phaseRun s steps)) :=
      run_state preAccessHandler_enters
    cases hentry with
    | aside hs => exact h.silent _ hs
    | off haccess hg =>
      cases h with
      | without k hg0 hu =>
        refine .without (k + 1) ?_ ?_
        · rw [phaseRun_concat, List.replicate_succ']
          exact hg0.trans hg
        · rw [offEntries_append, offEntries, if_pos haccess]
          exact Nat.add_le_add_right hu 1
      | body k l pre e' post hsplit hg0 hu hpart hm => simp [accessOff, hm.2] at haccess
    | submitted rb hheld hfresh hg hmarked hasked =>
      cases h with
      | without k hg0 hu =>
        obtain ⟨l, hl, hg⟩ := hg
        refine .body k l steps e [] rfl ?_ hu ?_ ?_
        · rw [phaseRun_concat]
          exact hg0.trans hg
        · rwa [RequestBody.script, (hvalid rb hheld).chunks_eq_bytes, ← heldBytes_of_held hheld] at hl
        · rw [phaseRun_concat]
          exact ⟨hmarked, hasked⟩
      | body k l pre e' post hsplit hg0 hu hpart hm => exact absurd (hm.1.symm.trans hfresh) (by decide)
  | bodyRead e => exact h.silent _ (run_state requestRead_silent)
  | outside r => exact h.silent _ ⟨.refl _, rfl, fun hr => hr⟩

/-- **Phase 2 judges the whole body, or none of it.** Whatever nginx, the file system and the engine answer over the
life of a context, what the engine is told of the request body is the body one entry has found or the first part of it,
and it is told to judge it only behind the last byte. Without a body it judges at most once for each entry that finds
the transaction not to want one. -/
theorem whole_body_or_none (s : St) (steps : List PhaseStep) (hvalid : RunHoldsValid s steps) : Judged s steps := by
  induction steps using List.reverseRecOn with
  | nil => exact .without 0 (.refl _) (Nat.zero_le _)
  | append_singleton steps step ih =>
    obtain ⟨hbefore, hstep, -⟩ := hvalid.of_append
    exact (ih hbefore).concat step hstep

/-- an engine that does not take the body -/
def rejectingEnv : Env := { suspendingEnv with
  ret := fun t call => match call with
    | .engine _ (.appendRequestBody ..) => -1
    | _ => suspendingEnv.ret t call }

/-- a request that is suspended, resumed with a body, and entered again -/
def refusedRun : List PhaseStep :=
  [.handler suspendingEnv, .outside { requestBody := some arrivingBody }, .bodyRead suspendingEnv,
    .handler rejectingEnv]

theorem refused_body_not_judged : Judged { r := {}, ctx := {} } refusedRun ∧
    (phaseRun { r := {}, ctx := {} } refusedRun).trace.toldRequest = [some 1, some 1] := by
  have hnone : heldBody suspendingEnv { r := {}, ctx := {} } = none := by decide +kernel
  have hsome : heldBody rejectingEnv (phaseRun { r := {}, ctx := {} } (refusedRun.take 3)) = some arrivingBody := by
    decide +kernel
  refine ⟨whole_body_or_none _ _ ⟨fun rb h => ?_, trivial, trivial, fun rb h => ?_, trivial⟩, by decide +kernel⟩
  · cases hnone.symm.trans h
  · exact Option.some.inj (hsome.symm.trans h) ▸ arrivingBody_valid

end CorazaNginx
