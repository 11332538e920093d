/-
Phase 2 over the life of one context.

The pre-access handler may suspend the request, be resumed by its body-read callback, and be entered again after it has
completed. `PhaseStep` is one such entry, with nginx free to change the request in between. What the handler remembers
is in `bodyRequested` and `bodySubmitted`; `Counted` says how the number of evaluations of phase 2 on the context's
transaction (`St.phase2`) relates to them, and every entry keeps it.

The flags do not record everything. An access-off evaluation leaves no mark, so a later entry evaluates again; a body
cut short by an error page stays marked as submitted; and a request without a body is let through unevaluated.
`PhaseStep.Recorded` is the condition that an entry meets none of the three, and `phase2_once` says that along a run of
such entries a request is let through only with phase 2 evaluated exactly once.
-/
import Mathlib.Tactic
import CorazaNginx.Spec.Poll
import CorazaNginx.Model.RequestPhases

namespace CorazaNginx

open CorazaNginx.Core Prog Handler

variable {ρ α : Type} {e : Env} {s t : St}

/-- coraza_process_request_body on the transaction `tx` -/
def Event.isPhase2 (tx : ℕ) : Event → Bool
  | .call (.engine tx' .processRequestBody) _ => tx' = tx
  | _ => false

theorem Event.isPhase2_of_aux {ev : Event} (tx : ℕ) (h : ev.isAux = true) : ev.isPhase2 tx = false := by
  cases ev with
  | poll => rfl
  | call c rc =>
    cases c with
    | engine tx' c => cases c <;> first | rfl | cases h
    | _ => rfl

/-- how often phase 2 has been evaluated on the context's transaction -/
def St.phase2 (s : St) : ℕ := s.trace.countP (Event.isPhase2 s.ctx.corazaTransaction)

/-! ## Everything but the evaluation -/

/-- phase 2 is not evaluated in between, and what the context remembers of it stays -/
structure Aside (s t : St) : Prop where
  tx : t.ctx.corazaTransaction = s.ctx.corazaTransaction
  phase2 : t.phase2 = s.phase2
  requested : t.ctx.bodyRequested = s.ctx.bodyRequested
  submitted : t.ctx.bodySubmitted = s.ctx.bodySubmitted
  waiting : s.ctx.waitingMoreBody = false → t.ctx.waitingMoreBody = false

theorem Aside.refl (s : St) : Aside s s := ⟨rfl, rfl, rfl, rfl, fun h => h⟩

theorem Aside.trans (s t u : St) (h : Aside s t) (h' : Aside t u) : Aside s u where
  tx := h'.tx.trans h.tx
  phase2 := h'.phase2.trans h.phase2
  requested := h'.requested.trans h.requested
  submitted := h'.submitted.trans h.submitted
  waiting := fun hw => h'.waiting (h.waiting hw)

theorem Aside.log {ev : Event} (h : ev.isPhase2 s.ctx.corazaTransaction = false) : Aside s (s.log ev) where
  tx := rfl
  phase2 := by
    rw [St.phase2, St.log_trace, St.log_ctx, List.countP_append, List.countP_singleton, h]
    exact Nat.add_zero _
  requested := rfl
  submitted := rfl
  waiting := fun hw => hw

theorem Aside.polled {evs : Trace} {h : HeadersOut} {l : Bool}
    (hevs : ∀ ev ∈ evs, ev.isPhase2 s.ctx.corazaTransaction = false) : Aside s (s.polled evs h l) where
  tx := rfl
  phase2 := by
    have hzero : evs.countP (Event.isPhase2 s.ctx.corazaTransaction) = 0 :=
      List.countP_eq_zero.2 fun ev hev => by rw [hevs ev hev]; exact Bool.false_ne_true
    change (s.trace ++ evs).countP (Event.isPhase2 s.ctx.corazaTransaction) = s.phase2
    rw [List.countP_append, hzero]
    exact Nat.add_zero _
  requested := rfl
  submitted := rfl
  waiting := fun hw => hw

/-- a return behind nothing of phase 2: the request is let through only for an error page -/
def Yielded (s : St) (rc : ℤ) (t : St) : Prop := Aside s t ∧ (rc = ngxDeclined → t.r.errorPage = true)

/-- a block that leaves phase 2 alone and lets the request through only for an error page -/
def Yields (m : Handler ℤ α) : Prop := Ends (fun _ => True) Aside Yielded m

theorem yields_composes : Composes (fun _ : St => True) Aside Yielded where
  refl := Aside.refl
  trans := Aside.trans
  keep := fun _ _ _ _ => trivial
  after := fun _ _ _ _ h h' => ⟨Aside.trans _ _ _ h h'.1, h'.2⟩

theorem Yields.engine {c : EngineCall} (h : c ≠ .processRequestBody) : Yields (Handler.engine c : Handler ℤ ℤ) := by
  intro e s _
  rw [wp_engine]
  refine Aside.log ?_
  cases c <;> first | rfl | exact absurd rfl h

theorem Yields.fail : Yields (do trigger; Prog.exit ngxHttpInternalServerError : Handler ℤ Unit) := by
  intro e s _
  rw [wp_bind, wp_trigger, wp_exit]
  exact ⟨⟨rfl, rfl, rfl, rfl, fun h => h⟩, fun h => absurd h (by decide)⟩

theorem poll_aside (early : Bool) {Q : ℤ → St → Prop} {E : ρ → St → Prop} (h : ∀ rc t, Aside s t → Q rc t) :
    wp (processIntervention early : Handler ρ ℤ) Q E e s := by
  refine processIntervention_spec early fun t evs h' l ht haux _ _ _ => ?_
  subst ht
  refine h _ _ (Aside.polled fun ev hev => ?_)
  rcases List.mem_cons.1 hev with rfl | hev
  · rfl
  · exact Event.isPhase2_of_aux _ (haux ev hev)

theorem Yields.poll (early : Bool) : Yields (processIntervention early : Handler ℤ ℤ) := fun _ _ _ =>
  poll_aside early fun _ _ h => h

theorem Yields.afterPoll (ret : ℤ) : Yields (afterPhasePoll ret) := by
  intro e s _
  rw [afterPhasePoll, wp_bind, wp_get, wp_bind]
  refine (wp_when _ _).2 ⟨fun hep => ⟨Aside.refl s, fun _ => hep⟩, fun _ => ?_⟩
  rw [wp_bind]
  refine (wp_when _ _).2 ⟨fun _ => Yields.fail e s trivial, fun _ => (wp_when _ _).2 ⟨fun hpos => ?_, fun _ => ?_⟩⟩
  · rw [wp_bind, wp_trigger, wp_exit]
    refine ⟨⟨rfl, rfl, rfl, rfl, fun h => h⟩, fun hd => ?_⟩
    rw [hd] at hpos
    cases hpos
  · exact Aside.refl s

/-! ## The body -/

theorem pollBefore_yields (f : TempFile) (o : ℤ) {Q : Option ℤ → St → Prop} {E : ρ → St → Prop}
    (hnone : ∀ t, Aside s t → Q none t) (hsome : ∀ rc t, Yielded s rc t → Q (some rc) t) :
    wp (pollBefore f o : Handler ρ (Option ℤ)) Q E e s := by
  unfold pollBefore
  refine (wp_ite _ _ _).2 ⟨fun _ => ?_, fun _ => hnone s (Aside.refl s)⟩
  rw [pollChunk, wp_call, wp_bind]
  refine poll_aside false fun ret t ht => ?_
  rw [wp_bind, wp_get, wp_bind]
  refine (wp_when _ _).2 ⟨fun hep => hsome _ _ ⟨ht, fun _ => hep⟩, fun _ => ?_⟩
  rw [wp_bind]
  refine (wp_when _ _).2 ⟨fun _ => hsome _ _ ⟨ht, fun h => absurd h (by decide)⟩, fun _ => ?_⟩
  rw [wp_bind]
  refine (wp_when _ _).2 ⟨fun hpos => ?_, fun _ => hnone t ht⟩
  rw [wp_bind, wp_trigger, wp_exit]
  refine hsome _ _ ⟨Aside.trans _ _ _ ht ⟨rfl, rfl, rfl, rfl, fun h => h⟩, fun hd => ?_⟩
  rw [hd] at hpos
  cases hpos

/-- the loop over a file: by induction on what is left of it -/
theorem requestFileLoop_yields (f : TempFile) (o : ℤ) {Q : ℤ → St → Prop} {E : ρ → St → Prop}
    (hQ : ∀ rc t, Yielded s rc t → Q rc t) : wp (requestFileLoop f o : Handler ρ ℤ) Q E e s := by
  induction hn : (f.offset - o).toNat using Nat.strong_induction_on generalizing o s with
  | _ n ih =>
    have hfail : ∀ t, Aside s t → Q ngxHttpInternalServerError t :=
      fun t ht => hQ _ _ ⟨ht, fun h => absurd h (by decide)⟩
    rw [requestFileLoop]
    refine (wp_dite _ _ _).2 ⟨fun hlt => ?_, fun _ => hQ _ _ ⟨Aside.refl s, fun h => absurd h (by decide)⟩⟩
    rw [wp_bind, wp_readFile]
    have hread : Aside s (s.log (.call (.readFile (min (f.offset - o).toNat requestBodyFileChunkSize) o)
        (e.ret s.trace (.readFile (min (f.offset - o).toNat requestBodyFileChunkSize) o)))) := Aside.log rfl
    generalize ReadResult.of _ _ = res
    cases res with
    | error => exact hfail _ hread
    | bytes k hk =>
      refine (wp_dite _ _ _).2 ⟨fun _ => hfail _ hread, fun hk0 => ?_⟩
      rw [wp_bind, wp_ask, wp_bind, wp_engine]
      set t1 := (s.log _).log _ with ht1
      have h1 : Aside s t1 := Aside.trans _ _ _ hread (Aside.log rfl)
      refine (wp_ite _ _ _).2 ⟨fun _ => hfail _ h1, fun _ => ?_⟩
      rw [wp_bind]
      refine pollBefore_yields f _ (fun t ht => ?_) (fun rc t ht => ?_)
      · have h2 := Aside.trans s t1 t h1 ht
        have hsmaller : (f.offset - (o + (k : ℤ))).toNat < n := by omega
        refine ih _ hsmaller (o + (k : ℤ)) (fun rc u hu => hQ rc u ?_) rfl
        exact ⟨Aside.trans s t u h2 hu.1, hu.2⟩
      · exact hQ _ _ ⟨Aside.trans s t1 t h1 ht.1, ht.2⟩

theorem appendRequestBodyFile_yields (f : TempFile) {Q : ℤ → St → Prop} {E : ρ → St → Prop}
    (hQ : ∀ rc t, Yielded s rc t → Q rc t) : wp (appendRequestBodyFile f : Handler ρ ℤ) Q E e s := by
  rw [appendRequestBodyFile, wp_call, wp_bind]
  refine (wp_when _ _).2 ⟨fun _ => hQ _ _ ⟨Aside.refl s, fun h => absurd h (by decide)⟩, fun _ => ?_⟩
  rw [wp_bind]
  refine (wp_when _ _).2 ⟨fun _ => ?_, fun _ => ?_⟩
  · rw [wp_bind, wp_trigger, wp_exit]
    exact hQ _ _ ⟨⟨rfl, rfl, rfl, rfl, fun h => h⟩, fun h => absurd h (by decide)⟩
  have hopen : Aside s (s.log (.call .openFile (e.ret s.trace .openFile))) := Aside.log rfl
  rw [wp_bind, wp_invoke, wp_bind]
  refine (wp_when _ _).2 ⟨fun _ => ?_, fun _ => ?_⟩
  · rw [wp_bind, wp_trigger, wp_exit]
    exact hQ _ _ ⟨Aside.trans _ _ _ hopen ⟨rfl, rfl, rfl, rfl, fun h => h⟩, fun h => absurd h (by decide)⟩
  rw [wp_bind]
  refine requestFileLoop_yields (s := s.log _) f 0 fun rc t ht => ?_
  have hclose : Aside t (t.log (.call .closeFile (e.ret t.trace .closeFile))) := Aside.log rfl
  have hdone := Aside.trans _ _ _ hopen (Aside.trans _ _ _ ht.1 hclose)
  rw [wp_bind, wp_invoke, wp_bind]
  refine (wp_when _ _).2 ⟨fun hrc => ?_, fun _ => hQ _ _ ⟨hdone, ht.2⟩⟩
  rw [wp_trigger]
  exact hQ _ _ ⟨Aside.trans _ _ _ hdone ⟨rfl, rfl, rfl, rfl, fun h => h⟩, fun h => absurd h hrc.2⟩

theorem appendChain_yields (l : List Buf) : Yields (appendChain l) := by
  induction l with
  | nil => exact Ends.pure yields_composes ()
  | cons b l ih =>
    have hcall : ∀ data len, Yields (do
        let ret ← engine (.appendRequestBody data len)
        when (ret ≠ 0) do
          trigger
          exit ngxHttpInternalServerError : Handler ℤ Unit) :=
      fun _ _ => Ends.bind yields_composes (Yields.engine (by simp)) fun _ => Ends.when yields_composes Yields.fail
    intro e s hs
    rw [appendChain, wp_bind, wp_ask]
    refine Ends.bind yields_composes (Ends.when yields_composes Yields.fail) (fun _ => ?_) e s hs
    refine Ends.bind yields_composes (Ends.when yields_composes (hcall _ _)) fun _ => ?_
    refine Ends.ite (Ends.pure yields_composes ()) (Ends.bind yields_composes (Yields.poll false) fun ret => ?_)
    exact Ends.bind yields_composes (Yields.afterPoll ret) fun _ => ih

theorem appendBody_yields (rb : RequestBody) : Yields (appendBody rb) := by
  unfold appendBody
  cases rb.tempFile with
  | some f =>
    intro e s _
    rw [wp_bind]
    refine appendRequestBodyFile_yields f fun rc t ht => ?_
    exact (wp_when _ _).2 ⟨fun _ => ht, fun _ => ht.1⟩
  | none => exact appendChain_yields rb.bufs

/-! ## The evaluation -/

/-- phase 2 evaluated on the context's transaction, with the engine's answer -/
def St.evaluated (e : Env) (s : St) : St :=
  s.log (.call (.engine s.ctx.corazaTransaction .processRequestBody)
    (e.ret s.trace (.engine s.ctx.corazaTransaction .processRequestBody)))

theorem St.evaluated_phase2 (e : Env) (s : St) : (s.evaluated e).phase2 = s.phase2 + 1 := by
  have h : Event.isPhase2 s.ctx.corazaTransaction (.call (.engine s.ctx.corazaTransaction .processRequestBody)
      (e.ret s.trace (.engine s.ctx.corazaTransaction .processRequestBody))) = true := by simp [Event.isPhase2]
  rw [St.phase2, St.evaluated, St.log_trace, St.log_ctx, List.countP_append, List.countP_singleton, h]
  rfl

theorem processRequestBodyPhase_spec {Q : ℤ → St → Prop} {E : ρ → St → Prop}
    (hQ : ∀ rc t, Aside (s.evaluated e) t → Q rc t) : wp (processRequestBodyPhase : Handler ρ ℤ) Q E e s := by
  rw [processRequestBodyPhase, wp_call, wp_bind, wp_engine]
  change wp _ Q Q e (s.evaluated e)
  have hpoll : ∀ u, Aside (s.evaluated e) u → ∀ ret, wp (do
      afterPhasePoll ret
      return ngxDeclined : Handler ℤ ℤ) Q Q e u := by
    intro u hu ret
    rw [wp_bind]
    refine wp_mono (Yields.afterPoll ret e u trivial) (fun _ v hv => ?_) (fun rc v hv => ?_)
    · exact hQ _ _ (Aside.trans _ _ _ hu hv)
    · exact hQ _ _ (Aside.trans _ _ _ hu hv.1)
  rw [wp_bind]
  refine (wp_when _ _).2 ⟨fun _ => ?_, fun _ => ?_⟩
  · rw [wp_bind, wp_trigger, wp_exit]
    exact hQ _ _ ⟨rfl, rfl, rfl, rfl, fun h => h⟩
  · rw [wp_bind]
    refine pollAfterProcess_spec false _ (fun _ => ?_) (fun _ _ => ?_) (fun _ => ?_)
    · exact hpoll _ (Aside.refl _) _
    · exact hpoll _ (Aside.refl _) _
    · exact poll_aside false fun ret u hu => hpoll u hu ret

/-- a body has been submitted: phase 2 is evaluated once more, or the submission ended early -/
structure Submitted (s : St) (rc : ℤ) (t : St) : Prop where
  tx : t.ctx.corazaTransaction = s.ctx.corazaTransaction
  requested : t.ctx.bodyRequested = s.ctx.bodyRequested
  submitted : t.ctx.bodySubmitted = true
  phase2 : t.phase2 = s.phase2 + 1 ∨ (t.phase2 = s.phase2 ∧ (rc = ngxDeclined → t.r.errorPage = true))

theorem submitRequestBody_spec (hb : s.r.requestBody ≠ none) {Q : Unit → St → Prop} {E : ℤ → St → Prop}
    (hE : ∀ rc t, Submitted s rc t → E rc t) : wp submitRequestBody Q E e s := by
  obtain ⟨rb, hrb⟩ := Option.ne_none_iff_exists'.1 hb
  rw [submitRequestBody, wp_bind, wp_get, hrb, wp_bind, wp_modify]
  set s1 := s.setCtx { s.ctx with bodySubmitted := true } with hs1
  -- an early end
  have early : ∀ {rc t}, Yielded s1 rc t → E rc t := fun {rc t} ht =>
    hE rc t ⟨ht.1.tx, ht.1.requested, ht.1.submitted, Or.inr ⟨ht.1.phase2, ht.2⟩⟩
  rw [wp_bind]
  refine wp_mono (appendBody_yields rb e s1 trivial) (fun _ t ht => ?_) (fun _ _ h => early h)
  rw [wp_bind]
  refine poll_aside false fun ret u hu => ?_
  have hsu := Aside.trans _ _ _ ht hu
  rw [wp_bind]
  refine wp_mono (Yields.afterPoll ret e u trivial) (fun _ v hv => ?_) (fun rc v hv => ?_)
  · have hsv := Aside.trans _ _ _ hsu hv
    rw [wp_bind]
    refine processRequestBodyPhase_spec fun rc w hw => ?_
    have hcount : w.phase2 = s.phase2 + 1 := by
      rw [hw.phase2, St.evaluated_phase2, hsv.phase2]
      rfl
    exact hE rc w ⟨hw.tx.trans hsv.tx, hw.requested.trans hsv.requested, hw.submitted.trans hsv.submitted,
      Or.inl hcount⟩
  · exact early ⟨Aside.trans _ _ _ hsu hv.1, hv.2⟩

/-! ## One entry -/

/-- the request as the handler leaves it when it asks for the body -/
def Request.askBody (r : Request) : Request :=
  { r with
    requestBodyInPersistentFile := true
    requestBodyInCleanFile := r.requestBodyInCleanFile || !r.requestBodyInFileOnly }

/-- whether the engine wants the body -/
def accessEvent (e : Env) (s : St) : Event :=
  .call (.engine s.ctx.corazaTransaction .isRequestBodyAccessible)
    (e.ret s.trace (.engine s.ctx.corazaTransaction .isRequestBodyAccessible))

/-- what nginx answers when it is asked for the body -/
def readAnswer (e : Env) (s : St) : ℤ := e.ret (s.trace ++ [accessEvent e s]) .readClientRequestBody

/-- the handler asks for the body and has it at once -/
def HasBodyAtOnce (e : Env) (s : St) : Prop :=
  e.ret s.trace (.engine s.ctx.corazaTransaction .isRequestBodyAccessible) ≠ 0 ∧ readAnswer e s ≠ ngxError ∧
    readAnswer e s < ngxHttpSpecialResponse ∧ readAnswer e s ≠ ngxAgain

/-- the context's flags tell what has become of phase 2, and there is a body to submit -/
structure Recorded (e : Env) (s : St) : Prop where
  /-- no evaluation behind an access-off answer -/
  counted : s.ctx.bodyRequested = false → s.phase2 = 0
  /-- a submission that evaluated nothing was cut short by the error page still on the wire -/
  yielded : s.ctx.bodySubmitted = true → s.phase2 = 0 → s.r.errorPage = true
  /-- the body asked for is there -/
  resumed : s.ctx.bodyRequested = true → s.ctx.bodySubmitted = false → s.r.requestBody ≠ none
  asked : s.ctx.bodyRequested = false → HasBodyAtOnce e s → e.requestBody s.r.askBody ≠ none

/-- how the evaluations so far relate to the flags -/
structure Counted (s : St) : Prop where
  once : s.phase2 ≤ 1
  order : s.ctx.bodySubmitted = true → s.ctx.bodyRequested = true
  pending : s.ctx.bodyRequested = true → s.ctx.bodySubmitted = false → s.phase2 = 0

/-- what a return of the handler leaves: the flags still tell, and a request let through has been evaluated once -/
def Let (rc : ℤ) (t : St) : Prop :=
  Counted t ∧ (rc = ngxDeclined → t.r.loc.enable = 1 → t.r.errorPage = false → t.ctx.interventionTriggered = false →
    t.phase2 = 1)

theorem Submitted.let {rc : ℤ} (h : Submitted s rc t) (hreq : s.ctx.bodyRequested = true) (h0 : s.phase2 = 0) :
    Let rc t := by
  refine ⟨⟨?_, fun _ => h.requested.trans hreq, fun _ hs => absurd (h.submitted.symm.trans hs) (by decide)⟩, ?_⟩
  · rcases h.phase2 with h1 | ⟨h1, -⟩
    · omega
    · omega
  · intro hrc _ hep _
    rcases h.phase2 with h1 | ⟨-, h1⟩
    · omega
    · rw [h1 hrc] at hep
      cases hep

/-- nginx has called the callback: the body is as it was -/
theorem requestRead_spec {Q : Unit → St → Prop} {E : ρ → St → Prop}
    (hQ : ∀ t, Aside s t → t.r.requestBody = s.r.requestBody → Q () t) : wp (requestRead : Handler ρ Unit) Q E e s := by
  rw [requestRead, wp_bind, wp_modify, wp_bind, wp_get]
  have h1 : Aside s (s.setR s.r.release) := ⟨rfl, rfl, rfl, rfl, fun h => h⟩
  refine (wp_when _ _).2 ⟨fun _ => ?_, fun _ => hQ _ h1 rfl⟩
  rw [wp_bind, wp_modify, wp_bind, wp_invoke]
  have h2 : Aside s ((s.setR s.r.release).setCtx { s.ctx with waitingMoreBody := false }) :=
    ⟨rfl, rfl, rfl, rfl, fun _ => rfl⟩
  refine hQ _ (Aside.trans _ _ _ h2 ?_) rfl
  exact Aside.log rfl

theorem readClientRequestBody_spec {Q : ℤ → St → Prop} {E : ρ → St → Prop}
    (hQ : ∀ t, Aside s t → t.r.requestBody = e.requestBody s.r → Q (e.ret s.trace .readClientRequestBody) t) :
    wp (readClientRequestBody : Handler ρ ℤ) Q E e s := by
  rw [readClientRequestBody, wp_bind, wp_ask, wp_bind, wp_invoke, wp_bind, wp_modify, wp_bind]
  generalize e.ret s.trace .readClientRequestBody = rc at hQ ⊢
  have h1 : Aside s ((s.log (.call .readClientRequestBody rc)).setR (s.r.bodyRead e rc)) :=
    Aside.trans _ _ _ (Aside.log rfl) ⟨rfl, rfl, rfl, rfl, fun h => h⟩
  refine (wp_when _ _).2 ⟨fun _ => requestRead_spec fun t ht hbody => ?_, fun _ => hQ _ h1 rfl⟩
  exact hQ t (Aside.trans _ _ _ h1 ht) hbody

/-- the body has been asked for -/
structure Asked (e : Env) (s t : St) : Prop where
  phase2 : t.phase2 = s.phase2
  requested : t.ctx.bodyRequested = true
  submitted : t.ctx.bodySubmitted = s.ctx.bodySubmitted
  body : t.r.requestBody = e.requestBody s.r.askBody

/-- asking for the body: the access-off evaluation, a suspension or a failure, or the body is there -/
theorem requestBodyAccess_spec {Q : Unit → St → Prop} {E : ℤ → St → Prop}
    (hoff : ∀ rc t, t.phase2 = s.phase2 + 1 → t.ctx.bodyRequested = s.ctx.bodyRequested →
      t.ctx.bodySubmitted = s.ctx.bodySubmitted → E rc t)
    (hstop : ∀ rc t, rc ≠ ngxDeclined → Asked e s t → E rc t)
    (hgo : ∀ t, HasBodyAtOnce e s → Asked e s t → (s.ctx.waitingMoreBody = false → t.ctx.waitingMoreBody = false) →
      Q () t) : wp requestBodyAccess Q E e s := by
  have h1 : Aside s (s.log (accessEvent e s)) := Aside.log rfl
  rw [requestBodyAccess, wp_bind, wp_engine, wp_bind]
  change wp _ _ E e (s.log (accessEvent e s))
  refine (wp_when _ _).2 ⟨fun _ => ?_, fun hacc => ?_⟩
  · rw [wp_bind]
    refine processRequestBodyPhase_spec fun rc t ht => hoff rc t ?_ ht.requested ht.submitted
    rw [ht.phase2, St.evaluated_phase2, h1.phase2]
  · have tail : ∀ t, Asked e s t → (s.ctx.waitingMoreBody = false → t.ctx.waitingMoreBody = false) → wp (do
        when (readAnswer e s = ngxError ∨ ngxHttpSpecialResponse ≤ readAnswer e s) do exit (readAnswer e s)
        when (readAnswer e s = ngxAgain) do
          modify fun s => s.setCtx { s.ctx with waitingMoreBody := true }
          exit ngxDone : Handler ℤ Unit) Q E e t := by
      intro t ht hw
      rw [wp_bind]
      refine (wp_when _ _).2 ⟨fun hbad => hstop _ t ?_ ht, fun hgood => ?_⟩
      · intro hd
        rw [hd] at hbad
        rcases hbad with hbad | hbad <;> cases hbad
      · rw [not_or, not_le] at hgood
        refine (wp_when _ _).2 ⟨fun _ => ?_, fun hagain => hgo t ⟨hacc, hgood.1, hgood.2, hagain⟩ ht hw⟩
        rw [wp_bind, wp_modify, wp_exit]
        exact hstop _ _ (by decide) ⟨ht.phase2, ht.requested, ht.submitted, ht.body⟩
    rw [wp_bind, wp_modify, wp_bind]
    refine readClientRequestBody_spec fun t ht hbody => tail t ⟨?_, ht.requested, ht.submitted, hbody⟩ ht.waiting
    exact ht.phase2.trans h1.phase2

/-- what is left of the handler once the body has been asked for -/
theorem submit_let (h : Counted s) (hreq : s.ctx.bodyRequested = true) (hw : s.ctx.waitingMoreBody = false)
    (hyield : s.ctx.bodySubmitted = true → s.phase2 = 0 → s.r.errorPage = true)
    (hb : s.ctx.bodySubmitted = false → s.r.requestBody ≠ none) :
    wp (do
      let s ← get
      when (!s.ctx.waitingMoreBody && !s.ctx.bodySubmitted) submitRequestBody
      return ngxDeclined : Handler ℤ ℤ) Let Let e s := by
  rw [wp_bind, wp_get, wp_bind]
  refine (wp_when _ _).2 ⟨fun hc => ?_, fun hc => ?_⟩
  · have hsub : s.ctx.bodySubmitted = false := by simpa [hw] using hc
    exact submitRequestBody_spec (hb hsub) fun rc t ht => ht.let hreq (h.pending hreq hsub)
  · have hsub : s.ctx.bodySubmitted = true := by simpa [hw] using hc
    refine ⟨h, fun _ _ hep _ => ?_⟩
    have hne : s.phase2 ≠ 0 := fun h0 => by
      rw [hyield hsub h0] at hep
      cases hep
    have honce := h.once
    omega

/-- **One entry.** From a context whose flags tell what has become of phase 2, the handler leaves one, and lets the
request through only evaluated once. -/
theorem preAccessHandler_let (h : Counted s) (hrec : s.r.loc.enable = 1 → s.ctx.interventionTriggered = false →
    s.ctx.waitingMoreBody = false → Recorded e s) : wp (preAccessHandler : Handler ℤ ℤ) Let Let e s := by
  rw [preAccessHandler, wp_call, wp_bind, wp_get, wp_bind]
  refine (wp_when _ _).2 ⟨fun hoff => ⟨h, fun _ hon => absurd hon hoff⟩, fun hon => ?_⟩
  rw [wp_bind]
  refine (wp_when _ _).2 ⟨fun ht => ⟨h, fun _ _ _ hf => absurd (ht.symm.trans hf) (by decide)⟩, fun ht => ?_⟩
  rw [wp_bind]
  refine (wp_when _ _).2 ⟨fun _ => ⟨h, fun hd => absurd hd (by decide)⟩, fun hw => ?_⟩
  have hw' : s.ctx.waitingMoreBody = false := by simpa using hw
  obtain hrec := hrec (not_not.1 hon) (by simpa using ht) hw'
  rw [wp_bind]
  refine (wp_when _ _).2 ⟨fun hnew => ?_, fun hold => ?_⟩
  · have hreq : s.ctx.bodyRequested = false := by simpa using hnew
    have hsub : s.ctx.bodySubmitted = false := by
      by_contra hc
      have hreq' := h.order (by simpa using hc)
      rw [hreq] at hreq'
      cases hreq'
    have h0 := hrec.counted hreq
    -- whatever has been asked for, nothing has been evaluated yet
    have hcounted : ∀ t, Asked e s t → Counted t := fun t ht =>
      ⟨by rw [ht.phase2, h0]; decide, fun _ => ht.requested, fun _ _ => ht.phase2.trans h0⟩
    refine requestBodyAccess_spec (fun rc t hp hr hs => ?_) (fun rc t hd ht => ?_) (fun t hbody ht hw => ?_)
    · rw [h0] at hp
      refine ⟨⟨hp.le, fun hc => ?_, fun hc => ?_⟩, fun _ _ _ _ => hp⟩
      · exact absurd (hsub.symm.trans (hs.symm.trans hc)) (by decide)
      · exact absurd (hreq.symm.trans (hr.symm.trans hc)) (by decide)
    · exact ⟨hcounted t ht, fun hdecl => absurd hdecl hd⟩
    · refine submit_let (hcounted t ht) ht.requested (hw hw') (fun hs => ?_) fun _ => ?_
      · exact absurd (hsub.symm.trans (ht.submitted.symm.trans hs)) (by decide)
      · rw [ht.body]
        exact hrec.asked hreq hbody
  · have hreq : s.ctx.bodyRequested = true := by simpa using hold
    exact submit_let h hreq hw' hrec.yielded (hrec.resumed hreq)

/-! ## Runs -/

/-- what nginx does with the request around phase 2, on one context -/
inductive PhaseStep where
  /-- the pre-access handler -/
  | handler (e : Env)
  /-- the body-read callback; the phase run it starts is the next step -/
  | bodyRead (e : Env)
  /-- nginx changes the request -/
  | outside (r : Request)

def PhaseStep.next (s : St) : PhaseStep → St
  | .handler e => ((preAccessHandler : Handler ℤ ℤ).run e s).2
  | .bodyRead e => ((requestRead : Handler Unit Unit).run e s).2
  | .outside r => s.setR r

def phaseRun (s : St) (steps : List PhaseStep) : St := steps.foldl PhaseStep.next s

@[simp] theorem phaseRun_cons (s : St) (step : PhaseStep) (steps : List PhaseStep) :
    phaseRun s (step :: steps) = phaseRun (step.next s) steps := rfl

/-- an entry that is not turned away at once finds the flags to tell what has become of phase 2 -/
def PhaseStep.Recorded (s : St) : PhaseStep → Prop
  | .handler e => s.r.loc.enable = 1 → s.ctx.interventionTriggered = false → s.ctx.waitingMoreBody = false →
      CorazaNginx.Recorded e s
  | .bodyRead _ => True
  | .outside _ => True

/-- every entry of a run does -/
def RunRecorded (s : St) : List PhaseStep → Prop
  | [] => True
  | step :: steps => step.Recorded s ∧ RunRecorded (step.next s) steps

/-- a context no handler of the phase has seen -/
structure FreshCtx (s : St) : Prop where
  phase2 : s.phase2 = 0
  requested : s.ctx.bodyRequested = false
  submitted : s.ctx.bodySubmitted = false

theorem FreshCtx.counted (h : FreshCtx s) : Counted s where
  once := by rw [h.phase2]; decide
  order := fun hs => absurd (h.submitted.symm.trans hs) (by decide)
  pending := fun _ _ => h.phase2

theorem Counted.step (h : Counted s) (step : PhaseStep) (hrec : step.Recorded s) : Counted (step.next s) := by
  cases step with
  | handler e =>
    have hlet : Let _ _ := (wp_run (Q := Let) preAccessHandler).1 (preAccessHandler_let h hrec)
    exact hlet.1
  | bodyRead e =>
    refine run_state (m := requestRead) (P := Counted) (requestRead_spec fun t ht _ => ?_)
    refine ⟨by rw [ht.phase2]; exact h.once, fun hs => ?_, fun hr hs => ?_⟩
    · exact ht.requested.trans (h.order (ht.submitted.symm.trans hs))
    · exact ht.phase2.trans (h.pending (ht.requested.symm.trans hr) (ht.submitted.symm.trans hs))
  | outside r => exact ⟨h.once, h.order, h.pending⟩

theorem Counted.run (h : Counted s) (steps : List PhaseStep) (hrec : RunRecorded s steps) :
    Counted (phaseRun s steps) := by
  induction steps generalizing s with
  | nil => exact h
  | cons step steps ih => exact ih (h.step step hrec.1) hrec.2

theorem runRecorded_append {a b : List PhaseStep} :
    RunRecorded s (a ++ b) ↔ RunRecorded s a ∧ RunRecorded (phaseRun s a) b := by
  induction a generalizing s with
  | nil => simp [RunRecorded, phaseRun]
  | cons step a ih => rw [List.cons_append, RunRecorded, RunRecorded, ih, and_assoc, phaseRun_cons]

/-- **Exactly once.** In a run of entries that find the flags to tell what has become of phase 2, whenever the handler
lets a request through with the module on, no error page on the wire and no intervention, phase 2 has been evaluated on
the context's transaction exactly once in total. -/
theorem phase2_once (s : St) (hfresh : FreshCtx s) (steps : List PhaseStep) (e : Env)
    (hrec : RunRecorded s (steps ++ [.handler e])) :
    let out := (preAccessHandler : Handler ℤ ℤ).run e (phaseRun s steps)
    out.1 = ngxDeclined → out.2.r.loc.enable = 1 → out.2.r.errorPage = false →
      out.2.ctx.interventionTriggered = false → out.2.phase2 = 1 := by
  obtain ⟨hsteps, hlast, -⟩ := runRecorded_append.1 hrec
  have hcounted := hfresh.counted.run steps hsteps
  have hlet : Let _ _ := (wp_run (Q := Let) preAccessHandler).1 (preAccessHandler_let hcounted hlast)
  exact hlet.2

/-- an engine that answers `access` when asked whether it wants the body -/
def accessEnv (access : ℤ) (body : Option RequestBody) : Env := { Env.calm (.fill 1) with
  requestBody := fun _ => body
  ret := fun t call => match call with
    | .engine _ .isRequestBodyAccessible => access
    | _ => (Env.calm (.fill 1)).ret t call }

/-- the body is wanted, and the read of it is answered with NGX_AGAIN -/
def suspendingEnv : Env := { accessEnv 1 none with
  ret := fun t call => match call with
    | .readClientRequestBody => ngxAgain
    | _ => (accessEnv 1 none).ret t call }

/-- the request is suspended, its body arrives, nginx calls back and enters the handler again -/
def resumedRun : List PhaseStep :=
  [.handler suspendingEnv, .outside { requestBody := some {} }, .bodyRead (accessEnv 1 none),
    .handler (accessEnv 1 none)]

/-- a suspended run, and one more entry behind the submission -/
theorem phase2_once_resumed :
    ((preAccessHandler : Handler ℤ ℤ).run (accessEnv 1 none) (phaseRun { r := {}, ctx := {} } resumedRun)).2.phase2 =
      1 := by
  -- the handler asks in the first of the three entries, submits in the second and finds all done in the third
  refine phase2_once { r := {}, ctx := {} } ⟨rfl, rfl, rfl⟩ resumedRun (accessEnv 1 none)
    ⟨fun _ _ _ => ?_, trivial, trivial, fun _ _ _ => ?_, fun _ _ _ => ?_, trivial⟩ (by decide +kernel)
      (by decide +kernel)
    (by decide +kernel) (by decide +kernel)
  · exact ⟨fun _ => rfl, fun h => absurd h (by decide), fun h => absurd h (by decide), fun _ h => absurd rfl h.2.2.2⟩
  · exact ⟨fun h => absurd h (by decide +kernel), fun h => absurd h (by decide +kernel), fun _ _ => by decide +kernel,
      fun h => absurd h (by decide +kernel)⟩
  · exact ⟨fun h => absurd h (by decide +kernel), fun _ h => absurd h (by decide +kernel),
      fun _ h => absurd h (by decide +kernel), fun h => absurd h (by decide +kernel)⟩

/-- **Not exactly once.** Entered again behind an access-off evaluation the handler evaluates phase 2 a second time; and
a request whose body nginx has none of is let through unevaluated. -/
theorem phase2_twice_and_never :
    (((preAccessHandler : Handler ℤ ℤ).run (accessEnv 0 none)
        (phaseRun { r := {}, ctx := {} } [.handler (accessEnv 0 none)])).1 = ngxDeclined ∧
      ((preAccessHandler : Handler ℤ ℤ).run (accessEnv 0 none)
        (phaseRun { r := {}, ctx := {} } [.handler (accessEnv 0 none)])).2.phase2 = 2) ∧
    ((preAccessHandler : Handler ℤ ℤ).run (accessEnv 1 none) { r := {}, ctx := {} }).1 = ngxDeclined ∧
    ((preAccessHandler : Handler ℤ ℤ).run (accessEnv 1 none) { r := {}, ctx := {} }).2.phase2 = 0 ∧
    ¬ ∀ (s : St) (steps : List PhaseStep) (e : Env), FreshCtx s →
      let out := (preAccessHandler : Handler ℤ ℤ).run e (phaseRun s steps)
      out.1 = ngxDeclined → out.2.r.loc.enable = 1 → out.2.r.errorPage = false →
        out.2.ctx.interventionTriggered = false → out.2.phase2 = 1 := by
  refine ⟨by decide +kernel, by decide +kernel, by decide +kernel, fun h => ?_⟩
  have honce := h { r := {}, ctx := {} } [] (accessEnv 1 none) ⟨rfl, rfl, rfl⟩ (by decide +kernel) (by decide +kernel)
    (by decide +kernel) (by decide +kernel)
  revert honce
  decide +kernel

end CorazaNginx
