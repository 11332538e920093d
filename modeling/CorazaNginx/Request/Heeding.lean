/-
What the two request phase handlers do with the polls they make.

`Unhindered s t`: no poll made between `s` and `t` returned anything but NGX_OK. `Heeds m`: a block `m` of a handler run
with no error page on the wire either goes on unhindered, or has returned, and a return behind a poll that was not
NGX_OK has the context marked and a code other than NGX_OK and NGX_DECLINED. `Heeds` is an `Ends`, hence closed under
all statement formers, and a block without polls heeds them trivially (`Heeds.of_guar`), so the two handlers are
followed once, statement by statement.
-/
import Mathlib.Tactic
import CorazaNginx.Spec.Poll
import CorazaNginx.Model.RequestPhases

namespace CorazaNginx

open CorazaNginx.Core Prog Handler

variable {ρ α β : Type} {e : Env} {s t : St}

/-- no poll in between was anything but NGX_OK, and an error page is on the wire if it was before -/
structure Unhindered (s t : St) : Prop where
  trace : ∃ evs : Trace, t.trace = s.trace ++ evs ∧ ∀ ev ∈ evs, ev.interrupts = false
  errorPage : t.r.errorPage = s.r.errorPage

theorem Unhindered.refl (s : St) : Unhindered s s :=
  ⟨⟨[], (List.append_nil _).symm, fun _ h => absurd h List.not_mem_nil⟩, rfl⟩

theorem Unhindered.trans (s t u : St) (h : Unhindered s t) (h' : Unhindered t u) : Unhindered s u := by
  obtain ⟨evs, htr, hevs⟩ := h.trace
  obtain ⟨evs', htr', hevs'⟩ := h'.trace
  refine ⟨⟨evs ++ evs', ?_, List.forall_mem_append.2 ⟨hevs, hevs'⟩⟩, h'.errorPage.trans h.errorPage⟩
  rw [htr', htr, List.append_assoc]

/-- only the context or the request changed, not its error page -/
theorem Unhindered.of_trace (htr : t.trace = s.trace) (hep : t.r.errorPage = s.r.errorPage) : Unhindered s t :=
  ⟨⟨[], by rw [htr, List.append_nil], fun _ h => absurd h List.not_mem_nil⟩, hep⟩

theorem Unhindered.log (s : St) (c : Call) (rc : ℤ) : Unhindered s (s.log (.call c rc)) :=
  ⟨⟨[_], rfl, fun ev hev => by rw [List.mem_singleton.1 hev]; rfl⟩, rfl⟩

/-- a return: nothing interrupted, or the interruption is enforced -/
def Heeded (s : St) (rc : ℤ) (t : St) : Prop :=
  Unhindered s t ∨ (t.ctx.interventionTriggered = true ∧ rc ≠ ngxDeclined ∧ rc ≠ ngxOk)

theorem Heeded.after {u : St} {rc : ℤ} (h : Unhindered s t) (h' : Heeded t rc u) : Heeded s rc u :=
  h'.imp_left (Unhindered.trans s t u h)

/-- a block that heeds the polls it makes -/
def Heeds (m : Handler ℤ α) : Prop := Ends (fun s => s.r.errorPage = false) Unhindered Heeded m

theorem heeds_composes : Composes (fun s : St => s.r.errorPage = false) Unhindered Heeded where
  refl := Unhindered.refl
  trans := Unhindered.trans
  keep := fun _ _ hep h => h.errorPage.trans hep
  after := fun _ _ _ _ h h' => h'.after h

namespace Heeds

theorem pure (a : α) : Heeds (pure a : Handler ℤ α) := Ends.pure heeds_composes a

theorem exit (rc : ℤ) : Heeds (exit rc : Handler ℤ α) := Ends.exit fun s => Or.inl (Unhindered.refl s)

theorem bind {m : Handler ℤ α} {f : α → Handler ℤ β} (hm : Heeds m) (hf : ∀ a, Heeds (f a)) : Heeds (m >>= f) :=
  Ends.bind heeds_composes hm hf

theorem when {c : Prop} [Decidable c] {m : Handler ℤ Unit} (hm : Heeds m) : Heeds (when c m) :=
  Ends.when heeds_composes hm

/-- a block without polls -/
theorem of_guar {m : Handler ℤ α} (hm : Guar Unhindered m) : Heeds m := Ends.of_guar hm fun _ _ _ h => Or.inl h

/-- `return` what another function returned -/
theorem exit_call {m : Handler ℤ ℤ} (hm : ∀ e s, s.r.errorPage = false → wp m (Heeded s) (Heeded s) e s) :
    Heeds (m >>= fun rc => Prog.exit rc : Handler ℤ α) := by
  intro e s hep
  rw [wp_bind]
  exact hm e s hep

end Heeds

/-! ## Blocks without polls -/

theorem invoke_unhindered (c : Call) : Guar Unhindered (invoke c : Handler ρ ℤ) := fun _ s => Unhindered.log s c _

theorem engine_unhindered (c : EngineCall) : Guar Unhindered (engine c : Handler ρ ℤ) := fun _ s => Unhindered.log s _ _

theorem alloc_unhindered (n : ℕ) : Guar Unhindered (alloc n : Handler ρ Bool) := fun _ s => Unhindered.log s _ _

theorem trigger_unhindered : Guar Unhindered (trigger : Handler ρ Unit) := fun _ _ => Unhindered.of_trace rfl rfl

theorem bind_unhindered {m : Handler ρ α} {f : α → Handler ρ β} (hm : Guar Unhindered m)
    (hf : ∀ a, Guar Unhindered (f a)) : Guar Unhindered (m >>= f) := Guar.bind Unhindered.trans hm hf

theorem when_unhindered {c : Prop} [Decidable c] {m : Handler ρ Unit} (hm : Guar Unhindered m) :
    Guar Unhindered (when c m) := Guar.when Unhindered.refl hm

theorem exit_unhindered (r : ρ) : Guar Unhindered (exit r : Handler ρ α) := Guar.exit Unhindered.refl r

theorem pure_unhindered (a : α) : Guar Unhindered (pure a : Handler ρ α) := Guar.pure Unhindered.refl a

theorem get_unhindered : Guar Unhindered (get : Handler ρ St) := Guar.get Unhindered.refl

theorem ask_unhindered : Guar Unhindered (ask : Handler ρ Env) := Guar.ask Unhindered.refl

theorem packHeaders_unhindered (pairs : List HeaderPair) :
    Guar Unhindered (packHeaders pairs : Handler ρ (Option Bytes)) := by
  unfold packHeaders
  refine Guar.call ?_
  cases packTotal pairs 0 with
  | none => exact pure_unhindered none
  | some total =>
    refine bind_unhindered (when_unhindered (exit_unhindered _)) fun _ => ?_
    refine bind_unhindered (alloc_unhindered total) fun ok => ?_
    exact bind_unhindered (when_unhindered (exit_unhindered _)) fun _ => pure_unhindered _

theorem bulkRequestHeaders_unhindered : Guar Unhindered (bulkRequestHeaders : Handler ρ Bool) := by
  unfold bulkRequestHeaders
  refine Guar.call (bind_unhindered get_unhindered fun s => ?_)
  refine bind_unhindered (when_unhindered (exit_unhindered _)) fun _ => ?_
  refine bind_unhindered (alloc_unhindered _) fun ok => ?_
  refine bind_unhindered (when_unhindered (exit_unhindered _)) fun _ => ?_
  refine bind_unhindered (packHeaders_unhindered _) fun packed => ?_
  cases packed with
  | none => exact pure_unhindered _
  | some packed => exact bind_unhindered (engine_unhindered _) fun _ => pure_unhindered _

theorem submitRequestHeader_unhindered (x : TableElt × ℕ) : Guar Unhindered (submitRequestHeader x) := by
  unfold submitRequestHeader
  refine Guar.ite (pure_unhindered _) ?_
  refine bind_unhindered (when_unhindered (bind_unhindered trigger_unhindered fun _ => exit_unhindered _)) fun _ => ?_
  exact bind_unhindered (engine_unhindered _) fun _ => pure_unhindered _

theorem requestRead_unhindered : Guar Unhindered (requestRead : Handler ρ Unit) := by
  unfold requestRead
  refine bind_unhindered (Guar.modify fun _ => Unhindered.of_trace rfl rfl) fun _ => ?_
  refine bind_unhindered get_unhindered fun s => ?_
  refine when_unhindered (bind_unhindered (Guar.modify fun _ => Unhindered.of_trace rfl rfl) fun _ => ?_)
  exact bind_unhindered (invoke_unhindered _) fun _ => pure_unhindered _

theorem readClientRequestBody_unhindered : Guar Unhindered (readClientRequestBody : Handler ρ ℤ) := by
  unfold readClientRequestBody
  refine bind_unhindered ask_unhindered fun e => ?_
  refine bind_unhindered (invoke_unhindered _) fun rc => ?_
  refine bind_unhindered (Guar.modify fun _ => Unhindered.of_trace rfl rfl) fun _ => ?_
  exact bind_unhindered (when_unhindered requestRead_unhindered) fun _ => pure_unhindered _

/-! ## Polls -/

/-- a poll: what it returned, and that nothing interrupted if it is NGX_OK -/
theorem poll_heeded (early : Bool) {Q : ℤ → St → Prop} {E : α → St → Prop}
    (h : ∀ ret t, t.r.errorPage = s.r.errorPage → (ret = 0 → Unhindered s t) → Q ret t) :
    wp (processIntervention early : Handler α ℤ) Q E e s := by
  refine processIntervention_spec early fun t evs h' l ht haux _ _ _ => ?_
  subst ht
  refine h _ _ rfl fun hrc => ⟨⟨_, rfl, fun ev hev => ?_⟩, rfl⟩
  rcases List.mem_cons.1 hev with rfl | hev
  · simpa [Event.interrupts, pollEvent] using hrc
  · exact Event.interrupts_of_aux (haux ev hev)

/-- the branch on a poll's result -/
theorem afterPhasePoll_heeded (ret : ℤ) (hep : t.r.errorPage = false) (h : ret = 0 → Unhindered s t) :
    wp (afterPhasePoll ret) (fun _ => Unhindered s) (Heeded s) e t := by
  rw [afterPhasePoll, wp_bind, wp_get, wp_bind]
  refine (wp_when _ _).2 ⟨fun h' => absurd h' (by simp [hep]), fun _ => ?_⟩
  rw [wp_bind]
  refine (wp_when _ _).2 ⟨fun hneg => ?_, fun hneg => (wp_when _ _).2 ⟨fun hpos => ?_, fun hpos => ?_⟩⟩
  · rw [wp_bind, wp_trigger, wp_exit]
    exact Or.inr ⟨rfl, by decide, by decide⟩
  · rw [wp_bind, wp_trigger, wp_exit]
    refine Or.inr ⟨rfl, ?_, ?_⟩
    · intro hd
      rw [hd] at hpos
      cases hpos
    · exact hpos.ne'
  · exact h (by omega)

/-- the branch on a poll's result, and what follows it -/
theorem afterPhasePoll_then {k : Handler ℤ β} (hk : Heeds k) (hep : s.r.errorPage = false) (ret : ℤ)
    (ht : t.r.errorPage = s.r.errorPage) (h : ret = 0 → Unhindered s t) :
    wp (afterPhasePoll ret >>= fun _ => k) (fun _ => Unhindered s) (Heeded s) e t := by
  rw [wp_bind]
  refine wp_mono (afterPhasePoll_heeded ret (ht.trans hep) h) (fun _ u hu => ?_) (fun _ _ h => h)
  exact wp_mono (hk e u (hu.errorPage.trans hep)) (fun _ v hv => Unhindered.trans s u v hu hv)
    (fun _ _ hv => hv.after hu)

theorem Heeds.poll (early : Bool) {k : Handler ℤ β} (hk : Heeds k) :
    Heeds (processIntervention early >>= fun ret => afterPhasePoll ret >>= fun _ => k) := by
  intro e s hep
  rw [wp_bind]
  exact poll_heeded early fun ret t ht h => afterPhasePoll_then hk hep ret ht h

/-- the poll behind a phase -/
theorem Heeds.pollAfter (early : Bool) (pret : ℤ) {k : Handler ℤ β} (hk : Heeds k) :
    Heeds (pollAfterProcess early pret >>= fun ret => afterPhasePoll ret >>= fun _ => k) := by
  intro e s hep
  rw [wp_bind]
  refine pollAfterProcess_spec early pret (fun _ => ?_) (fun _ _ => ?_) (fun _ => ?_)
  · exact afterPhasePoll_then hk hep _ rfl fun h => absurd h (by decide)
  · exact afterPhasePoll_then hk hep _ rfl fun _ => Unhindered.refl s
  · exact poll_heeded early fun ret t ht h => afterPhasePoll_then hk hep ret ht h

/-- a function whose body heeds the polls it makes -/
theorem Heeds.fn {m : Handler ℤ ℤ} (hm : Heeds m) (hep : s.r.errorPage = false) :
    wp (Prog.call m : Handler ℤ ℤ) (Heeded s) (Heeded s) e s := by
  rw [wp_call]
  exact wp_mono (hm e s hep) (fun _ _ h => Or.inl h) (fun _ _ h => h)

/-! ## Rewrite -/

theorem Heeds.alloc {n : ℕ} {k : Bool → Handler ℤ β} (hk : ∀ ok, Heeds (k ok)) : Heeds (Handler.alloc n >>= k) :=
  Heeds.bind (Heeds.of_guar (alloc_unhindered n)) hk

theorem Heeds.exitWhen {c : Prop} [Decidable c] {rc : ℤ} {k : Handler ℤ β} (hk : Heeds k) :
    Heeds (Prog.when c (Prog.exit rc) >>= fun _ => k) := Heeds.bind (Heeds.when (Heeds.exit rc)) fun _ => hk

theorem Heeds.engine {c : EngineCall} {k : ℤ → Handler ℤ β} (hk : ∀ rc, Heeds (k rc)) :
    Heeds (Handler.engine c >>= k) :=
  Heeds.bind (Heeds.of_guar (engine_unhindered c)) hk

/-- **The rewrite handler.** -/
theorem rewriteInspect_heeds (hep : s.r.errorPage = false) :
    wp (rewriteInspect : Handler ℤ ℤ) (Heeded s) (Heeded s) e s := by
  refine Heeds.fn ?_ hep
  refine Heeds.bind (Heeds.of_guar get_unhindered) fun s => ?_
  refine Heeds.bind (Heeds.when (Heeds.alloc fun ok => Heeds.when (Heeds.exit _))) fun _ => ?_
  refine Heeds.bind (Heeds.of_guar (invoke_unhindered _)) fun rc => ?_
  refine Heeds.exitWhen ?_
  refine Heeds.bind (Heeds.when (Heeds.alloc fun ok => Heeds.when (Heeds.exit _))) fun _ => ?_
  refine Heeds.engine fun _ => Heeds.alloc fun _ => Heeds.exitWhen ?_
  refine Heeds.alloc fun _ => Heeds.exitWhen (Heeds.engine fun _ => ?_)
  refine Heeds.bind (Heeds.of_guar bulkRequestHeaders_unhindered) fun bulkDone => ?_
  refine Heeds.bind
    (Heeds.when (Ends.forEach heeds_composes (fun x => Heeds.of_guar (submitRequestHeader_unhindered x)) _)) fun _ => ?_
  exact Heeds.engine fun pret => Heeds.pollAfter true pret (Heeds.pure _)

/-! ## Pre-access -/

theorem processRequestBodyPhase_heeds (hep : s.r.errorPage = false) :
    wp (processRequestBodyPhase : Handler ℤ ℤ) (Heeded s) (Heeded s) e s := by
  refine Heeds.fn (Heeds.engine fun pret => ?_) hep
  refine Heeds.bind (Heeds.when ?_) fun _ => Heeds.pollAfter false pret (Heeds.pure _)
  exact Heeds.bind (Heeds.of_guar trigger_unhindered) fun _ => Heeds.exit _

/-- inside the loop over a file: nothing interrupted, or the code is neither NGX_OK nor NGX_DECLINED -/
def ChunkHeeded (s : St) (rc : ℤ) (t : St) : Prop := Unhindered s t ∨ (rc ≠ ngxDeclined ∧ rc ≠ ngxOk)

theorem pollBefore_heeded (f : TempFile) (o : ℤ) (hep : s.r.errorPage = false) {Q : Option ℤ → St → Prop}
    {E : ρ → St → Prop} (hnone : ∀ t, Unhindered s t → Q none t)
    (hsome : ∀ rc t, rc ≠ ngxDeclined → rc ≠ ngxOk → Q (some rc) t) :
    wp (pollBefore f o : Handler ρ (Option ℤ)) Q E e s := by
  unfold pollBefore
  refine (wp_ite _ _ _).2 ⟨fun _ => ?_, fun _ => hnone s (Unhindered.refl s)⟩
  rw [pollChunk, wp_call, wp_bind]
  refine poll_heeded false fun ret t ht h => ?_
  rw [wp_bind, wp_get, wp_bind]
  refine (wp_when _ _).2 ⟨fun h' => absurd h' (by simp [ht.trans hep]), fun _ => ?_⟩
  rw [wp_bind]
  refine (wp_when _ _).2 ⟨fun _ => hsome _ _ (by decide) (by decide), fun hneg => ?_⟩
  rw [wp_bind]
  refine (wp_when _ _).2 ⟨fun hpos => ?_, fun hpos => hnone t (h (by omega))⟩
  rw [wp_bind, wp_trigger, wp_exit]
  refine hsome _ _ ?_ hpos.ne'
  intro hd
  rw [hd] at hpos
  cases hpos

/-- the loop over a file: by induction on what is left of it -/
theorem requestFileLoop_heeded (f : TempFile) (o : ℤ) (hep : s.r.errorPage = false) {Q : ℤ → St → Prop}
    {E : ρ → St → Prop} (hQ : ∀ rc t, ChunkHeeded s rc t → Q rc t) :
    wp (requestFileLoop f o : Handler ρ ℤ) Q E e s := by
  induction hn : (f.offset - o).toNat using Nat.strong_induction_on generalizing o s with
  | _ n ih =>
    have hfail : ∀ t, Q ngxHttpInternalServerError t := fun t => hQ _ _ (Or.inr ⟨by decide, by decide⟩)
    rw [requestFileLoop]
    refine (wp_dite _ _ _).2 ⟨fun hlt => ?_, fun _ => hQ _ _ (Or.inl (Unhindered.refl s))⟩
    rw [wp_bind, wp_readFile]
    have hread := Unhindered.log s (.readFile (min (f.offset - o).toNat requestBodyFileChunkSize) o)
      (e.ret s.trace (.readFile (min (f.offset - o).toNat requestBodyFileChunkSize) o))
    generalize ReadResult.of _ _ = res
    cases res with
    | error => exact hfail _
    | bytes k hk =>
      refine (wp_dite _ _ _).2 ⟨fun _ => hfail _, fun hk0 => ?_⟩
      rw [wp_bind, wp_ask, wp_bind, wp_engine]
      refine (wp_ite _ _ _).2 ⟨fun _ => hfail _, fun _ => ?_⟩
      set t1 := (s.log _).log _ with ht1
      have h1 : Unhindered s t1 := Unhindered.trans _ _ _ hread (Unhindered.log _ _ _)
      rw [wp_bind]
      refine pollBefore_heeded f _ (h1.errorPage.trans hep) (fun t ht => ?_) (fun rc t hd hok => ?_)
      · have h2 := Unhindered.trans s t1 t h1 ht
        have hsmaller : (f.offset - (o + (k : ℤ))).toNat < n := by omega
        refine ih _ hsmaller (o + (k : ℤ)) (h2.errorPage.trans hep) (fun rc u hu => hQ rc u ?_) rfl
        exact hu.imp_left (Unhindered.trans s t u h2)
      · exact hQ _ _ (Or.inr ⟨hd, hok⟩)

/-- submitting a file, and the return the handler makes of anything but NGX_OK -/
theorem appendRequestBodyFile_heeds (f : TempFile) : Heeds (do
    let rc ← appendRequestBodyFile f
    when (rc ≠ ngxOk) do exit rc : Handler ℤ Unit) := by
  intro e s hep
  have hstop : ∀ (t : St) (rc : ℤ), t.ctx.interventionTriggered = true → rc ≠ ngxDeclined → rc ≠ ngxOk →
      wp (when (rc ≠ ngxOk) do exit rc : Handler ℤ Unit) (fun _ => Unhindered s) (Heeded s) e t :=
    fun t rc ht hd hok => (wp_when _ _).2 ⟨fun _ => Or.inr ⟨ht, hd, hok⟩, fun h => absurd hok h⟩
  have hgo : ∀ (t : St) (rc : ℤ), Unhindered s t →
      wp (when (rc ≠ ngxOk) do exit rc : Handler ℤ Unit) (fun _ => Unhindered s) (Heeded s) e t :=
    fun t rc ht => (wp_when _ _).2 ⟨fun _ => Or.inl ht, fun _ => ht⟩
  rw [wp_bind, appendRequestBodyFile, wp_call, wp_bind]
  refine (wp_when _ _).2 ⟨fun _ => hgo s ngxOk (Unhindered.refl s), fun _ => ?_⟩
  rw [wp_bind]
  refine (wp_when _ _).2 ⟨fun _ => ?_, fun _ => ?_⟩
  · rw [wp_bind, wp_trigger, wp_exit]
    exact hstop _ _ rfl (by decide) (by decide)
  rw [wp_bind, wp_invoke, wp_bind]
  refine (wp_when _ _).2 ⟨fun _ => ?_, fun _ => ?_⟩
  · rw [wp_bind, wp_trigger, wp_exit]
    exact hstop _ _ rfl (by decide) (by decide)
  have hopen := Unhindered.log s .openFile (e.ret s.trace .openFile)
  rw [wp_bind]
  refine requestFileLoop_heeded (s := s.log _) f 0 hep fun rc t ht => ?_
  rw [wp_bind, wp_invoke, wp_bind]
  have hclose := Unhindered.log t .closeFile (e.ret t.trace .closeFile)
  refine (wp_when _ _).2 ⟨fun hrc => ?_, fun hrc => ?_⟩
  · rw [wp_trigger]
    exact hstop _ _ rfl hrc.2 hrc.1
  · rcases ht with ht | ⟨hd, hok⟩
    · exact hgo _ _ (Unhindered.trans _ _ _ hopen (Unhindered.trans _ _ _ ht hclose))
    · exact absurd ⟨hok, hd⟩ hrc

theorem appendChain_heeds (l : List Buf) : Heeds (appendChain l) := by
  induction l with
  | nil => exact Heeds.pure ()
  | cons b l ih =>
    have hfail : Heeds (do trigger; exit ngxHttpInternalServerError : Handler ℤ Unit) :=
      Heeds.bind (Heeds.of_guar trigger_unhindered) fun _ => Heeds.exit _
    refine Heeds.bind (Heeds.of_guar ask_unhindered) fun e => ?_
    refine Heeds.bind (Heeds.when hfail) fun _ => ?_
    refine Heeds.bind (Heeds.when (Heeds.engine fun ret => Heeds.when hfail)) fun _ => ?_
    exact Ends.ite (Heeds.pure ()) (Heeds.poll false ih)

theorem appendBody_heeds (rb : RequestBody) : Heeds (appendBody rb) := by
  unfold appendBody
  cases rb.tempFile with
  | some f => exact appendRequestBodyFile_heeds f
  | none => exact appendChain_heeds rb.bufs

theorem submitRequestBody_heeds : Heeds submitRequestBody := by
  unfold submitRequestBody
  refine Heeds.bind (Heeds.of_guar get_unhindered) fun s => ?_
  cases s.r.requestBody with
  | none => exact Heeds.exit _
  | some rb =>
    refine Heeds.bind (Heeds.of_guar (Guar.modify fun _ => Unhindered.of_trace rfl rfl)) fun _ => ?_
    refine Heeds.bind (appendBody_heeds rb) fun _ => Heeds.poll false ?_
    exact Heeds.exit_call fun e s hep => processRequestBodyPhase_heeds hep

theorem requestBodyAccess_heeds : Heeds requestBodyAccess := by
  refine Heeds.engine fun accessible => ?_
  refine Heeds.bind (Heeds.when (Heeds.exit_call fun e s hep => processRequestBodyPhase_heeds hep)) fun _ => ?_
  refine Heeds.bind (Heeds.of_guar (Guar.modify fun _ => Unhindered.of_trace rfl rfl)) fun _ => ?_
  refine Heeds.bind (Heeds.of_guar readClientRequestBody_unhindered) fun rc => Heeds.exitWhen (Heeds.when ?_)
  exact Heeds.bind (Heeds.of_guar (Guar.modify fun _ => Unhindered.of_trace rfl rfl)) fun _ => Heeds.exit _

/-- **The pre-access handler.** -/
theorem preAccessHandler_heeds (hep : s.r.errorPage = false) :
    wp (preAccessHandler : Handler ℤ ℤ) (Heeded s) (Heeded s) e s := by
  refine Heeds.fn ?_ hep
  refine Heeds.bind (Heeds.of_guar get_unhindered) fun s => ?_
  refine Heeds.exitWhen (Heeds.exitWhen (Heeds.exitWhen ?_))
  refine Heeds.bind (Heeds.when requestBodyAccess_heeds) fun _ => ?_
  refine Heeds.bind (Heeds.of_guar get_unhindered) fun s => ?_
  exact Heeds.bind (Heeds.when submitRequestBody_heeds) fun _ => Heeds.pure _

end CorazaNginx
