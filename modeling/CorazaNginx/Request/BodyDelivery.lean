/-
The request body over the life of one context.

`PhaseStep.Carries body`: an entry made with no error page on the wire on a transaction that wants the body, which finds
the bytes `body` when it comes to submit them. Along a run of such entries the engine is given those bytes once, in
order, and before phase 2, unless an entry marks the context (`Progress.run`). An entry marks it only behind a failure,
an interruption, or on a body that it refuses (`Entry.why`), so a run in which there is none of these (`RunUndisturbed`)
delivers the body. What becomes of the entries that do fail is in `FailsClosed`, which holds of every entry.
-/
import Mathlib.Tactic
import CorazaNginx.Request.Submission

namespace CorazaNginx

open CorazaNginx.Core Prog Handler

variable {e : Env} {s t : St} {body : Bytes}

/-! ## The body nginx holds -/

/-- the bytes of a body: a temp file up to the size recorded for it, or a chain in memory -/
def RequestBody.bytes (c : Content) (rb : RequestBody) : Bytes :=
  match rb.tempFile with
  | some f => c.range true f.file.id 0 f.offset.toNat
  | none => rb.bufs.flatMap (·.bytes c)

/-- a chain in memory is well formed, and only its last buffer is marked as last -/
structure RequestBody.Valid (rb : RequestBody) : Prop where
  mem : rb.tempFile = none → ∀ b ∈ rb.bufs, b.inMemory = true ∧ b.Valid
  last : rb.tempFile = none → ∀ pre b post, rb.bufs = pre ++ b :: post → b.lastBuf = true → post = []

theorem Buf.chunk_eq_bytes {b : Buf} (hm : b.inMemory = true) (hv : b.Valid) (c : Content) : b.chunk c = b.bytes c := by
  obtain ⟨hle, hlt⟩ := hv.mem hm
  have hbytes : b.bytes c = b.memBytes c := by rw [Buf.bytes, if_pos hm]
  rw [Buf.chunk, hbytes]
  split_ifs with hpos
  · rfl
  · -- an empty range
    rw [sizeT_of_range (by omega) (by omega)] at hpos
    have h0 : b.last - b.pos = 0 := by omega
    unfold Buf.memBytes
    rw [h0]
    cases b.store <;> simp

theorem RequestBody.Valid.chunks_eq_bytes {rb : RequestBody} (h : rb.Valid) (c : Content) :
    rb.chunks c = rb.bytes c := by
  unfold RequestBody.chunks RequestBody.bytes
  cases hf : rb.tempFile with
  | some f => rfl
  | none =>
    rw [upToLast_eq rb.bufs (h.last hf)]
    refine List.flatMap_congr fun b hb => ?_
    obtain ⟨hm, hv⟩ := h.mem hf b hb
    exact Buf.chunk_eq_bytes hm hv c

/-! ## One entry that fails -/

theorem Event.failed_of_bodyFailure {ev : Event} (h : ev.bodyFailure = true) : ev.failed = true := by
  cases ev with
  | poll => cases h
  | call c rc =>
    cases c with
    | engine tx c => cases c <;> first | exact h | cases h
    | _ => first | exact h | cases h

theorem Event.bodyFailure_of_aux {ev : Event} (h : ev.isAux = true) : ev.bodyFailure = false := by
  cases ev with
  | poll => rfl
  | call c rc =>
    cases c with
    | engine tx c => cases c <;> first | rfl | cases h
    | _ => first | rfl | cases h

theorem Trace.Tail.noFailure {t : Trace} (h : t.Tail) : ∀ ev ∈ t, ev.bodyFailure = false := by
  intro ev hev
  rcases h ev hev with hp | ha
  · cases ev with
    | poll => rfl
    | call => cases hp
  · exact Event.bodyFailure_of_aux ha

theorem Trace.Clean.noFailure {t : Trace} (h : t.Clean) : ∀ ev ∈ t, ev.bodyFailure = false := by
  intro ev hev
  by_contra hfail
  have hf := Event.failed_of_bodyFailure (by simpa using hfail)
  rw [h ev hev] at hf
  cases hf

/-- an account in which the body failed is of an internal error -/
theorem Account.internal_of_failure {sent : Bool} {h h' : HeadersOut} {evs : Trace} {rc : ℤ}
    (ha : Account sent h evs rc h') {ev : Event} (hev : ev ∈ evs) (hf : ev.bodyFailure = true) :
    rc = ngxHttpInternalServerError := by
  refine ha.internal_of hev (Event.failed_of_bodyFailure hf) ?_ ?_
  · cases ev with
    | poll => cases hf
    | call => rfl
  · by_contra hx
    rw [Event.bodyFailure_of_aux (by simpa using hx)] at hf
    cases hf

/-- an account with an interruption in it is of that interruption -/
theorem Account.status_of_poll {sent sent' : Bool} {h h' : HeadersOut} {evs : Trace} {rc : ℤ} {tx : ℕ}
    {iv : Option Intervention} (ha : Account sent h evs rc h') (hev : .poll tx sent' iv ∈ evs)
    (hpos : interventionRc sent' iv ≠ 0) : rc = blockStatus (interventionRc sent' iv) := by
  have hint : Event.interrupts (.poll tx sent' iv) = true := by simpa [Event.interrupts] using hpos
  cases ha with
  | internal evs silent =>
    rw [silent _ hev] at hint
    cases hint
  | polled pre post tx' iv' h' clean aux =>
    rcases List.mem_append.1 hev with hin | hin
    · rw [clean.silent _ hin] at hint
      cases hint
    · rcases List.mem_cons.1 hin with heq | hin
      · injection heq with _ hsent hiv
        rw [hsent, hiv]
      · have hax := aux _ hin
        cases hax

/-- what an entry adds to the trace -/
def entryEvents (e : Env) (s : St) : Trace :=
  ((preAccessHandler : Handler ℤ ℤ).run e s).2.trace.drop s.trace.length

/-- the entry has marked the context and phase 2 has not been evaluated -/
def Stops (e : Env) (s : St) : Prop :=
  ((preAccessHandler : Handler ℤ ℤ).run e s).2.ctx.interventionTriggered = true ∧ (entryEvents e s).NoPhase2

/-- what becomes of an entry in which the body cannot be submitted whole, or is objected to -/
structure FailsClosed (e : Env) (s : St) : Prop where
  /-- the file fails, or the engine does not take a chunk -/
  failure : ∀ ev ∈ entryEvents e s, ev.bodyFailure = true →
    ((preAccessHandler : Handler ℤ ℤ).run e s).1 = ngxHttpInternalServerError ∧ Stops e s
  /-- a poll before phase 2 returns a positive status -/
  poll : ∀ (pre : Trace) tx sent iv post, entryEvents e s = pre ++ .poll tx sent iv :: post → pre.NoPhase2 →
    0 < interventionRc sent iv → ((preAccessHandler : Handler ℤ ℤ).run e s).1 = interventionRc sent iv ∧ Stops e s
  /-- the recorded size is negative, or a buffer is too long -/
  refused : ∀ rb, s.r.loc.enable = 1 → s.ctx.interventionTriggered = false → Ready e s → heldBody e s = some rb →
    rb.Refused → Stops e s ∧ (((preAccessHandler : Handler ℤ ℤ).run e s).1 = ngxHttpInternalServerError ∨
      ∃ tx sent iv, Event.poll tx sent iv ∈ entryEvents e s ∧ 0 < interventionRc sent iv ∧
        ((preAccessHandler : Handler ℤ ℤ).run e s).1 = interventionRc sent iv)

/-- what an evaluation of phase 2 adds to the trace -/
theorem PhaseEnd.trace {m : St} {rc : ℤ} (h : PhaseEnd m rc t) : ∃ tx pret evs,
    t.trace = m.trace ++ .call (.engine tx .processRequestBody) pret :: evs ∧ Trace.Tail evs := by
  cases h with
  | passed tx pret evs clean tail => exact ⟨tx, pret, evs, rfl, tail⟩
  | refused tx pret rc evs t trace tail => exact ⟨tx, pret, evs, trace, tail⟩

/-- an entry that evaluates phase 2 has had no failure -/
theorem PhaseEnd.noFailure {m : St} {rc : ℤ} {pre : Trace} (h : PhaseEnd m rc t) (hm : m.trace = s.trace ++ pre)
    (hpre : pre.Clean) : ∀ ev ∈ t.trace.drop s.trace.length, ev.bodyFailure = false := by
  obtain ⟨tx, pret, evs, htr, htail⟩ := h.trace
  rw [hm, List.append_assoc] at htr
  rw [htr, List.drop_left]
  exact List.forall_mem_append.2 ⟨hpre.noFailure, List.forall_mem_cons.2 ⟨rfl, htail.noFailure⟩⟩

theorem Entry.of_failure {rc : ℤ} (h : Entry e s rc t) {ev : Event} (hev : ev ∈ t.trace.drop s.trace.length)
    (hf : ev.bodyFailure = true) :
    rc = ngxHttpInternalServerError ∧ t.ctx.interventionTriggered = true ∧
      Trace.NoPhase2 (t.trace.drop s.trace.length) := by
  cases h with
  | aside rc evs t htr hclean =>
    rw [htr, List.drop_left] at hev
    rw [hclean.noFailure ev hev] at hf
    cases hf
  | off evs rc m t htr hdel haccess htrig hout =>
    rw [hout.noFailure htr hdel.clean ev hev] at hf
    cases hf
  | cut evs rc m t htr hdel hready hout htrig =>
    obtain ⟨evs', htr', hacc, -, hno, -⟩ := hout.trace
    rw [htr, List.append_assoc] at htr'
    rw [htr', List.drop_left] at hev ⊢
    have hin : ev ∈ evs' := by
      rcases List.mem_append.1 hev with hin | hin
      · rw [hdel.clean.noFailure ev hin] at hf
        cases hf
      · exact hin
    exact ⟨hacc.internal_of_failure hin hf, htrig, noPhase2_append.2 ⟨hdel.noPhase2, hno⟩⟩
  | evaluated evs rb rc m t htr hready hheld hfits hdel hsub htrig hout =>
    rw [hout.noFailure htr hdel.clean ev hev] at hf
    cases hf

/-- a poll before phase 2 that interrupts has cut the submission short -/
theorem PhaseEnd.no_poll_before {m : St} {rc : ℤ} {pre a b : Trace} {tx : ℕ} {sent : Bool} {iv : Option Intervention}
    (h : PhaseEnd m rc t) (hm : m.trace = s.trace ++ pre) (hpre : pre.Clean)
    (hsplit : t.trace.drop s.trace.length = a ++ .poll tx sent iv :: b) (ha : a.NoPhase2)
    (hpos : interventionRc sent iv ≠ 0) : False := by
  obtain ⟨tx', pret, evs, htr, -⟩ := h.trace
  rw [hm, List.append_assoc] at htr
  rw [htr, List.drop_left] at hsplit
  rcases List.append_eq_append_iff.1 hsplit with ⟨l, hal, hrest⟩ | ⟨l, hal, hrest⟩
  · -- the evaluation stands before the poll
    cases l with
    | nil => cases hrest
    | cons x l =>
      injection hrest with hx hrest
      have hno := ha x (by rw [hal]; simp)
      rw [← hx] at hno
      cases hno
  · -- the poll is in the stretch in which nothing failed
    cases l with
    | nil => cases hrest
    | cons x l =>
      injection hrest with hx hrest
      have hfail := hpre.silent x (by rw [hal]; simp)
      rw [← hx] at hfail
      simp [Event.interrupts] at hfail
      exact hpos hfail

theorem Entry.of_poll {rc : ℤ} (h : Entry e s rc t) {a b : Trace} {tx : ℕ} {sent : Bool} {iv : Option Intervention}
    (hsplit : t.trace.drop s.trace.length = a ++ .poll tx sent iv :: b) (ha : a.NoPhase2)
    (hpos : 0 < interventionRc sent iv) :
    rc = interventionRc sent iv ∧ t.ctx.interventionTriggered = true ∧
      Trace.NoPhase2 (t.trace.drop s.trace.length) := by
  have hmem : Event.poll tx sent iv ∈ t.trace.drop s.trace.length := by rw [hsplit]; simp
  have hint : Event.interrupts (.poll tx sent iv) = true := by simpa [Event.interrupts] using hpos.ne'
  cases h with
  | aside rc evs t htr hclean =>
    rw [htr, List.drop_left] at hmem
    rw [hclean.silent _ hmem] at hint
    cases hint
  | off evs rc m t htr hdel haccess htrig hout => exact (hout.no_poll_before htr hdel.clean hsplit ha hpos.ne').elim
  | cut evs rc m t htr hdel hready hout htrig =>
    obtain ⟨evs', htr', hacc, -, hno, -⟩ := hout.trace
    rw [htr, List.append_assoc] at htr'
    rw [htr', List.drop_left] at hmem ⊢
    have hin : Event.poll tx sent iv ∈ evs' := by
      rcases List.mem_append.1 hmem with hin | hin
      · rw [hdel.clean.silent _ hin] at hint
        cases hint
      · exact hin
    refine ⟨?_, htrig, noPhase2_append.2 ⟨hdel.noPhase2, hno⟩⟩
    rw [hacc.status_of_poll hin hpos.ne', blockStatus, if_pos hpos]
  | evaluated evs rb rc m t htr hready hheld hfits hdel hsub htrig hout =>
    exact (hout.no_poll_before htr hdel.clean hsplit ha hpos.ne').elim

/-- the code of an account: that of an internal error, or of an interruption -/
theorem Account.code {sent : Bool} {h h' : HeadersOut} {evs : Trace} {rc : ℤ} (ha : Account sent h evs rc h') :
    rc = ngxHttpInternalServerError ∨
      ∃ tx iv, Event.poll tx sent iv ∈ evs ∧ 0 < interventionRc sent iv ∧ rc = interventionRc sent iv := by
  cases ha with
  | internal => exact Or.inl rfl
  | polled pre post tx iv =>
    unfold blockStatus
    split_ifs with hpos
    · exact Or.inr ⟨tx, iv, by simp, hpos, rfl⟩
    · exact Or.inl rfl

theorem Entry.of_refused {rc : ℤ} (h : Entry e s rc t) {rb : RequestBody} (hon : s.r.loc.enable = 1)
    (hun : s.ctx.interventionTriggered = false) (hready : Ready e s) (hheld : heldBody e s = some rb)
    (href : rb.Refused) :
    (t.ctx.interventionTriggered = true ∧ Trace.NoPhase2 (t.trace.drop s.trace.length)) ∧
      (rc = ngxHttpInternalServerError ∨ ∃ tx sent iv, Event.poll tx sent iv ∈ t.trace.drop s.trace.length ∧
        0 < interventionRc sent iv ∧ rc = interventionRc sent iv) := by
  cases h with
  | aside rc evs t htr hclean hidle hsub htrig hun' =>
    rw [hun' hon hun hready] at hheld
    cases hheld
  | off evs rc m t htr hdel haccess => exact absurd haccess.2 (hready.atOnce haccess.1).1
  | cut evs rc m t htr hdel _ hout htrig =>
    obtain ⟨evs', htr', hacc, -, hno, -⟩ := hout.trace
    rw [htr, List.append_assoc] at htr'
    rw [htr', List.drop_left]
    refine ⟨⟨htrig, noPhase2_append.2 ⟨hdel.noPhase2, hno⟩⟩, hacc.code.imp_right fun ⟨tx, iv, hin, hpos, hrc⟩ => ?_⟩
    exact ⟨tx, _, iv, List.mem_append_right _ hin, hpos, hrc⟩
  | evaluated evs rb' rc m t htr _ hheld' hfits =>
    rw [hheld] at hheld'
    injection hheld' with heq
    exact absurd (heq ▸ href) hfits

/-- **Every entry fails closed.** -/
theorem entry_failsClosed (e : Env) {s : St} (hep : s.r.errorPage = false) : FailsClosed e s := by
  have hentry : Entry e s _ _ := (wp_run (Q := Entry e s) preAccessHandler).1 (preAccessHandler_entry hep)
  exact ⟨fun ev hev hf => hentry.of_failure hev hf,
    fun pre tx sent iv post hsplit ha hpos => hentry.of_poll hsplit ha hpos,
    fun rb hon hun hready hheld href => hentry.of_refused hon hun hready hheld href⟩

/-- **Why an entry marks the context.** Something it logged ends it, or it refuses the body. -/
theorem Entry.why {rc : ℤ} (h : Entry e s rc t) (hun : s.ctx.interventionTriggered = false)
    (hmark : t.ctx.interventionTriggered = true) :
    (∃ ev ∈ t.trace.drop s.trace.length, ev.endsEntry = true) ∨
      Ready e s ∧ ∃ rb, heldBody e s = some rb ∧ rb.Refused := by
  -- the evaluation of phase 2
  have phase : ∀ {m : St} {rc : ℤ} {pre : Trace}, PhaseEnd m rc t → m.trace = s.trace ++ pre →
      m.ctx.interventionTriggered = false → ∃ ev ∈ t.trace.drop s.trace.length, ev.endsEntry = true := by
    intro m rc pre hout hm hunm
    cases hout with
    | passed tx pret evs clean tail => exact absurd (hunm.symm.trans hmark) (by decide)
    | refused tx pret rc evs t htr tail account hends =>
      obtain ⟨ev, hev, hends⟩ := hends
      refine ⟨ev, ?_, hends⟩
      rw [htr, hm, List.append_assoc, List.drop_left]
      exact List.mem_append_right _ hev
  cases h with
  | aside rc evs t htr hclean hidle hsub htrig =>
    exact absurd (hun.symm.trans (htrig.symm.trans hmark)) (by decide)
  | off evs rc m t htr hdel haccess htrig hout => exact Or.inl (phase hout htr (htrig.trans hun))
  | cut evs rc m t htr hdel hready hout htrig =>
    obtain ⟨evs', htr', -, -, -, hwhy⟩ := hout.trace
    rcases hwhy with href | ⟨ev, hev, hends⟩
    · exact Or.inr ⟨hready, href⟩
    · refine Or.inl ⟨ev, ?_, hends⟩
      rw [htr', htr, List.append_assoc, List.drop_left]
      exact List.mem_append_right _ hev
  | evaluated evs rb rc m t htr hready hheld hfits hdel hsub htrig hout =>
    exact Or.inl (phase hout htr (htrig.trans hun))

/-! ## Runs -/

/-- an entry on a transaction that wants the body, with no error page on the wire; when it comes to submit the body,
nginx holds the bytes `body` -/
def PhaseStep.Carries (body : Bytes) (s : St) : PhaseStep → Prop
  | .handler e => s.r.errorPage = false ∧ s.r.loc.enable = 1 ∧
      (s.ctx.bodyRequested = false → e.ret s.trace (.engine s.ctx.corazaTransaction .isRequestBodyAccessible) ≠ 0) ∧
      (Ready e s → ∃ rb, heldBody e s = some rb ∧ rb.Valid ∧ rb.bytes e.content = body)
  | .bodyRead _ => True
  | .outside _ => True

/-- nothing ends the entry: no failure and no interruption in what it logs, and the body is none that it refuses -/
def PhaseStep.Undisturbed (s : St) : PhaseStep → Prop
  | .handler e =>
    (∀ ev ∈ entryEvents e s, ev.endsEntry = false) ∧ (Ready e s → ∀ rb, heldBody e s = some rb → ¬ rb.Refused)
  | .bodyRead _ => True
  | .outside _ => True

/-- every step of a run meets a condition on the state it starts from -/
def RunAll (P : St → PhaseStep → Prop) (s : St) : List PhaseStep → Prop
  | [] => True
  | step :: steps => P s step ∧ RunAll P (step.next s) steps

/-- the stretch since the context was fresh: nothing submitted yet, or the body submitted and phase 2 evaluated behind
it -/
inductive BodyAccount (body : Bytes) : Bool → Trace → Prop where
  | pending (evs : Trace) (submitted : evs.submitted = []) (noPhase2 : evs.NoPhase2) : BodyAccount body false evs
  | done (pre post : Trace) (tx : ℕ) (pret : ℤ) (submitted : pre.submitted = body) (noPhase2 : pre.NoPhase2)
      (after : post.submitted = []) (once : post.NoPhase2) :
      BodyAccount body true (pre ++ .call (.engine tx .processRequestBody) pret :: post)

theorem BodyAccount.append {b : Bool} {evs l : Trace} (h : BodyAccount body b evs) (hl : l.Idle) :
    BodyAccount body b (evs ++ l) := by
  cases h with
  | pending evs hs hn =>
    refine .pending _ ?_ (noPhase2_append.2 ⟨hn, hl.noPhase2⟩)
    rw [Trace.submitted_append, hs, hl.submitted]
    rfl
  | done pre post tx pret hs hn ha ho =>
    rw [List.append_assoc, List.cons_append]
    refine .done pre (post ++ l) tx pret hs hn ?_ (noPhase2_append.2 ⟨ho, hl.noPhase2⟩)
    rw [Trace.submitted_append, ha, hl.submitted]
    rfl

/-- where a run from `s` stands: the context is marked, or the body is accounted for -/
def Progress (body : Bytes) (s t : St) : Prop :=
  ∃ evs, t.trace = s.trace ++ evs ∧
    (t.ctx.interventionTriggered = true ∨ BodyAccount body t.ctx.bodySubmitted evs)

/-- what was only logged or changed in the request leaves a run where it stands -/
theorem Progress.idle {u : St} {l : Trace} (h : Progress body s t) (htr : u.trace = t.trace ++ l) (hl : l.Idle)
    (htrig : u.ctx.interventionTriggered = t.ctx.interventionTriggered)
    (hsub : u.ctx.bodySubmitted = t.ctx.bodySubmitted) : Progress body s u := by
  obtain ⟨evs, hevs, hp⟩ := h
  refine ⟨evs ++ l, by rw [htr, hevs, List.append_assoc], hp.imp (fun h => htrig.trans h) fun h => ?_⟩
  rw [hsub]
  exact h.append hl

theorem preAccessHandler_triggered (h : s.ctx.interventionTriggered = true) :
    (preAccessHandler : Handler ℤ ℤ).run e s = (ngxDeclined, s) := by
  have hout : wp (preAccessHandler : Handler ℤ ℤ) (fun rc t => (rc, t) = (ngxDeclined, s))
      (fun rc t => (rc, t) = (ngxDeclined, s)) e s := by
    rw [preAccessHandler, wp_call, wp_bind, wp_get, wp_bind]
    refine (wp_when _ _).2 ⟨fun _ => rfl, fun _ => ?_⟩
    rw [wp_bind]
    exact (wp_when _ _).2 ⟨fun _ => rfl, fun hno => absurd h hno⟩
  exact (wp_run (Q := fun rc t => (rc, t) = (ngxDeclined, s)) preAccessHandler).1 hout

theorem requestRead_idle : ∃ l, ((requestRead : Handler Unit Unit).run e s).2.trace = s.trace ++ l ∧ Trace.Idle l ∧
    ((requestRead : Handler Unit Unit).run e s).2.ctx.interventionTriggered = s.ctx.interventionTriggered ∧
    ((requestRead : Handler Unit Unit).run e s).2.ctx.bodySubmitted = s.ctx.bodySubmitted := by
  refine run_state (m := requestRead) (P := fun t => ∃ l, t.trace = s.trace ++ l ∧ Trace.Idle l ∧
    t.ctx.interventionTriggered = s.ctx.interventionTriggered ∧ t.ctx.bodySubmitted = s.ctx.bodySubmitted) ?_
  rw [requestRead, wp_bind, wp_modify, wp_bind, wp_get]
  refine (wp_when _ _).2 ⟨fun _ => ?_, fun _ => ⟨[], (List.append_nil _).symm, fun _ h => absurd h List.not_mem_nil,
    rfl, rfl⟩⟩
  rw [wp_bind, wp_modify, wp_bind, wp_invoke]
  exact ⟨[_], rfl, Trace.idle_single.2 rfl, rfl, rfl⟩

/-- an entry on an unmarked context keeps the account -/
theorem Progress.entry {rc : ℤ} {u : St} (h : Progress body s t) (hun : t.ctx.interventionTriggered = false)
    (hc : (PhaseStep.handler e).Carries body t) (hentry : Entry e t rc u) : Progress body s u := by
  obtain ⟨-, -, hwants, hbody⟩ := hc
  cases hentry with
  | aside rc evs u htr hclean hidle hsub htrig => exact h.idle htr hidle htrig hsub
  | off evs rc m u htr hdel haccess => exact absurd haccess.2 (hwants haccess.1)
  | cut evs rc m u htr hdel hready hout htrig =>
    obtain ⟨evs0, hevs0, -⟩ := h
    obtain ⟨evs', htr', -⟩ := hout.trace
    exact ⟨evs0 ++ (evs ++ evs'), by rw [htr', htr, hevs0]; simp, Or.inl htrig⟩
  | evaluated evs rb rc m u htr hready hheld hfits hdel hsub htrig hout =>
    obtain ⟨rb', hheld', hvalid, hbytes⟩ := hbody hready
    rw [hheld] at hheld'
    injection hheld' with heq
    subst heq
    obtain ⟨evs0, hevs0, hp⟩ := h
    cases hout with
    | passed tx pret evs' clean tail =>
      refine ⟨(evs0 ++ evs) ++ .call (.engine tx .processRequestBody) pret :: evs', ?_, ?_⟩
      · rw [St.logs_trace, htr, hevs0]
        simp
      · have hacc := hp.resolve_left fun htrig => absurd (htrig.symm.trans hun) (by decide)
        rw [hready.submitted] at hacc
        cases hacc with
        | pending evs0 hs hn =>
          rw [St.logs_ctx, hsub]
          refine Or.inr
            (.done _ evs' tx pret ?_ (noPhase2_append.2 ⟨hn, hdel.noPhase2⟩) tail.idle.submitted tail.idle.noPhase2)
          rw [Trace.submitted_append, hs, hdel.submitted, hvalid.chunks_eq_bytes, hbytes]
          rfl
    | refused tx pret rc evs' u htr' tail account hends triggered =>
      refine ⟨evs0 ++ (evs ++ .call (.engine tx .processRequestBody) pret :: evs'), ?_, Or.inl triggered⟩
      rw [htr', htr, hevs0]
      simp

theorem Progress.step (h : Progress body s t) (step : PhaseStep) (hc : step.Carries body t) :
    Progress body s (step.next t) := by
  cases step with
  | handler e =>
    by_cases htrig : t.ctx.interventionTriggered = true
    · rw [PhaseStep.next, preAccessHandler_triggered htrig]
      exact h
    · have hentry : Entry e t _ _ := (wp_run (Q := Entry e t) preAccessHandler).1 (preAccessHandler_entry hc.1)
      exact h.entry (by simpa using htrig) hc hentry
  | bodyRead e =>
    obtain ⟨l, htr, hl, htrig, hsub⟩ := requestRead_idle (e := e) (s := t)
    exact h.idle htr hl htrig hsub
  | outside r => exact h

/-- **The body along a run.** By induction on the steps. -/
theorem Progress.run (h : Progress body s t) (steps : List PhaseStep) (hc : RunAll (PhaseStep.Carries body) t steps) :
    Progress body s (phaseRun t steps) := by
  induction steps generalizing t with
  | nil => exact h
  | cons step steps ih => exact ih (h.step step hc.1) hc.2

/-- an entry that nothing ends leaves the context unmarked -/
theorem unmarked_next (step : PhaseStep) (hc : step.Carries body t) (hu : step.Undisturbed t)
    (hun : t.ctx.interventionTriggered = false) : (step.next t).ctx.interventionTriggered = false := by
  cases step with
  | handler e =>
    have hentry : Entry e t _ _ := (wp_run (Q := Entry e t) preAccessHandler).1 (preAccessHandler_entry hc.1)
    by_contra hmark
    rw [Bool.not_eq_false] at hmark
    rcases hentry.why hun hmark with ⟨ev, hev, hends⟩ | ⟨hready, rb, hheld, href⟩
    · exact absurd ((hu.1 ev hev).symm.trans hends) (by decide)
    · exact hu.2 hready rb hheld href
  | bodyRead e =>
    obtain ⟨l, htr, hl, htrig, hsub⟩ := requestRead_idle (e := e) (s := t)
    exact htrig.trans hun
  | outside r => exact hun

theorem unmarked_run (steps : List PhaseStep) (hc : RunAll (PhaseStep.Carries body) t steps)
    (hu : RunAll PhaseStep.Undisturbed t steps) (hun : t.ctx.interventionTriggered = false) :
    (phaseRun t steps).ctx.interventionTriggered = false := by
  induction steps generalizing t with
  | nil => exact hun
  | cons step steps ih => exact ih hc.2 hu.2 (unmarked_next step hc.1 hu.1 hun)

/-- what has been submitted stays submitted -/
theorem submitted_next (step : PhaseStep) (hc : step.Carries body t) (hsub : t.ctx.bodySubmitted = true) :
    (step.next t).ctx.bodySubmitted = true := by
  cases step with
  | handler e =>
    have hentry : Entry e t _ _ := (wp_run (Q := Entry e t) preAccessHandler).1 (preAccessHandler_entry hc.1)
    have hnot : ¬ Ready e t := fun hready => absurd (hsub.symm.trans hready.submitted) (by decide)
    change ((preAccessHandler : Handler ℤ ℤ).run e t).2.ctx.bodySubmitted = true
    generalize ((preAccessHandler : Handler ℤ ℤ).run e t).2 = u at hentry ⊢
    cases hentry with
    | aside rc evs u htr hclean hidle hsame => exact hsame.trans hsub
    | off evs rc m u htr hdel haccess => exact absurd haccess.2 (hc.2.2.1 haccess.1)
    | cut evs rc m u htr hdel hready => exact absurd hready hnot
    | evaluated evs rb rc m u htr hready => exact absurd hready hnot
  | bodyRead e =>
    obtain ⟨l, htr, hl, htrig, hsame⟩ := requestRead_idle (e := e) (s := t)
    exact hsame.trans hsub
  | outside r => exact hsub

theorem submitted_run (steps : List PhaseStep) (hc : RunAll (PhaseStep.Carries body) t steps)
    (hsub : t.ctx.bodySubmitted = true) : (phaseRun t steps).ctx.bodySubmitted = true := by
  induction steps generalizing t with
  | nil => exact hsub
  | cons step steps ih => exact ih hc.2 (submitted_next step hc.1 hsub)

theorem runAll_append {P : St → PhaseStep → Prop} {a b : List PhaseStep} :
    RunAll P s (a ++ b) ↔ RunAll P s a ∧ RunAll P (phaseRun s a) b := by
  induction a generalizing s with
  | nil => simp [RunAll, phaseRun]
  | cons step a ih => rw [List.cons_append, RunAll, RunAll, ih, and_assoc, phaseRun_cons]

theorem phaseRun_append (s : St) (a b : List PhaseStep) : phaseRun s (a ++ b) = phaseRun (phaseRun s a) b :=
  List.foldl_append

/-- an entry that has the body and leaves the context unmarked has submitted it -/
theorem Entry.submits {rc : ℤ} (h : Entry e s rc t) (hc : (PhaseStep.handler e).Carries body s)
    (hun : t.ctx.interventionTriggered = false) (hun0 : s.ctx.interventionTriggered = false) (hready : Ready e s) :
    t.ctx.bodySubmitted = true := by
  obtain ⟨-, hon, hwants, hbody⟩ := hc
  cases h with
  | aside rc evs t htr hclean hidle hsub htrig hunready =>
    obtain ⟨rb, hheld, -⟩ := hbody hready
    exact absurd (hheld.symm.trans (hunready hon hun0 hready)) nofun
  | off evs rc m t htr hdel haccess htrig hout => exact absurd haccess.2 (hwants haccess.1)
  | cut evs rc m t htr hdel _ hout htrig => exact absurd (htrig.symm.trans hun) (by decide)
  | evaluated evs rb rc m t htr _ hheld hfits hdel hsub htrig hout =>
    cases hout with
    | passed => exact hsub
    | refused tx pret rc evs' t htr' tail account hends triggered =>
      exact absurd (triggered.symm.trans hun) (by decide)

/-- a request let through has had its body submitted -/
theorem Entry.let_through {rc : ℤ} (h : Entry e s rc t) (hc : (PhaseStep.handler e).Carries body s)
    (hun : t.ctx.interventionTriggered = false) (hun0 : s.ctx.interventionTriggered = false) (hd : rc = ngxDeclined) :
    t.ctx.bodySubmitted = true := by
  obtain ⟨-, hon, hwants, hbody⟩ := hc
  cases h with
  | aside rc evs t htr hclean hidle hsub htrig hunready hdecl =>
    rcases hdecl hd hon hun0 with hdone | ⟨hready, hnone⟩
    · exact hsub.trans hdone
    · obtain ⟨rb, hheld, -⟩ := hbody hready
      rw [hnone] at hheld
      cases hheld
  | off evs rc m t htr hdel haccess => exact absurd haccess.2 (hwants haccess.1)
  | cut evs rc m t htr hdel hready hout htrig => exact absurd (htrig.symm.trans hun) (by decide)
  | evaluated evs rb rc m t htr hready hheld hfits hdel hsub htrig hout =>
    cases hout with
    | passed => exact hsub
    | refused tx pret rc evs' t htr' tail account hends triggered =>
      exact absurd (triggered.symm.trans hun) (by decide)

/-- what the engine has been given of the body over a run -/
structure DeliveredOnce (body : Bytes) (s : St) (steps : List PhaseStep) : Prop where
  /-- all of it once, or nothing yet -/
  once : ((phaseRun s steps).trace.drop s.trace.length).flatMap Event.submitted =
    if (phaseRun s steps).ctx.bodySubmitted then body else []
  /-- all of it before phase 2 -/
  before : ∀ pre ev post, (phaseRun s steps).trace.drop s.trace.length = pre ++ ev :: post →
    ev.evalsRequestBody = true → Trace.submitted pre = body ∧ Trace.submitted post = []
  /-- all of it once the handler has had the body -/
  submits : ∀ a e b, steps = a ++ .handler e :: b → Ready e (phaseRun s a) → (phaseRun s steps).ctx.bodySubmitted = true
  /-- all of it when a request is let through -/
  letThrough : ∀ a e, steps = a ++ [.handler e] →
    ((preAccessHandler : Handler ℤ ℤ).run e (phaseRun s a)).1 = ngxDeclined →
    (phaseRun s steps).ctx.bodySubmitted = true

theorem BodyAccount.once {b : Bool} {evs : Trace} (h : BodyAccount body b evs) :
    evs.submitted = if b then body else [] := by
  cases h with
  | pending evs hs => exact hs
  | done pre post tx pret hs _ ha =>
    rw [Trace.submitted_append, hs, if_pos rfl]
    change body ++ Trace.submitted post = body
    rw [ha, List.append_nil]

theorem BodyAccount.before {b : Bool} {evs pre post : Trace} {ev : Event} (h : BodyAccount body b evs)
    (hsplit : evs = pre ++ ev :: post) (hev : ev.evalsRequestBody = true) :
    pre.submitted = body ∧ post.submitted = [] := by
  cases h with
  | pending evs hs hn =>
    have hno := hn ev (by rw [hsplit]; simp)
    rw [hev] at hno
    cases hno
  | done a b tx pret hs hn ha ho =>
    -- the evaluation is the only one
    rcases List.append_eq_append_iff.1 hsplit with ⟨l, hpre, hrest⟩ | ⟨l, hpre, hrest⟩
    · cases l with
      | nil =>
        injection hrest with _ hpost
        rw [hpre, List.append_nil, ← hpost]
        exact ⟨hs, ha⟩
      | cons x l =>
        injection hrest with _ hpost
        have hno := ho ev (by rw [hpost]; simp)
        rw [hev] at hno
        cases hno
    · cases l with
      | nil =>
        injection hrest with _ hpost
        rw [List.append_nil] at hpre
        rw [← hpre, hpost]
        exact ⟨hs, ha⟩
      | cons x l =>
        injection hrest with hx hpost
        have hno := hn x (by rw [hpre]; simp)
        rw [← hx, hev] at hno
        cases hno

/-- where a run that nothing ends has come to, and the entry made there -/
theorem entry_of_run {a b : List PhaseStep} (hun : s.ctx.interventionTriggered = false)
    (hc : RunAll (PhaseStep.Carries body) s (a ++ .handler e :: b))
    (hu : RunAll PhaseStep.Undisturbed s (a ++ .handler e :: b)) :
    (phaseRun s a).ctx.interventionTriggered = false ∧ (PhaseStep.handler e).Carries body (phaseRun s a) ∧
      ((PhaseStep.handler e).next (phaseRun s a)).ctx.interventionTriggered = false ∧
      Entry e (phaseRun s a) ((preAccessHandler : Handler ℤ ℤ).run e (phaseRun s a)).1
        ((PhaseStep.handler e).next (phaseRun s a)) := by
  obtain ⟨hca, hentry, -⟩ := runAll_append.1 hc
  obtain ⟨hua, hends, -⟩ := runAll_append.1 hu
  have hun' := unmarked_run a hca hua hun
  exact ⟨hun', hentry, unmarked_next _ hentry hends hun',
    (wp_run (Q := Entry e (phaseRun s a)) preAccessHandler).1 (preAccessHandler_entry hentry.1)⟩

theorem deliveredOnce (hs : s.ctx.bodySubmitted = false) (hun : s.ctx.interventionTriggered = false)
    {steps : List PhaseStep} (hc : RunAll (PhaseStep.Carries body) s steps)
    (hu : RunAll PhaseStep.Undisturbed s steps) :
    DeliveredOnce body s steps := by
  have hfresh : Progress body s s := by
    refine ⟨[], (List.append_nil _).symm, Or.inr ?_⟩
    rw [hs]
    exact .pending [] rfl fun _ h => absurd h List.not_mem_nil
  obtain ⟨evs, htr, hp⟩ := hfresh.run steps hc
  have hacc := hp.resolve_left fun htrig => absurd (htrig.symm.trans (unmarked_run steps hc hu hun)) (by decide)
  refine ⟨?_, fun pre ev post hsplit hev => ?_, fun a e b hsteps hready => ?_, fun a e hsteps hd => ?_⟩
  · rw [htr, List.drop_left]
    exact hacc.once
  · rw [htr, List.drop_left] at hsplit
    exact hacc.before hsplit hev
  · subst hsteps
    obtain ⟨hun0, hcarries, hun1, hentry⟩ := entry_of_run hun hc hu
    rw [phaseRun_append, phaseRun_cons]
    exact submitted_run b (runAll_append.1 hc).2.2 (hentry.submits hcarries hun1 hun0 hready)
  · subst hsteps
    obtain ⟨hun0, hcarries, hun1, hentry⟩ := entry_of_run hun hc hu
    rw [phaseRun_append]
    exact hentry.let_through hcarries hun1 hun0 hd

/-- **The request body.** Over every run of entries that find the body nginx holds, in which nothing ends an entry, the
context stays unmarked and the engine is given exactly that body, once, in order and before phase 2; and every entry in
which it cannot be submitted whole, or in which a poll before phase 2 interrupts, marks the context and ends the
request. -/
theorem request_body_exact :
    (∀ (body : Bytes) (s : St) (steps : List PhaseStep), s.ctx.bodySubmitted = false →
      s.ctx.interventionTriggered = false → RunAll (PhaseStep.Carries body) s steps →
      RunAll PhaseStep.Undisturbed s steps →
      (phaseRun s steps).ctx.interventionTriggered = false ∧ DeliveredOnce body s steps) ∧
    ∀ (e : Env) (s : St), s.r.errorPage = false → FailsClosed e s :=
  ⟨fun _ _ steps hs hun hc hu => ⟨unmarked_run steps hc hu hun, deliveredOnce hs hun hc hu⟩,
    fun e _ hep => entry_failsClosed e hep⟩

/-- a body of two buffers that arrives while the request is suspended -/
def arrivingBody : RequestBody :=
  { bufs := [{ last := 2, memory := true }, { pos := 2, last := 3, memory := true, lastBuf := true }] }

/-- the request is suspended, the body arrives, nginx calls back and enters the handler again -/
def suspendedRun : List PhaseStep :=
  [.handler suspendingEnv, .outside { requestBody := some arrivingBody }, .bodyRead suspendingEnv,
    .handler suspendingEnv]

theorem arrivingBody_valid : arrivingBody.Valid := by
  refine ⟨fun _ b hb => ?_, fun _ pre b post hl hb => ?_⟩
  · fin_cases hb
    · exact ⟨rfl, fun _ => by decide, nofun⟩
    · exact ⟨rfl, fun _ => by decide, nofun⟩
  · rcases pre with _ | ⟨x, _ | ⟨y, pre⟩⟩
    · injection hl with h1 _
      rw [← h1] at hb
      cases hb
    · injection hl with _ hl
      injection hl with _ hl
      exact hl.symm
    · injection hl with _ hl
      injection hl with _ hl
      cases pre <;> cases hl

theorem arrivingBody_fits : ¬ arrivingBody.Refused := by
  have hfits : ¬ ∃ b ∈ upToLast arrivingBody.bufs, b.Oversize := by decide +kernel
  exact hfits

theorem suspended_body_delivered :
    (phaseRun { r := {}, ctx := {} } suspendedRun).ctx.interventionTriggered = false ∧
      DeliveredOnce [1, 1, 1] { r := {}, ctx := {} } suspendedRun := by
  -- the handler suspends in its first entry, and has the body in its second
  have hsuspended : ¬ Ready suspendingEnv { r := {}, ctx := {} } := fun h => (h.atOnce rfl).2.2.2 rfl
  have hheld : heldBody suspendingEnv (phaseRun { r := {}, ctx := {} } (suspendedRun.take 3)) = some arrivingBody := by
    decide +kernel
  refine request_body_exact.1 [1, 1, 1] { r := {}, ctx := {} } suspendedRun rfl rfl
    ⟨⟨rfl, rfl, fun _ => by decide, fun h => absurd h hsuspended⟩, trivial, trivial,
      ⟨by decide +kernel, by decide +kernel, fun h => absurd h (by decide +kernel), fun _ => ?_⟩, trivial⟩
    ⟨⟨by decide +kernel, fun h => absurd h hsuspended⟩, trivial, trivial,
      ⟨by decide +kernel, fun _ rb hrb => ?_⟩, trivial⟩
  · exact ⟨arrivingBody, hheld, arrivingBody_valid, by decide +kernel⟩
  · rw [show rb = arrivingBody from Option.some.inj (hrb.symm.trans hheld)]
    exact arrivingBody_fits

end CorazaNginx
