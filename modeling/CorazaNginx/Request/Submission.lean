/-
What the engine is given of a request body.

- `appendBody_spec`: of a body in memory or in a temp file the engine gets exactly the bytes, in however many chunks, or
  the submission is cut short: `Cut` says with which code, and `Account` for which reason.
- `Entry`: the list of what an entry of the pre-access handler can come to while no error page is on the wire; an entry
  stays aside, submits a body and is cut short in it, or evaluates phase 2.
`preAccessHandler_entry` says there is no other case.
-/
import Mathlib.Tactic
import CorazaNginx.Request.PhaseTwo
import CorazaNginx.Response.Ending

namespace CorazaNginx

open CorazaNginx.Core Prog Handler

variable {ρ α : Type} {e : Env} {s t : St} {refused : Prop}

/-! ## Events -/

/-- the bytes an event appends to the engine's request body -/
def Event.submitted : Event → Bytes
  | .call (.engine _ (.appendRequestBody data _)) _ => data
  | _ => []

/-- coraza_process_request_body -/
def Event.evalsRequestBody : Event → Bool
  | .call (.engine _ .processRequestBody) _ => true
  | _ => false

/-- the temp file cannot be opened or read or ends early, or the engine does not take a chunk -/
def Event.bodyFailure : Event → Bool
  | .call .openFile rc => rc < 0
  | .call (.readFile ..) rc => rc ≤ 0
  | .call (.engine _ (.appendRequestBody ..)) rc => rc ≠ 0
  | _ => false

/-- an event that ends an entry: the body fails, phase 2 cannot be evaluated, or a poll interrupts -/
def Event.endsEntry (ev : Event) : Bool :=
  ev.bodyFailure || ev.interrupts || (ev.evalsRequestBody && ev.failed)

theorem Event.endsEntry_of_bodyFailure {ev : Event} (h : ev.bodyFailure = true) : ev.endsEntry = true := by
  rw [Event.endsEntry, h]
  rfl

theorem Event.endsEntry_of_interrupts {ev : Event} (h : ev.interrupts = true) : ev.endsEntry = true := by
  rw [Event.endsEntry, h, Bool.or_true]
  rfl

theorem Event.endsEntry_of_failed {ev : Event} (he : ev.evalsRequestBody = true) (hf : ev.failed = true) :
    ev.endsEntry = true := by
  rw [Event.endsEntry, he, hf, Bool.and_true, Bool.or_true]

/-- the bytes appended to the engine's request body, in order -/
def Trace.submitted (t : Trace) : Bytes := t.flatMap Event.submitted

/-- phase 2 is not evaluated -/
def Trace.NoPhase2 (t : Trace) : Prop := ∀ ev ∈ t, ev.evalsRequestBody = false

@[simp] theorem Trace.submitted_nil : Trace.submitted [] = [] := rfl
@[simp] theorem Trace.submitted_append (a b : Trace) : Trace.submitted (a ++ b) = a.submitted ++ b.submitted := by
  simp [Trace.submitted]

theorem Event.submitted_of_not_inspects {ev : Event} (h : ev.inspects = false) : ev.submitted = [] := by
  cases ev with
  | poll => rfl
  | call c rc =>
    cases c with
    | engine tx c => cases c <;> first | rfl | cases h
    | _ => rfl

theorem Event.evalsRequestBody_of_not_inspects {ev : Event} (h : ev.inspects = false) :
    ev.evalsRequestBody = false := by
  cases ev with
  | poll => rfl
  | call c rc =>
    cases c with
    | engine tx c => cases c <;> first | rfl | cases h
    | _ => rfl

theorem Trace.Idle.submitted {t : Trace} (h : t.Idle) : t.submitted = [] :=
  List.flatMap_eq_nil_iff.2 fun ev hev => Event.submitted_of_not_inspects (h ev hev)

theorem Trace.Idle.noPhase2 {t : Trace} (h : t.Idle) : t.NoPhase2 := fun ev hev =>
  Event.evalsRequestBody_of_not_inspects (h ev hev)

theorem noPhase2_append {a b : Trace} : Trace.NoPhase2 (a ++ b) ↔ a.NoPhase2 ∧ b.NoPhase2 := List.forall_mem_append

/-- a stretch in which nothing fails, phase 2 is not evaluated and the engine is given `data` -/
structure Delivered (evs : Trace) (data : Bytes) : Prop where
  clean : evs.Clean
  submitted : evs.submitted = data
  noPhase2 : evs.NoPhase2

theorem Delivered.nil : Delivered [] [] := ⟨Trace.Clean.nil, rfl, fun _ h => absurd h List.not_mem_nil⟩

theorem Delivered.append {a b : Trace} {d d' : Bytes} (h : Delivered a d) (h' : Delivered b d') :
    Delivered (a ++ b) (d ++ d') where
  clean := Trace.clean_append.2 ⟨h.clean, h'.clean⟩
  submitted := by rw [Trace.submitted_append, h.submitted, h'.submitted]
  noPhase2 := noPhase2_append.2 ⟨h.noPhase2, h'.noPhase2⟩

/-- a stretch without append and process calls -/
theorem Delivered.idle {evs : Trace} (hc : evs.Clean) (hi : evs.Idle) : Delivered evs [] :=
  ⟨hc, hi.submitted, hi.noPhase2⟩

theorem Delivered.single {ev : Event} (hf : ev.failed = false) (hi : ev.inspects = false) : Delivered [ev] [] :=
  Delivered.idle (Trace.clean_single.2 hf) (Trace.idle_single.2 hi)

/-- a chunk the engine took -/
theorem Delivered.chunk (tx : ℕ) (d : Bytes) (l : ℤ) {rc : ℤ} (h : rc = 0) :
    Delivered [Event.call (.engine tx (.appendRequestBody d l)) rc] d where
  clean := Trace.clean_single.2 (by simp [Event.failed, h])
  submitted := List.append_nil d
  noPhase2 := fun ev hev => by rw [List.mem_singleton.1 hev]; rfl

/-! ## Being cut short -/

/-- a way out of the submission: a positive code, accounted for by what was logged, with nothing of the inspection
behind an error; what was logged ends the entry, or `refused` is the reason -/
structure Cut (refused : Prop) (s : St) (rc : ℤ) (t : St) : Prop where
  trace : ∃ evs, t.trace = s.trace ++ evs ∧ Account s.r.headerSent s.r.headersOut evs rc t.r.headersOut ∧
    evs.ErrorLast ∧ evs.NoPhase2 ∧ (refused ∨ ∃ ev ∈ evs, ev.endsEntry = true)
  positive : 0 < rc
  req : ∃ h, t.r = s.r.setHeadersOut h
  ctx : ∃ b, t.ctx = { s.ctx with interventionTriggered := b }

/-- for another reason -/
theorem Cut.mono {refused' : Prop} {rc : ℤ} (h : Cut refused s rc t) (himp : refused → refused') :
    Cut refused' s rc t := by
  obtain ⟨evs, htr, hacc, hlast, hno, hwhy⟩ := h.trace
  exact ⟨⟨evs, htr, hacc, hlast, hno, hwhy.imp_left himp⟩, h.positive, h.req, h.ctx⟩

/-- behind a stretch that was delivered -/
theorem Cut.after {l : Trace} {d : Bytes} {rc : ℤ} (h : Delivered l d) (hc : Cut refused (s.logs l) rc t) :
    Cut refused s rc t := by
  obtain ⟨evs', htr, hacc, hlast, hno, hwhy⟩ := hc.trace
  refine ⟨⟨l ++ evs', ?_, hacc.after h.clean, Trace.ErrorLast.after h.clean.sound hlast, ?_, ?_⟩, hc.positive, hc.req,
    hc.ctx⟩
  · rw [htr, St.logs_trace, List.append_assoc]
  · exact noPhase2_append.2 ⟨h.noPhase2, hno⟩
  · exact hwhy.imp_right fun ⟨ev, hev, hends⟩ => ⟨ev, List.mem_append_right _ hev, hends⟩

/-- marking the context cuts nothing more short -/
theorem Cut.trigger {rc : ℤ} (h : Cut refused s rc t) : Cut refused s rc t.trigger := by
  obtain ⟨b, hb⟩ := h.ctx
  exact ⟨h.trace, h.positive, h.req, true, by rw [St.trigger_ctx, hb]⟩

/-- a refusal: nothing is logged -/
theorem Cut.refuse (h : refused) : Cut refused s ngxHttpInternalServerError s.trigger := by
  have hnil : ∀ ev : Event, ev ∉ ([] : Trace) := fun _ => List.not_mem_nil
  refine ⟨⟨[], (List.append_nil _).symm, .internal [] fun ev hev => absurd hev (hnil ev), ?_,
    fun ev hev => absurd hev (hnil ev), Or.inl h⟩, by decide, ⟨s.r.headersOut, rfl⟩, true, rfl⟩
  exact Trace.Clean.nil.sound.errorLast

/-- a failure of its own -/
theorem Cut.single {ev : Event} (hf : ev.bodyFailure = true) (hi : ev.interrupts = false)
    (he : ev.evalsRequestBody = false) : Cut refused s ngxHttpInternalServerError (s.log ev) := by
  have hsingle : ∀ {P : Event → Prop}, P ev → ∀ x ∈ [ev], P x := fun hp x hx => by rwa [List.mem_singleton.1 hx]
  exact ⟨⟨[ev], rfl, .internal [ev] (hsingle hi), Trace.ErrorLast.single ev, hsingle he,
    Or.inr ⟨ev, List.mem_singleton_self ev, Event.endsEntry_of_bodyFailure hf⟩⟩, by decide, ⟨_, rfl⟩, _, rfl⟩

/-- bookkeeping behind the failure -/
theorem Cut.log {rc : ℤ} (h : Cut refused s rc t) {ev : Event} (ha : ev.isAux = true) :
    Cut refused s rc (t.log ev) := by
  obtain ⟨evs, htr, hacc, hlast, hno, hwhy⟩ := h.trace
  have haux : ∀ x ∈ [ev], x.isAux = true := fun x hx => by rwa [List.mem_singleton.1 hx]
  have hidle : Trace.Idle [ev] := Trace.idle_single.2 (Event.inspects_of_aux ha)
  refine ⟨⟨evs ++ [ev], ?_, hacc.append haux, hlast.append hidle, ?_, ?_⟩, h.positive, h.req, h.ctx⟩
  · rw [St.log_trace, htr, List.append_assoc]
  · exact noPhase2_append.2 ⟨hno, hidle.noPhase2⟩
  · exact hwhy.imp_right fun ⟨x, hx, hends⟩ => ⟨x, List.mem_append_left _ hx, hends⟩

/-! ## Polls -/

theorem blockStatus_pos (ret : ℤ) : 0 < blockStatus ret := by
  unfold blockStatus
  split_ifs with h
  · exact h
  · decide

/-- a poll of a phase handler: nothing came of it, or the code it is turned into -/
theorem phasePoll_spec {Q : ℤ → St → Prop} {E : ρ → St → Prop}
    (hok : ∀ t evs, t = s.logs evs → Delivered evs [] → Q 0 t)
    (hbad : ∀ ret t, ret ≠ 0 → Cut False s (blockStatus ret) t → t.r.errorPage = s.r.errorPage → Q ret t) :
    wp (processIntervention false : Handler ρ ℤ) Q E e s := by
  refine processIntervention_spec false fun t evs h' l ht haux hlate hzero hinst => ?_
  obtain rfl := hlate rfl
  subst ht
  have hidle : Trace.Idle (pollEvent e s :: evs) :=
    Trace.idle_append.2 ⟨Trace.idle_single.2 rfl, fun ev hev => Event.inspects_of_aux (haux ev hev)⟩
  by_cases hrc : interventionRc s.r.headerSent (e.intervention s.trace) = 0
  · obtain ⟨hclean, rfl⟩ := hzero hrc
    rw [hrc]
    refine hok _ _ (St.polled_self s _) (Delivered.idle ?_ hidle)
    refine Trace.clean_append.2 ⟨Trace.clean_single.2 ?_, hclean⟩
    simpa [pollEvent, Event.failed] using hrc
  · have hends : (pollEvent e s).endsEntry = true :=
      Event.endsEntry_of_interrupts (by simpa [pollEvent, Event.interrupts] using hrc)
    refine hbad _ _ hrc ⟨⟨_, rfl, ?_, hidle.sound.errorLast, hidle.noPhase2, Or.inr ⟨_, List.mem_cons_self, hends⟩⟩,
      blockStatus_pos _, ⟨h', rfl⟩, _, rfl⟩ rfl
    exact .polled [] evs _ _ h' Trace.Clean.nil haux hrc hinst

/-- the branch on a poll's result when no error page is on the wire -/
theorem afterPhasePoll_spec (ret : ℤ) (hep : s.r.errorPage = false) {Q : Unit → St → Prop} {E : ℤ → St → Prop}
    (hok : ret = 0 → Q () s) (hbad : ret ≠ 0 → E (blockStatus ret) s.trigger) : wp (afterPhasePoll ret) Q E e s := by
  rw [afterPhasePoll, wp_bind, wp_get, wp_bind]
  refine (wp_when _ _).2 ⟨fun h => absurd h (by simp [hep]), fun _ => ?_⟩
  rw [wp_bind]
  refine (wp_when _ _).2 ⟨fun hneg => ?_, fun hneg => (wp_when _ _).2 ⟨fun hpos => ?_, fun hpos => hok (by omega)⟩⟩
  · rw [wp_bind, wp_trigger, wp_exit]
    have h := hbad (by omega)
    rwa [blockStatus, if_neg (by omega)] at h
  · rw [wp_bind, wp_trigger, wp_exit]
    have h := hbad (by omega)
    rwa [blockStatus, if_pos hpos] at h

/-- a poll, the branch on its result, and what follows -/
theorem phasePoll_then (hep : s.r.errorPage = false) {k : Handler ℤ α} {Q : α → St → Prop} {E : ℤ → St → Prop}
    (hok : ∀ evs, Delivered evs [] → wp k Q E e (s.logs evs))
    (hbad : ∀ rc t, Cut False s rc t → t.ctx.interventionTriggered = true → E rc t) :
    wp (processIntervention false >>= fun ret => afterPhasePoll ret >>= fun _ => k) Q E e s := by
  rw [wp_bind]
  refine phasePoll_spec (fun t evs ht hevs => ?_) (fun ret t hret hcut hept => ?_)
  · subst ht
    rw [wp_bind]
    exact afterPhasePoll_spec (s := s.logs evs) 0 hep (fun _ => hok evs hevs) fun h => absurd rfl h
  · rw [wp_bind]
    exact afterPhasePoll_spec ret (hept.trans hep) (fun h => absurd h hret) fun _ => hbad _ _ hcut.trigger rfl

/-! ## A file -/

/-- the poll between two chunks of a file -/
theorem pollBefore_spec (f : TempFile) (o : ℤ) (hep : s.r.errorPage = false) {Q : Option ℤ → St → Prop}
    {E : ρ → St → Prop} (hok : ∀ t evs, t = s.logs evs → Delivered evs [] → Q none t)
    (hbad : ∀ rc t, Cut False s rc t → Q (some rc) t) : wp (pollBefore f o : Handler ρ (Option ℤ)) Q E e s := by
  unfold pollBefore
  refine (wp_ite _ _ _).2 ⟨fun _ => ?_, fun _ => hok s [] (St.logs_nil s).symm Delivered.nil⟩
  rw [pollChunk, wp_call, wp_bind]
  refine phasePoll_spec (fun t evs ht hevs => ?_) (fun ret t hret hcut hept => ?_)
  · subst ht
    rw [wp_bind, wp_get, wp_bind]
    refine (wp_when _ _).2 ⟨fun h => absurd h (by simp [hep]), fun _ => ?_⟩
    rw [wp_bind]
    refine (wp_when _ _).2 ⟨fun h => absurd h (by decide), fun _ => ?_⟩
    rw [wp_bind]
    exact (wp_when _ _).2 ⟨fun h => absurd h (by decide), fun _ => hok _ evs rfl hevs⟩
  · rw [wp_bind, wp_get, wp_bind]
    refine (wp_when _ _).2 ⟨fun h => absurd h (by simp [hept.trans hep]), fun _ => ?_⟩
    rw [wp_bind]
    refine (wp_when _ _).2 ⟨fun hneg => ?_, fun hneg => ?_⟩
    · rw [blockStatus, if_neg (by omega)] at hcut
      exact hbad _ t hcut
    · rw [blockStatus, if_pos (by omega)] at hcut
      rw [wp_bind]
      refine (wp_when _ _).2 ⟨fun _ => ?_, fun h => absurd (by omega : 0 < ret) h⟩
      rw [wp_bind, wp_trigger, wp_exit]
      exact hbad _ _ hcut.trigger

/-- the chunk loop: by induction on what is left of the file -/
theorem requestFileLoop_spec (f : TempFile) (o : ℤ) (hep : s.r.errorPage = false) {Q : ℤ → St → Prop}
    {E : ρ → St → Prop}
    (hok : ∀ t evs, t = s.logs evs → Delivered evs (e.content.range true f.file.id o (f.offset - o).toNat) → Q ngxOk t)
    (hbad : ∀ rc t, Cut False s rc t → Q rc t) : wp (requestFileLoop f o : Handler ρ ℤ) Q E e s := by
  generalize hk : (f.offset - o).toNat = k at hok
  induction k using Nat.strong_induction_on generalizing o s with
  | _ k ih =>
    rw [requestFileLoop]
    refine (wp_dite _ _ _).2 ⟨fun hlt => ?_, fun hlt => ?_⟩
    · rw [wp_bind, wp_readFile]
      set size := min (f.offset - o).toNat requestBodyFileChunkSize with hsize
      set ret := e.ret s.trace (.readFile size o)
      cases hr : ReadResult.of size ret with
      | error =>
        have hneg := ReadResult.of_error hr
        exact hbad _ _ (Cut.single (by simpa [Event.bodyFailure] using hneg.le) rfl rfl)
      | bytes m le =>
        refine (wp_dite _ _ _).2 ⟨fun hm => ?_, fun hm => ?_⟩
        · subst hm
          have hnone := ReadResult.of_zero hr (by rw [hsize, requestBodyFileChunkSize]; omega)
          exact hbad _ _ (Cut.single (by simpa [Event.bodyFailure] using hnone) rfl rfl)
        have hpos := ReadResult.of_pos hr hm
        have hread : Delivered [Event.call (.readFile size o) ret] [] :=
          Delivered.single (by simp [Event.failed]; omega) rfl
        have hmk : m ≤ k := hk ▸ le.trans (min_le_left _ _)
        simp only [wp_bind, wp_ask, wp_engine]
        set chunk := e.content.range true f.file.id o m
        refine (wp_ite _ _ _).2 ⟨fun hrc => ?_, fun hrc => ?_⟩
        · refine hbad _ _ (Cut.after (l := [_]) hread (Cut.single (s := s.log _) ?_ rfl rfl))
          exact decide_eq_true hrc
        · have happ := hread.append (Delivered.chunk s.ctx.corazaTransaction chunk (cInt m) (not_not.1 hrc))
          rw [List.nil_append] at happ
          rw [wp_bind]
          refine pollBefore_spec (s := (s.log _).log _) f _ hep (fun u evs hu hevs => ?_) (fun rc u hcut => ?_)
          · have hsofar := happ.append hevs
            rw [List.append_nil] at hsofar
            rw [St.log_log, St.logs_logs] at hu
            subst hu
            have hnext : (f.offset - (o + m)).toNat = k - m := by omega
            refine ih (k - m) (by omega) (o + m) (s := s.logs _) hep (fun rc u hcut => ?_) hnext
              fun u evs' hu hevs' => ?_
            · exact hbad rc u (Cut.after hsofar hcut)
            · refine hok u _ (by rw [hu, St.logs_logs]) ?_
              have hall := hsofar.append hevs'
              rwa [← Content.range_add, Nat.add_sub_cancel' hmk] at hall
          · rw [St.log_log] at hcut
            exact hbad rc u (Cut.after happ hcut)
    · have h0 : k = 0 := by omega
      subst h0
      exact hok s [] (St.logs_nil s).symm Delivered.nil

/-- a temp file: submitted whole, or cut short -/
theorem appendRequestBodyFile_spec (f : TempFile) (hep : s.r.errorPage = false) {Q : ℤ → St → Prop} {E : ρ → St → Prop}
    (hok : ∀ t evs, t = s.logs evs → 0 ≤ f.offset → Delivered evs (e.content.range true f.file.id 0 f.offset.toNat) →
      Q ngxOk t)
    (hbad : ∀ rc t, Cut (f.offset < 0) s rc t → t.ctx.interventionTriggered = true → Q rc t) :
    wp (appendRequestBodyFile f : Handler ρ ℤ) Q E e s := by
  rw [appendRequestBodyFile, wp_call, wp_bind]
  refine (wp_when _ _).2 ⟨fun h0 => ?_, fun h0 => ?_⟩
  · refine hok s [] (St.logs_nil s).symm (le_of_eq h0.symm) ?_
    rw [h0]
    exact Delivered.nil
  rw [wp_bind]
  refine (wp_when _ _).2 ⟨fun hneg => ?_, fun hneg => ?_⟩
  · rw [wp_bind, wp_trigger, wp_exit]
    exact hbad _ _ (Cut.refuse hneg) rfl
  rw [wp_bind, wp_invoke, wp_bind]
  refine (wp_when _ _).2 ⟨fun hfail => ?_, fun hopen => ?_⟩
  · rw [wp_bind, wp_trigger, wp_exit]
    refine hbad _ _ (Cut.single ?_ rfl rfl).trigger rfl
    simpa [Event.bodyFailure] using hfail
  have hopened : Delivered [Event.call .openFile (e.ret s.trace .openFile)] [] :=
    Delivered.single (by simpa [Event.failed] using hopen) rfl
  rw [wp_bind]
  refine requestFileLoop_spec (s := s.log _) f 0 hep (fun u evs hu hevs => ?_) (fun rc u hcut => ?_)
  · rw [wp_bind, wp_invoke, wp_bind]
    refine (wp_when _ _).2 ⟨fun h => absurd rfl h.1, fun _ => ?_⟩
    rw [St.log_logs] at hu
    subst hu
    have hclose : ∀ rc, Delivered [Event.call .closeFile rc] [] := fun rc => Delivered.single rfl rfl
    refine hok _ _ (St.logs_log _ _ _) (not_lt.1 hneg) ?_
    simpa using (hopened.append hevs).append (hclose _)
  · rw [wp_bind, wp_invoke, wp_bind]
    have hcut' : Cut (f.offset < 0) s rc (u.log (.call .closeFile (e.ret u.trace .closeFile))) :=
      Cut.log (Cut.after (l := [_]) hopened (hcut.mono False.elim)) rfl
    have hpos := hcut.positive
    refine (wp_when _ _).2 ⟨fun _ => ?_, fun h => absurd ⟨?_, ?_⟩ h⟩
    · rw [wp_trigger]
      exact hbad _ _ hcut'.trigger rfl
    · exact hpos.ne'
    · intro hd
      rw [hd] at hpos
      cases hpos

/-! ## A chain in memory -/

/-- the buffers of a chain up to the last one -/
def upToLast : List Buf → List Buf
  | [] => []
  | b :: l => if b.lastBuf then [b] else b :: upToLast l

/-- no buffer behind the last one -/
theorem upToLast_eq (l : List Buf) (h : ∀ pre b post, l = pre ++ b :: post → b.lastBuf = true → post = []) :
    upToLast l = l := by
  induction l with
  | nil => rfl
  | cons b l ih =>
    rw [upToLast]
    split_ifs with hb
    · rw [h [] b l rfl hb]
    · rw [ih fun pre b' post hl => h (b :: pre) b' post (by rw [hl]; rfl)]

/-- what is submitted of a buffer -/
def Buf.chunk (c : Content) (b : Buf) : Bytes := if 0 < sizeT (b.last - b.pos) then b.memBytes c else []

/-- more bytes than an int can count -/
def Buf.Oversize (b : Buf) : Prop := intMax < sizeT (b.last - b.pos)

instance (b : Buf) : Decidable b.Oversize := by unfold Buf.Oversize; infer_instance

/-- the loop over a chain: by induction on it -/
theorem appendChain_spec (l : List Buf) (hep : s.r.errorPage = false) {Q : Unit → St → Prop} {E : ℤ → St → Prop}
    (hok : ∀ t evs, t = s.logs evs → (∀ b ∈ upToLast l, ¬ b.Oversize) →
      Delivered evs ((upToLast l).flatMap (Buf.chunk e.content)) → Q () t)
    (hbad : ∀ rc t, Cut (∃ b ∈ upToLast l, b.Oversize) s rc t → t.ctx.interventionTriggered = true → E rc t) :
    wp (appendChain l) Q E e s := by
  induction l generalizing s with
  | nil => exact hok s [] (St.logs_nil s).symm (fun _ h => absurd h List.not_mem_nil) Delivered.nil
  | cons b l ih =>
    rw [upToLast] at hok
    -- from the point where the buffer has been submitted, `evs` logged
    have next : ∀ evs, ¬ b.Oversize → Delivered evs (b.chunk e.content) → wp (do
        if b.lastBuf then pure ()
        else
          afterPhasePoll (← processIntervention false)
          appendChain l : Handler ℤ Unit) Q E e (s.logs evs) := by
      intro evs hsize hevs
      refine (wp_ite _ _ _).2 ⟨fun hb => ?_, fun hb => ?_⟩
      · rw [if_pos hb] at hok
        refine hok _ evs rfl (fun x hx => by rwa [List.mem_singleton.1 hx]) ?_
        simpa using hevs
      · rw [if_neg hb] at hok
        refine phasePoll_then (s := s.logs evs) hep (fun evs' hevs' => ?_)
          fun rc t hcut => hbad rc t (Cut.after hevs (hcut.mono False.elim))
        have hsofar := hevs.append hevs'
        rw [List.append_nil] at hsofar
        rw [St.logs_logs]
        have hlater : (∃ x ∈ upToLast l, x.Oversize) → ∃ x ∈ upToLast (b :: l), x.Oversize := by
          rintro ⟨x, hx, hbig⟩
          rw [upToLast, if_neg hb]
          exact ⟨x, List.mem_cons_of_mem b hx, hbig⟩
        refine ih hep (fun t evs'' ht hl hevs'' => ?_)
          (fun rc t hcut => hbad rc t (Cut.after hsofar (hcut.mono hlater)))
        refine hok t ((evs ++ evs') ++ evs'') (by rw [ht, St.logs_logs]) (List.forall_mem_cons.2 ⟨hsize, hl⟩) ?_
        rw [List.flatMap_cons]
        exact hsofar.append hevs''
    rw [appendChain, wp_bind, wp_ask, wp_bind]
    refine (wp_when _ _).2 ⟨fun hbig => ?_, fun hbig => ?_⟩
    · rw [wp_bind, wp_trigger, wp_exit]
      refine hbad _ _ (Cut.refuse ⟨b, ?_, hbig⟩) rfl
      rw [upToLast]
      split_ifs <;> exact List.mem_cons_self
    · rw [wp_bind]
      refine (wp_when _ _).2 ⟨fun hpos => ?_, fun hzero => ?_⟩
      · rw [wp_bind, wp_engine]
        refine (wp_when _ _).2 ⟨fun hrc => ?_, fun hrc => ?_⟩
        · rw [wp_bind, wp_trigger, wp_exit]
          refine hbad _ _ (Cut.single ?_ rfl rfl).trigger rfl
          simpa [Event.bodyFailure] using hrc
        · refine next [_] hbig ?_
          rw [Buf.chunk, if_pos hpos]
          exact Delivered.chunk _ _ _ (not_not.1 hrc)
      · have h := next [] hbig
        rw [Buf.chunk, if_neg hzero, St.logs_nil] at h
        exact h Delivered.nil

/-! ## A body -/

/-- what is submitted of a body -/
def RequestBody.chunks (c : Content) (rb : RequestBody) : Bytes :=
  match rb.tempFile with
  | some f => c.range true f.file.id 0 f.offset.toNat
  | none => (upToLast rb.bufs).flatMap (Buf.chunk c)

/-- a body the handler refuses to submit: a negative size is recorded for the file, or a buffer is too long -/
def RequestBody.Refused (rb : RequestBody) : Prop :=
  match rb.tempFile with
  | some f => f.offset < 0
  | none => ∃ b ∈ upToLast rb.bufs, b.Oversize

/-- **A body.** Submitted whole, or cut short with the context marked. -/
theorem appendBody_spec (rb : RequestBody) (hep : s.r.errorPage = false) {Q : Unit → St → Prop} {E : ℤ → St → Prop}
    (hok : ∀ t evs, t = s.logs evs → ¬ rb.Refused → Delivered evs (rb.chunks e.content) → Q () t)
    (hbad : ∀ rc t, Cut rb.Refused s rc t → t.ctx.interventionTriggered = true → E rc t) :
    wp (appendBody rb) Q E e s := by
  rw [appendBody]
  unfold RequestBody.Refused RequestBody.chunks at hok
  unfold RequestBody.Refused at hbad
  cases hf : rb.tempFile with
  | some f =>
    rw [hf] at hok hbad
    rw [wp_bind]
    refine appendRequestBodyFile_spec f hep (fun t evs ht hsize hevs => ?_) (fun rc t hcut htrig => ?_)
    · exact (wp_when _ _).2 ⟨fun h => absurd rfl h, fun _ => hok t evs ht (not_lt.2 hsize) hevs⟩
    · exact (wp_when _ _).2 ⟨fun _ => hbad rc t hcut htrig, fun h => absurd hcut.positive.ne' h⟩
  | none =>
    rw [hf] at hok hbad
    refine appendChain_spec rb.bufs hep (fun t evs ht hsize hevs => ?_) hbad
    exact hok t evs ht (fun ⟨b, hb, hbig⟩ => hsize b hb hbig) hevs

/-! ## Phase 2 -/

/-- behind an evaluation there is at most a poll and the bookkeeping around it -/
def Trace.Tail (t : Trace) : Prop := ∀ ev ∈ t, ev.isPoll = true ∨ ev.isAux = true

theorem Trace.Tail.idle {t : Trace} (h : t.Tail) : t.Idle := by
  intro ev hev
  rcases h ev hev with hp | ha
  · cases ev with
    | poll => rfl
    | call => cases hp
  · exact Event.inspects_of_aux ha

/-- what the evaluation of phase 2 can come to -/
inductive PhaseEnd (s : St) : ℤ → St → Prop where
  | passed (tx : ℕ) (pret : ℤ) (evs : Trace) (clean : Trace.Clean (.call (.engine tx .processRequestBody) pret :: evs))
      (tail : evs.Tail) : PhaseEnd s ngxDeclined (s.logs (.call (.engine tx .processRequestBody) pret :: evs))
  | refused (tx : ℕ) (pret rc : ℤ) (evs : Trace) (t : St)
      (trace : t.trace = s.trace ++ .call (.engine tx .processRequestBody) pret :: evs) (tail : evs.Tail)
      (account : Account s.r.headerSent s.r.headersOut (.call (.engine tx .processRequestBody) pret :: evs) rc
        t.r.headersOut)
      (ends : ∃ ev ∈ Event.call (.engine tx .processRequestBody) pret :: evs, ev.endsEntry = true)
      (triggered : t.ctx.interventionTriggered = true) (submitted : t.ctx.bodySubmitted = s.ctx.bodySubmitted) :
      PhaseEnd s rc t

theorem processRequestBodyPhase_end (hep : s.r.errorPage = false) {Q : ℤ → St → Prop} {E : ρ → St → Prop}
    (hQ : ∀ rc t, PhaseEnd s rc t → Q rc t) : wp (processRequestBodyPhase : Handler ρ ℤ) Q E e s := by
  rw [processRequestBodyPhase, wp_call, wp_bind, wp_engine, wp_bind]
  set pret := e.ret s.trace (.engine s.ctx.corazaTransaction .processRequestBody)
  set ev := Event.call (.engine s.ctx.corazaTransaction .processRequestBody) pret
  refine (wp_when _ _).2 ⟨fun hneg => ?_, fun hneg => ?_⟩
  · rw [wp_bind, wp_trigger, wp_exit]
    have hends : ev.endsEntry = true :=
      Event.endsEntry_of_failed rfl (by simpa [ev, Event.failed, processBodyFailed] using hneg)
    refine hQ _ _ (.refused _ _ _ [] _ rfl (fun _ h => absurd h List.not_mem_nil) (.internal _ ?_)
      ⟨ev, List.mem_cons_self, hends⟩ rfl rfl)
    exact fun x hx => by rw [List.mem_singleton.1 hx]; rfl
  · have hclean : Trace.Clean [ev] :=
      Trace.clean_single.2 (by simpa [ev, Event.failed, processBodyFailed] using hneg)
    -- no poll is made
    have skip : wp (do
        afterPhasePoll ngxOk
        return ngxDeclined : Handler ℤ ℤ) Q Q e (s.log ev) := by
      rw [wp_bind]
      refine afterPhasePoll_spec (s := s.log ev) _ hep (fun _ => ?_) fun h => absurd rfl h
      exact hQ _ _ (.passed _ _ [] hclean fun _ h => absurd h List.not_mem_nil)
    rw [wp_bind]
    refine pollAfterProcess_spec false pret (fun h => ?_) (fun _ _ => skip) (fun _ => ?_)
    · exact absurd (by simpa [processBodyFailed] using h) hneg
    · refine processIntervention_spec false fun t evs h' l ht haux hlate hzero hinst => ?_
      obtain rfl := hlate rfl
      subst ht
      have htail : Trace.Tail (pollEvent e (s.log ev) :: evs) := by
        refine List.forall_mem_cons.2 ⟨Or.inl rfl, fun x hx => Or.inr (haux x hx)⟩
      rw [wp_bind]
      refine afterPhasePoll_spec (s := (s.log ev).polled _ h' _) _ hep (fun hrc => ?_) (fun hrc => ?_)
      · obtain ⟨hc, rfl⟩ := hzero hrc
        have hpoll : Trace.Clean [pollEvent e (s.log ev)] :=
          Trace.clean_single.2 (by simpa [pollEvent, Event.failed] using hrc)
        have hend := hQ _ _ (.passed (s := s) _ _ _
          (Trace.clean_append.2 ⟨hclean, Trace.clean_append.2 ⟨hpoll, hc⟩⟩) htail)
        rw [St.polled_self, St.log_logs]
        exact hend
      · have hends : (pollEvent e (s.log ev)).endsEntry = true :=
          Event.endsEntry_of_interrupts (by simpa [pollEvent, Event.interrupts] using hrc)
        refine hQ _ _ (.refused _ _ _ _ _ ?_ htail (.polled [ev] evs _ _ h' hclean haux hrc hinst)
          ⟨_, List.mem_cons_of_mem _ List.mem_cons_self, hends⟩ rfl rfl)
        exact List.append_assoc _ _ _

/-! ## One entry -/

/-- the body nginx holds when the handler has it -/
def heldBody (e : Env) (s : St) : Option RequestBody :=
  if s.ctx.bodyRequested then s.r.requestBody else e.requestBody s.r.askBody

/-- the handler has the body, and has not submitted it -/
structure Ready (e : Env) (s : St) : Prop where
  waiting : s.ctx.waitingMoreBody = false
  submitted : s.ctx.bodySubmitted = false
  atOnce : s.ctx.bodyRequested = false → HasBodyAtOnce e s

/-- what an entry of the pre-access handler can come to while no error page is on the wire -/
inductive Entry (e : Env) (s : St) : ℤ → St → Prop where
  /-- nothing is submitted or evaluated -/
  | aside (rc : ℤ) (evs : Trace) (t : St) (trace : t.trace = s.trace ++ evs) (clean : evs.Clean) (idle : evs.Idle)
      (submitted : t.ctx.bodySubmitted = s.ctx.bodySubmitted)
      (triggered : t.ctx.interventionTriggered = s.ctx.interventionTriggered)
      (unready : s.r.loc.enable = 1 → s.ctx.interventionTriggered = false → Ready e s → heldBody e s = none)
      (declined : rc = ngxDeclined → s.r.loc.enable = 1 → s.ctx.interventionTriggered = false →
        s.ctx.bodySubmitted = true ∨ Ready e s ∧ heldBody e s = none) : Entry e s rc t
  /-- phase 2 of a transaction that does not want the body -/
  | off (evs : Trace) (rc : ℤ) (m t : St) (trace : m.trace = s.trace ++ evs) (delivered : Delivered evs [])
      (access : s.ctx.bodyRequested = false ∧
        e.ret s.trace (.engine s.ctx.corazaTransaction .isRequestBodyAccessible) = 0)
      (triggered : m.ctx.interventionTriggered = s.ctx.interventionTriggered) (out : PhaseEnd m rc t) : Entry e s rc t
  /-- the submission is cut short -/
  | cut (evs : Trace) (rc : ℤ) (m t : St) (trace : m.trace = s.trace ++ evs) (delivered : Delivered evs [])
      (ready : Ready e s) (out : Cut (∃ rb, heldBody e s = some rb ∧ rb.Refused) m rc t)
      (triggered : t.ctx.interventionTriggered = true) : Entry e s rc t
  /-- the body is submitted and phase 2 evaluated -/
  | evaluated (evs : Trace) (rb : RequestBody) (rc : ℤ) (m t : St) (trace : m.trace = s.trace ++ evs)
      (ready : Ready e s) (held : heldBody e s = some rb) (fits : ¬ rb.Refused)
      (delivered : Delivered evs (rb.chunks e.content)) (submitted : m.ctx.bodySubmitted = true)
      (triggered : m.ctx.interventionTriggered = s.ctx.interventionTriggered) (out : PhaseEnd m rc t) : Entry e s rc t

/-- submitting the body the request holds: behind `evs`, logged since `u` -/
theorem submitRequestBody_entry {u : St} {evs : Trace} (htr : s.trace = u.trace ++ evs)
    (hevs : Trace.Clean evs ∧ Trace.Idle evs) (hep : s.r.errorPage = false) (hready : Ready e u)
    (hheld : s.r.requestBody = heldBody e u) (hsub : s.ctx.bodySubmitted = u.ctx.bodySubmitted)
    (htrig : s.ctx.interventionTriggered = u.ctx.interventionTriggered) {Q : Unit → St → Prop} {E : ℤ → St → Prop}
    (hE : ∀ rc t, Entry e u rc t → E rc t) :
    wp submitRequestBody Q E e s := by
  have hquiet : Delivered evs [] := Delivered.idle hevs.1 hevs.2
  rw [submitRequestBody, wp_bind, wp_get]
  cases hrb : s.r.requestBody with
  | none =>
    rw [hrb] at hheld
    exact hE _ _ (.aside _ evs s htr hevs.1 hevs.2 hsub htrig (fun _ _ _ => hheld.symm)
      fun _ _ _ => Or.inr ⟨hready, hheld.symm⟩)
  | some rb =>
    rw [hrb] at hheld
    rw [wp_bind, wp_modify, wp_bind]
    set s1 := s.setCtx { s.ctx with bodySubmitted := true } with hs1
    have htr1 : s1.trace = u.trace ++ evs := htr
    refine appendBody_spec (s := s1) rb hep (fun t evs1 ht hfits hevs1 => ?_) (fun rc t hcut ht => ?_)
    · subst ht
      refine phasePoll_then (s := s1.logs evs1) hep (fun evs2 hevs2 => ?_) (fun rc t hcut ht => ?_)
      · rw [St.logs_logs, wp_bind]
        refine processRequestBodyPhase_end (s := s1.logs (evs1 ++ evs2)) hep fun rc t hend => ?_
        refine hE rc t
          (.evaluated (evs ++ (evs1 ++ evs2)) rb rc (s1.logs (evs1 ++ evs2)) t ?_ hready hheld.symm hfits ?_
          rfl htrig hend)
        · rw [St.logs_trace, htr1, List.append_assoc]
        · simpa using hquiet.append (hevs1.append hevs2)
      · exact hE rc t (.cut evs rc s1 t htr1 hquiet hready (Cut.after hevs1 (hcut.mono False.elim)) ht)
    · exact hE rc t (.cut evs rc s1 t htr1 hquiet hready (hcut.mono fun href => ⟨rb, hheld.symm, href⟩) ht)

/-- the handler has asked for the body: `evs` logged, the flags and the request as they are then -/
structure AskedFor (e : Env) (s t : St) (evs : Trace) : Prop where
  trace : t.trace = s.trace ++ evs
  quiet : evs.Clean ∧ evs.Idle
  submitted : t.ctx.bodySubmitted = s.ctx.bodySubmitted
  triggered : t.ctx.interventionTriggered = s.ctx.interventionTriggered
  waiting : s.ctx.waitingMoreBody = false → t.ctx.waitingMoreBody = false
  errorPage : t.r.errorPage = s.r.errorPage
  body : t.r.requestBody = e.requestBody s.r.askBody

/-- nginx's answer to the read, with the callback it may have called -/
theorem readClientRequestBody_asked {u : St} {l : Trace} (htr : s.trace = u.trace ++ l)
    (hevs : l.Clean ∧ l.Idle) (hr : s.r = u.r.askBody)
    (hc : s.ctx = { u.ctx with bodyRequested := true }) {Q : ℤ → St → Prop} {E : ρ → St → Prop}
    (hQ : ∀ t l', AskedFor e u t l' → Q (e.ret s.trace .readClientRequestBody) t) :
    wp (readClientRequestBody : Handler ρ ℤ) Q E e s := by
  rw [readClientRequestBody, wp_bind, wp_ask, wp_bind, wp_invoke, wp_bind, wp_modify, wp_bind]
  generalize e.ret s.trace .readClientRequestBody = rc at hQ ⊢
  have hread : Trace.Clean [.call .readClientRequestBody rc] ∧ Trace.Idle [.call .readClientRequestBody rc] :=
    ⟨Trace.clean_single.2 rfl, Trace.idle_single.2 rfl⟩
  have hevs1 : Trace.Clean (l ++ [.call .readClientRequestBody rc]) ∧
      Trace.Idle (l ++ [.call .readClientRequestBody rc]) :=
    ⟨Trace.clean_append.2 ⟨hevs.1, hread.1⟩, Trace.idle_append.2 ⟨hevs.2, hread.2⟩⟩
  have htr1 : s.trace ++ [.call .readClientRequestBody rc] = u.trace ++ (l ++ [.call .readClientRequestBody rc]) := by
    rw [htr, List.append_assoc]
  refine (wp_when _ _).2 ⟨fun _ => ?_, fun _ => ?_⟩
  · rw [requestRead, wp_bind, wp_modify, wp_bind, wp_get]
    refine (wp_when _ _).2 ⟨fun hw => ?_, fun hw => ?_⟩
    · rw [wp_bind, wp_modify, wp_bind, wp_invoke]
      generalize e.ret _ Call.runPhases = answer
      refine hQ _ ((l ++ [.call .readClientRequestBody rc]) ++ [.call .runPhases answer])
        ⟨?_, ⟨?_, ?_⟩, ?_, ?_, fun _ => rfl, ?_, ?_⟩
      · simp [htr]
      · exact Trace.clean_append.2 ⟨hevs1.1, Trace.clean_single.2 rfl⟩
      · exact Trace.idle_append.2 ⟨hevs1.2, Trace.idle_single.2 rfl⟩
      · simp [hc]
      · simp [hc]
      · simp [hr, Request.askBody]
      · simp [hr]
    · refine hQ _ _ ⟨htr1, hevs1, ?_, ?_, fun h => ?_, ?_, ?_⟩
      · simp [hc]
      · simp [hc]
      · simpa [hc] using h
      · simp [hr, Request.askBody]
      · simp [hr]
  · refine hQ _ _ ⟨htr1, hevs1, ?_, ?_, fun h => ?_, ?_, ?_⟩
    · simp [hc]
    · simp [hc]
    · simpa [hc] using h
    · simp [hr, Request.askBody]
    · simp [hr]

/-- asking for the body: phase 2 evaluated without it, nothing to submit yet, or the body is there -/
theorem requestBodyAccess_entry (hep : s.r.errorPage = false) (hreq : s.ctx.bodyRequested = false)
    {Q : Unit → St → Prop} {E : ℤ → St → Prop} (hE : ∀ rc t, Entry e s rc t → E rc t)
    (hgo : ∀ t evs, HasBodyAtOnce e s → AskedFor e s t evs → Q () t) : wp requestBodyAccess Q E e s := by
  rw [requestBodyAccess, wp_bind, wp_engine, wp_bind]
  change wp _ _ E e (s.log (accessEvent e s))
  have haccess : Trace.Clean [accessEvent e s] ∧ Trace.Idle [accessEvent e s] :=
    ⟨Trace.clean_single.2 rfl, Trace.idle_single.2 rfl⟩
  refine (wp_when _ _).2 ⟨fun hoff => ?_, fun hon => ?_⟩
  · rw [wp_bind]
    refine processRequestBodyPhase_end (s := s.log (accessEvent e s)) hep fun rc t hend => ?_
    exact hE rc t (.off [_] rc (s.log (accessEvent e s)) t rfl (Delivered.idle haccess.1 haccess.2) ⟨hreq, hoff⟩
      rfl hend)
  · -- a return without the body: the read failed, or is under way
    have stop : ∀ rc t evs, AskedFor e s t evs → rc ≠ ngxDeclined → ¬ HasBodyAtOnce e s → Entry e s rc t :=
      fun rc t evs h hd hno => .aside rc evs t h.trace h.quiet.1 h.quiet.2 h.submitted h.triggered
        (fun _ _ hready => absurd (hready.atOnce hreq) hno) fun h' => absurd h' hd
    rw [wp_bind, wp_modify, wp_bind]
    refine readClientRequestBody_asked (u := s) (l := [accessEvent e s]) rfl haccess rfl rfl fun t evs ht => ?_
    rw [wp_bind]
    refine (wp_when _ _).2 ⟨fun hbad => ?_, fun hgood => ?_⟩
    · refine hE _ _ (stop _ t evs ht ?_ fun hb => ?_)
      · intro hd
        rw [hd] at hbad
        rcases hbad with hbad | hbad <;> cases hbad
      · rcases hbad with hbad | hbad
        · exact hb.2.1 hbad
        · exact absurd hbad (not_le.2 hb.2.2.1)
    rw [not_or, not_le] at hgood
    refine (wp_when _ _).2 ⟨fun hagain => ?_, fun hagain => ?_⟩
    · rw [wp_bind, wp_modify, wp_exit]
      refine hE _ _ (.aside _ evs _ ht.trace ht.quiet.1 ht.quiet.2 ht.submitted ht.triggered (fun _ _ hready => ?_)
        fun h' => absurd h' (by decide))
      exact absurd hagain (hready.atOnce hreq).2.2.2
    · exact hgo t evs ⟨hon, hgood.1, hgood.2, hagain⟩ ht

/-- **One entry.** While no error page is on the wire the handler comes to one of the listed outcomes. -/
theorem preAccessHandler_entry (hep : s.r.errorPage = false) :
    wp (preAccessHandler : Handler ℤ ℤ) (Entry e s) (Entry e s) e s := by
  have hnil : Trace.Clean [] ∧ Trace.Idle [] := ⟨Trace.Clean.nil, fun _ h => absurd h List.not_mem_nil⟩
  -- turned away at once
  have away : ∀ rc, (s.r.loc.enable = 1 → s.ctx.interventionTriggered = false → ¬ Ready e s) →
      (rc = ngxDeclined → s.r.loc.enable = 1 → s.ctx.interventionTriggered = false → s.ctx.bodySubmitted = true) →
      Entry e s rc s := fun rc hno hd =>
    .aside rc [] s (List.append_nil _).symm hnil.1 hnil.2 rfl rfl (fun h1 h2 h3 => absurd h3 (hno h1 h2))
      fun h1 h2 h3 => Or.inl (hd h1 h2 h3)
  rw [preAccessHandler, wp_call, wp_bind, wp_get, wp_bind]
  refine (wp_when _ _).2 ⟨fun hoff => away _ (fun h => absurd h hoff) fun _ h => absurd h hoff, fun hon => ?_⟩
  rw [wp_bind]
  refine (wp_when _ _).2 ⟨fun ht => ?_, fun ht => ?_⟩
  · exact away _ (fun _ h => absurd (ht.symm.trans h) (by decide)) fun _ _ h => absurd (ht.symm.trans h) (by decide)
  rw [wp_bind]
  refine (wp_when _ _).2 ⟨fun hw => ?_, fun hw => ?_⟩
  · exact away _ (fun _ _ h => absurd (hw.symm.trans h.waiting) (by decide)) fun h => absurd h (by decide)
  have hw' : s.ctx.waitingMoreBody = false := by simpa using hw
  -- what is left once the body is there, `evs` logged
  have submit : ∀ u evs, u.trace = s.trace ++ evs → evs.Clean ∧ evs.Idle → u.r.errorPage = false →
      u.r.requestBody = heldBody e s → u.ctx.waitingMoreBody = false → u.ctx.bodySubmitted = s.ctx.bodySubmitted →
      u.ctx.interventionTriggered = s.ctx.interventionTriggered → (s.ctx.bodyRequested = false → HasBodyAtOnce e s) →
      wp (do
        let s ← get
        when (!s.ctx.waitingMoreBody && !s.ctx.bodySubmitted) submitRequestBody
        return ngxDeclined : Handler ℤ ℤ) (Entry e s) (Entry e s) e u := by
    intro u evs htr hevs hepu hheld hwu hsub htrig hat
    rw [wp_bind, wp_get, wp_bind]
    refine (wp_when _ _).2 ⟨fun hc => ?_, fun hc => ?_⟩
    · have hready : Ready e s := ⟨hw', by simpa [hwu, hsub] using hc, hat⟩
      exact submitRequestBody_entry htr hevs hepu hready hheld hsub htrig fun _ _ h => h
    · have hdone : s.ctx.bodySubmitted = true := by simpa [hwu, hsub] using hc
      refine .aside _ evs u htr hevs.1 hevs.2 hsub htrig (fun _ _ hready => ?_) fun _ _ _ => Or.inl hdone
      exact absurd (hdone.symm.trans hready.submitted) (by decide)
  rw [wp_bind]
  refine (wp_when _ _).2 ⟨fun hnew => ?_, fun hold => ?_⟩
  · have hreq : s.ctx.bodyRequested = false := by simpa using hnew
    refine requestBodyAccess_entry hep hreq (fun _ _ h => h) fun u evs hat hu => ?_
    have hheld : heldBody e s = e.requestBody s.r.askBody := by simp [heldBody, hreq]
    exact submit u evs hu.trace hu.quiet (hu.errorPage.trans hep) (hu.body.trans hheld.symm) (hu.waiting hw')
      hu.submitted
      hu.triggered fun _ => hat
  · have hreq : s.ctx.bodyRequested = true := by simpa using hold
    have hheld : heldBody e s = s.r.requestBody := by simp [heldBody, hreq]
    exact submit s [] (List.append_nil _).symm hnil hep hheld.symm hw' rfl rfl fun h =>
      absurd (hreq.symm.trans h) (by decide)

end CorazaNginx
