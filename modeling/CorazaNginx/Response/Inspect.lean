/-
One buffer through the filter's loop.

- `appendBuf_spec`: the engine gets exactly the buffer's bytes, or the response is ended.
- `inspectBuf_spec`, `finishBody_spec`: the two polls; anything but NGX_OK ends the response.
- `enqueueBuf_spec`: while the headers are delayed the buffer's stand-in joins the queue, or the response is ended.
- `bodyFilterBuf_spec`: the three together. What a successful iteration does to the state is `St.enqueued`, a function
  of the buffer alone, so that a whole chain's effect can be written down (`St.queueAll`).
-/
import Mathlib.Tactic
import CorazaNginx.Response.Buffers
import CorazaNginx.Response.Ending

namespace CorazaNginx

open CorazaNginx.Core Prog Handler

variable {ρ : Type} {e : Env} {s : St}

/-! ## Submitting -/

/-- a buffer the filter refuses to inspect: an inverted file range, or more bytes in memory than an int can count -/
def Buf.Rejected (b : Buf) : Prop :=
  match b.fileBacked with
  | some _ => b.fileLast < b.filePos
  | none => intMax < bodyChunkLen b

/-- a file range is not inverted -/
def Buf.Ordered (b : Buf) : Prop := b.fileBacked.isSome → b.filePos ≤ b.fileLast

theorem Blocked.of_logs {P : Prop} {l : Trace} {t : St} (h : Broken l P)
    (hx : Exit e ngxHttpInternalServerError (s.logs l).trigger t) : Blocked e 0 P s t :=
  ⟨_, _, Stopped.of_logs h.toRefused h.silent, hx⟩

theorem appendBuf_spec (b : Buf) {Q : Unit → St → Prop} {E : ℤ → St → Prop}
    (hok : ∀ s' evs, s' = s.logs evs → b.Ordered → Stretch evs (b.bytes e.content) 0 → Q () s')
    (hbad : ∀ rc t, Blocked e 0 b.Rejected s t → E rc t) : wp (appendBuf b) Q E e s := by
  unfold appendBuf
  cases hf : b.fileBacked with
  | some f =>
    have hrej : b.Rejected ↔ b.fileLast < b.filePos := by unfold Buf.Rejected; rw [hf]
    rw [wp_bind]
    refine appendResponseBodyFile_spec b f (fun s' evs hs' hord hevs => ?_) (fun s' evs hs' href => ?_)
    · refine (wp_when _ _).2 ⟨fun h => absurd rfl h, fun _ => ?_⟩
      exact hok s' evs hs' (fun _ => hord) (by rwa [Buf.bytes_of_file hf])
    · refine (wp_when _ _).2 ⟨fun _ => ?_, fun h => absurd (by decide) h⟩
      rw [wp_bind]
      refine bodyFilterFinalize_spec _ fun rc t hx => hbad rc t ?_
      exact Blocked.of_logs (href.mono hrej.2) (hs' ▸ hx)
  | none =>
    have hrej : b.Rejected ↔ intMax < bodyChunkLen b := by unfold Buf.Rejected; rw [hf]
    have hord : b.Ordered := fun h => by rw [hf] at h; cases h
    rw [wp_bind]
    refine (wp_when _ _).2 ⟨fun hlen => ?_, fun _ => ?_⟩
    · refine block_spec _ fun rc t hx => hbad rc t (Blocked.of_logs (l := []) ?_ ?_)
      · exact Broken.nil (hrej.2 hlen)
      · rwa [St.logs_nil]
    rw [wp_bind]
    refine readBodyData_spec b (fun s' evs hs' hevs => ?_) (fun s' evs hs' href => ?_)
    · rw [Buf.data_eq_of_none hf]
      refine (wp_when _ _).2 ⟨fun hne => ?_, fun hne => ?_⟩
      · rw [wp_bind, wp_engine]
        refine (wp_when _ _).2 ⟨fun hrc => ?_, fun hrc => ?_⟩
        · refine block_spec _ fun rc t hx => hbad rc t ?_
          subst hs'
          rw [St.logs_log] at hx
          exact Blocked.of_logs (hevs.broken (Broken.append_call hrc)) hx
        · subst hs'
          refine hok _ (evs ++ [_]) (St.logs_log s evs _) hord ?_
          exact hevs.append (Stretch.append_call _ (b.bytes e.content) _ (not_not.1 hrc))
      · rw [not_not.1 hne] at hok
        exact hok s' evs hs' hord hevs
    · refine block_spec _ fun rc t hx => hbad rc t ?_
      subst hs'
      exact Blocked.of_logs (href.mono False.elim) hx

/-! ## Polling -/

/-- the branch on a poll's result when no error page is on the wire -/
theorem afterPoll_spec (ret : ℤ) (hep : s.r.errorPage = false) {Q : Unit → St → Prop} {E : ℤ → St → Prop}
    (hok : ret = 0 → Q () s) (hbad : ret ≠ 0 → ∀ rc t, Exit e (blockStatus ret) s.trigger t → E rc t) :
    wp (afterPoll ret) Q E e s := by
  rw [afterPoll, wp_bind, wp_get, wp_bind]
  refine (wp_when _ _).2 ⟨fun h => absurd h (by simp [hep]), fun _ => ?_⟩
  rw [wp_bind]
  refine (wp_when _ _).2 ⟨fun hpos => ?_, fun hpos => ?_⟩
  · rw [blockStatus, if_pos hpos] at hbad
    exact block_spec _ (hbad (by omega))
  · rw [blockStatus, if_neg hpos] at hbad
    refine (wp_when _ _).2 ⟨fun hneg => ?_, fun hneg => ?_⟩
    · exact block_spec _ (hbad (by omega))
    · exact hok (by omega)

theorem Refused.poll {evs : Trace} {P : Prop} (haux : ∀ ev ∈ evs, ev.isAux = true)
    (hrc : interventionRc s.r.headerSent (e.intervention s.trace) ≠ 0) : Refused (pollEvent e s :: evs) 0 P := by
  have hpoll : Refused [pollEvent e s] 0 P := Refused.single rfl rfl (by simpa [pollEvent, Event.failed] using hrc)
  refine hpoll.append (fun ev hev => Event.isOutput_of_aux (haux ev hev)) ?_
    fun ev hev => Event.inspects_of_aux (haux ev hev)
  exact List.countP_eq_zero.2 fun ev hev => by rw [Event.isEval_of_aux (haux ev hev)]; decide

theorem Stretch.poll {evs : Trace} (haux : ∀ ev ∈ evs, ev.isAux = true) (hclean : evs.Clean)
    (hrc : interventionRc s.r.headerSent (e.intervention s.trace) = 0) : Stretch (pollEvent e s :: evs) [] 0 := by
  have hpoll : Stretch [pollEvent e s] [] 0 := Stretch.single rfl (by simpa [pollEvent, Event.failed] using hrc)
  exact hpoll.append (Stretch.aux haux hclean)

/-- a poll and the branch on its result -/
theorem poll_spec (hep : s.r.errorPage = false) {P : Prop} {Q : Unit → St → Prop} {E : ℤ → St → Prop}
    (hok : ∀ s' evs, s' = s.logs evs → Stretch evs [] 0 → Q () s') (hbad : ∀ rc t, Blocked e 0 P s t → E rc t) :
    wp (processIntervention false : Handler ℤ ℤ) (fun ret => wp (afterPoll ret) Q E e) E e s := by
  refine processIntervention_spec false fun s' evs h' l hs' haux hlate hzero hinst => ?_
  obtain rfl := hlate rfl
  subst hs'
  refine afterPoll_spec (s := s.polled _ h' _) _ hep (fun hrc => ?_) (fun hrc rc t hx => hbad rc t ?_)
  · obtain ⟨hclean, rfl⟩ := hzero hrc
    exact hok _ _ (St.polled_self s _) (Stretch.poll haux hclean hrc)
  · refine ⟨_, _, ?_, hx⟩
    refine ⟨⟨_, rfl, Refused.poll haux hrc, ?_⟩, ⟨h', rfl⟩, rfl, rfl, fun _ => rfl, rfl⟩
    exact .polled [] evs _ _ h' Trace.Clean.nil haux hrc hinst

theorem inspectBuf_spec (b : Buf) (hep : s.r.errorPage = false) {Q : Unit → St → Prop} {E : ℤ → St → Prop}
    (hok : ∀ s' evs, s' = s.logs evs → b.Ordered → Stretch evs (b.bytes e.content) 0 → Q () s')
    (hbad : ∀ rc t, Blocked e 0 b.Rejected s t → E rc t) : wp (inspectBuf b) Q E e s := by
  rw [inspectBuf, wp_bind]
  refine appendBuf_spec b (fun s' evs hs' hord hevs => ?_) hbad
  subst hs'
  rw [wp_bind]
  refine poll_spec (s := s.logs evs) hep (fun s'' evs' hs'' hevs' => ?_)
    (fun rc t ht => hbad rc t (Blocked.after_logs hevs ht))
  refine hok s'' (evs ++ evs') (by rw [hs'', St.logs_logs]) hord ?_
  simpa using hevs.append hevs'

/-- phase 4 at the last buffer: evaluated once, and either nothing came of it or the response is ended -/
theorem finishBody_spec (hep : s.r.errorPage = false) {P : Prop} {Q : Unit → St → Prop} {E : ℤ → St → Prop}
    (hok : ∀ s' evs, s' = s.logs evs → Stretch evs [] 1 → Q () s')
    (hbad : ∀ rc t, Blocked e 1 P s t → E rc t) : wp finishBody Q E e s := by
  rw [finishBody, wp_bind, wp_engine, wp_bind]
  set pret := e.ret s.trace (.engine s.ctx.corazaTransaction .processResponseBody)
  set ev := Event.call (.engine s.ctx.corazaTransaction .processResponseBody) pret
  refine (wp_when _ _).2 ⟨fun hneg => ?_, fun hneg => ?_⟩
  · refine block_spec _ fun rc t hx => hbad rc t ⟨_, _, Stopped.of_logs (l := [ev]) ?_ ?_, hx⟩
    · refine ⟨Trace.quiet_single.2 rfl, le_rfl, Or.inl fun hc => ?_, Trace.ErrorLast.single ev⟩
      have h0 : (decide (pret < 0)) = false := Trace.clean_single.1 hc
      rw [show decide (pret < 0) = true from hneg] at h0
      cases h0
    · exact fun x hx => by rw [List.mem_singleton.1 hx]; rfl
  · have hev : Stretch [ev] [] 1 := Stretch.single rfl (by simpa [ev, Event.failed, processBodyFailed] using hneg)
    rw [wp_bind]
    refine pollAfterProcess_spec false pret (fun h => absurd (by simpa [processBodyFailed] using h) hneg) ?_ ?_
    · intro _ _
      exact afterPoll_spec (s := s.log ev) _ hep (fun _ => hok _ [ev] rfl hev) (fun h => absurd rfl h)
    · intro _
      refine poll_spec (s := s.log ev) (P := P) hep (fun s' evs hs' hevs => ?_) (fun rc t ht => hbad rc t ?_)
      · exact hok s' ([ev] ++ evs) (hs'.trans (St.log_logs s ev evs)) (by simpa using hev.append hevs)
      · exact Blocked.after_logs (l := [ev]) hev ht

/-! ## Queueing -/

/-- the link queued for the i-th buffer of the chain -/
def queueLink (c : Content) (x : Buf × ℕ) : Link :=
  if x.1.lastBuf then .input x.2
  else if x.1.fileBacked.isSome && !x.1.tempFile then .own { x.1 with lastBuf := false }
  else .own (copyBuf x.1 (x.1.data c))

/-- what the i-th buffer adds to `pending_bytes` -/
def queueCost (c : Content) (x : Buf × ℕ) (n : ℕ) : ℕ :=
  if x.1.lastBuf then n
  else if x.1.fileBacked.isSome && !x.1.tempFile then (n + sizeT (x.1.fileLast - x.1.filePos)) % 2 ^ 64
  else (n + (x.1.data c).length) % 2 ^ 64

/-- what queueing the i-th buffer does to the state -/
def St.enqueued (c : Content) (s : St) (x : Buf × ℕ) : St :=
  if x.1.lastBuf then s.link (.input x.2)
  else if x.1.fileBacked.isSome && !x.1.tempFile then
    s.enqueue x.2 (sizeT (x.1.fileLast - x.1.filePos)) { x.1 with lastBuf := false }
  else s.enqueue x.2 (x.1.data c).length (copyBuf x.1 (x.1.data c))

@[simp] theorem St.enqueued_r (c : Content) (x : Buf × ℕ) : (s.enqueued c x).r = s.r := by
  unfold St.enqueued; split_ifs <;> rfl

@[simp] theorem St.enqueued_trace (c : Content) (x : Buf × ℕ) : (s.enqueued c x).trace = s.trace := by
  unfold St.enqueued; split_ifs <;> rfl

theorem St.enqueued_ctx (c : Content) (x : Buf × ℕ) : (s.enqueued c x).ctx = { s.ctx with
    pendingChain := s.ctx.pendingChain ++ [queueLink c x], pendingBytes := queueCost c x s.ctx.pendingBytes } := by
  unfold St.enqueued queueLink queueCost; split_ifs <;> rfl

theorem St.enqueued_inn (c : Content) (x : Buf × ℕ) :
    (s.enqueued c x).inn = if x.1.lastBuf then s.inn else s.inn.modify x.2 Buf.markConsumed := by
  unfold St.enqueued; split_ifs <;> rfl

theorem St.enqueued_logs (c : Content) (x : Buf × ℕ) (evs : Trace) :
    (s.logs evs).enqueued c x = (s.enqueued c x).logs evs := by
  unfold St.enqueued; split_ifs <;> rfl

theorem allocOrFail_spec (size : ℕ) {P : Prop} {Q : Unit → St → Prop} {E : ℤ → St → Prop}
    (hok : ∀ s' ev, s' = s.logs [ev] → Stretch [ev] [] 0 → Q () s') (hbad : ∀ rc t, Blocked e 0 P s t → E rc t) :
    wp (allocOrFail size) Q E e s := by
  rw [allocOrFail, wp_bind, wp_alloc]
  refine (wp_when _ _).2 ⟨fun ha => ?_, fun ha => ?_⟩
  · rw [wp_bind]
    refine bodyFilterInternalError_spec fun rc t hx => hbad rc t (Blocked.of_logs (Broken.single rfl rfl ?_ rfl) hx)
    simpa [Event.failed] using ha
  · exact hok _ _ rfl (Stretch.single rfl (by simpa [Event.failed] using ha))

theorem enqueueBuf_spec (i : ℕ) (b : Buf) {P : Prop} {Q : Unit → St → Prop} {E : ℤ → St → Prop}
    (hok : ∀ s' evs, s' = (s.enqueued e.content (b, i)).logs evs → Stretch evs [] 0 → Q () s')
    (hbad : ∀ rc t, Blocked e 0 P s t → E rc t) : wp (enqueueBuf i b) Q E e s := by
  rw [enqueueBuf, wp_bind]
  refine allocOrFail_spec (P := P) 16 (fun s1 ev hs1 hev => ?_) hbad
  subst hs1
  refine (wp_ite _ _ _).2 ⟨fun hl => ?_, fun hl => (wp_ite _ _ _).2 ⟨fun hf => ?_, fun hf => ?_⟩⟩
  · rw [wp_modify]
    refine hok _ [ev] ?_ hev
    rw [St.enqueued, if_pos hl]
    rfl
  · rw [wp_bind]
    refine allocOrFail_spec (P := P) 80 (fun s2 ev2 hs2 hev2 => ?_)
      (fun rc t ht => hbad rc t (Blocked.after_logs hev ht))
    rw [wp_modify]
    refine hok _ ([ev] ++ [ev2]) ?_ (hev.append hev2)
    rw [St.enqueued, if_neg hl, if_pos hf, hs2, St.logs_logs]
    rfl
  · rw [wp_bind]
    refine readBodyData_spec b (fun s2 evs2 hs2 hevs2 => ?_) (fun s2 evs2 hs2 href => ?_)
    · have h2 := hev.append hevs2
      rw [St.logs_logs] at hs2
      subst hs2
      rw [wp_bind]
      refine allocOrFail_spec (P := P) 80 (fun s3 ev3 hs3 hev3 => ?_)
        (fun rc t ht => hbad rc t (Blocked.after_logs h2 ht))
      have h3 := h2.append hev3
      rw [St.logs_logs] at hs3
      subst hs3
      have done : ∀ evs, Stretch evs [] 0 →
          Q () ((s.logs evs).enqueue i (b.data e.content).length (copyBuf b (b.data e.content))) := by
        intro evs hevs
        refine hok _ evs ?_ hevs
        rw [St.enqueued, if_neg hl, if_neg hf]
        rfl
      rw [wp_bind]
      refine (wp_when _ _).2 ⟨fun hne => ?_, fun hne => ?_⟩
      · refine allocOrFail_spec (P := P) _ (fun s4 ev4 hs4 hev4 => ?_)
          (fun rc t ht => hbad rc t (Blocked.after_logs h3 ht))
        rw [St.logs_logs] at hs4
        subst hs4
        rw [wp_modify]
        exact done _ (h3.append hev4)
      · rw [wp_modify]
        exact done _ h3
    · rw [wp_bind]
      refine bodyFilterInternalError_spec fun rc t hx => hbad rc t ?_
      rw [St.logs_logs] at hs2
      subst hs2
      exact Blocked.of_logs ((hev.broken href).mono False.elim) hx

/-! ## One iteration -/

/-- **One buffer.** Either it was inspected, phase 4 evaluated if it is the last one, and it was queued if the headers
are delayed; or the response was ended. -/
theorem bodyFilterBuf_spec (x : Buf × ℕ) (hep : s.r.errorPage = false) {Q : Unit → St → Prop} {E : ℤ → St → Prop}
    (hok : ∀ evs, (s.ctx.responseBodyProcessable = true → x.1.Ordered) →
      Stretch evs (if s.ctx.responseBodyProcessable then x.1.bytes e.content else []) (if x.1.lastBuf then 1 else 0) →
      Q () ((if s.ctx.headersDelayed then s.enqueued e.content x else s).logs evs))
    (hbad : ∀ rc t, Blocked e (if x.1.lastBuf then 1 else 0)
      (s.ctx.responseBodyProcessable = true ∧ x.1.Rejected) s t → E rc t) :
    wp (bodyFilterBuf x) Q E e s := by
  set n := if x.1.lastBuf then 1 else 0 with hn
  set P := s.ctx.responseBodyProcessable = true ∧ x.1.Rejected
  set d := if s.ctx.responseBodyProcessable then x.1.bytes e.content else [] with hd
  -- third statement: everything inspected, `evs` logged
  have queue : ∀ evs, (s.ctx.responseBodyProcessable = true → x.1.Ordered) → Stretch evs d n →
      wp (do when (← get).ctx.headersDelayed do enqueueBuf x.2 x.1 : Handler ℤ Unit) Q E e (s.logs evs) := by
    intro evs hord hevs
    have h := hok evs hord hevs
    rw [wp_bind, wp_get]
    refine (wp_when _ _).2 ⟨fun hdel => ?_, fun hdel => ?_⟩
    · rw [St.logs_ctx] at hdel
      refine enqueueBuf_spec (P := P) x.2 x.1 (fun s' evs' hs' hevs' => ?_) (fun rc t ht => hbad rc t ?_)
      · have h' := hok (evs ++ evs') hord (by simpa using hevs.append hevs')
        rwa [if_pos hdel, ← St.logs_logs, ← St.enqueued_logs, ← hs'] at h'
      · exact Blocked.after_logs hevs ht
    · rw [St.logs_ctx] at hdel
      rwa [if_neg hdel] at h
  -- second statement: the buffer submitted, `evs` logged
  have finish : ∀ evs, (s.ctx.responseBodyProcessable = true → x.1.Ordered) → Stretch evs d 0 →
      wp (do
        when x.1.lastBuf do finishBody
        when (← get).ctx.headersDelayed do enqueueBuf x.2 x.1 : Handler ℤ Unit) Q E e (s.logs evs) := by
    intro evs hord hevs
    rw [wp_bind]
    refine (wp_when _ _).2 ⟨fun hl => ?_, fun hl => ?_⟩
    · rw [if_pos hl] at hn
      refine finishBody_spec (s := s.logs evs) (P := P) hep (fun s' evs' hs' hevs' => ?_) (fun rc t ht => hbad rc t ?_)
      · rw [hs', St.logs_logs]
        exact queue _ hord (by simpa [hn] using hevs.append hevs')
      · rw [hn, ← Nat.zero_add 1]
        exact Blocked.after_logs hevs ht
    · rw [if_neg hl] at hn
      exact queue evs hord (by simpa [hn] using hevs)
  rw [bodyFilterBuf, wp_bind, wp_get, wp_bind]
  refine (wp_when _ _).2 ⟨fun hp => ?_, fun hp => ?_⟩
  · rw [if_pos hp] at hd
    refine inspectBuf_spec x.1 hep (fun s' evs hs' hord hevs => ?_) (fun rc t ht => hbad rc t ?_)
    · rw [hs']
      exact finish evs (fun _ => hord) (by simpa [hd] using hevs)
    · exact ht.mono (Nat.zero_le n) fun hrej => ⟨hp, hrej⟩
  · rw [if_neg hp] at hd
    rw [← St.logs_nil s]
    exact finish [] (fun h => absurd h hp) (by rw [hd]; exact Stretch.nil)

end CorazaNginx
