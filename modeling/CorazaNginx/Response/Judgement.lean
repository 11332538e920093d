/-
Phase 4 judges what has come of the response body, in order.

`Inspection` follows the calls that do not end the response. Here is what holds of every call of the body filter,
whatever cuts it short: what the engine is told of the body, its bytes (`some`) and that it is to judge it (`none`), is
what the buffers amount to, in their order, or the first part of it behind which nothing more is told
(`response_judged_in_order`).
-/
import Mathlib.Tactic
import CorazaNginx.Lifecycle.Telling
import CorazaNginx.Response.Inspection

namespace CorazaNginx

open CorazaNginx.Core Prog Handler

variable {ρ α : Type} {e : Env} {s t : St} {p : Bool}

/-! ## What the engine is told -/

/-- the bytes appended to the response body, and that phase 4 is evaluated -/
def Event.toldResponse : Event → List (Option UInt8)
  | .call (.engine _ (.appendResponseBody data _)) _ => data.map some
  | .call (.engine _ .processResponseBody) _ => [none]
  | _ => []

def Trace.toldResponse (t : Trace) : List (Option UInt8) := t.flatMap Event.toldResponse

abbrev Shows (s t : St) (l : List (Option UInt8)) : Prop := Tells Event.toldResponse s.trace t.trace l

abbrev ShowsPart (s t : St) (l : List (Option UInt8)) : Prop := TellsPart Event.toldResponse s.trace t.trace l

theorem toldResponse_ofEngine : OfEngine Event.toldResponse where
  poll := fun _ _ _ => rfl
  call := fun c _ h => by
    cases c with
    | engine tx c => exact absurd rfl (h tx c)
    | _ => rfl

theorem Keeps.untold {m : Handler ρ α} (h : Keeps (EngineCall.Untold Event.toldResponse) m) :
    Speaks Event.toldResponse e [] m := h.speaks toldResponse_ofEngine

theorem Event.toldResponse_of_not_eval {ev : Event} (h : ev.isEval = false) :
    ev.toldResponse = ev.appended.map some := by
  cases ev with
  | poll => rfl
  | call c rc =>
    cases c with
    | engine tx c => cases c <;> first | rfl | cases h
    | _ => rfl

/-- a stretch without an evaluation tells the bytes it appends -/
theorem Stretch.shows {evs : Trace} {data : Bytes} (h : Stretch evs data 0) : Shows s (s.logs evs) (data.map some) := by
  have hno : ∀ ev ∈ evs, ev.isEval = false := fun ev hev => by simpa using List.countP_eq_zero.1 h.evals ev hev
  refine ⟨evs, rfl, ?_⟩
  rw [← h.appended, Trace.appended, List.map_flatMap]
  exact List.flatMap_congr fun ev hev => Event.toldResponse_of_not_eval (hno ev hev)

/-! ## A buffer -/

/-- the loop over a file range: by induction on what is left of it -/
theorem appendFileLoop_shows (b : Buf) (f : File) (o : ℤ) {Q : ℤ → St → Prop} {E : ρ → St → Prop}
    (hQ : ∀ rc t, ShowsPart s t ((e.content.range b.tempFile f.id o (b.fileLast - o).toNat).map some) → Q rc t) :
    wp (appendFileLoop b f o : Handler ρ ℤ) Q E e s := by
  generalize hk : (b.fileLast - o).toNat = k at hQ
  induction k using Nat.strong_induction_on generalizing o s with
  | _ k ih =>
    rw [appendFileLoop]
    refine (wp_dite _ _ _).2 ⟨fun hlt => ?_, fun _ => hQ _ s (.none (.refl _) _)⟩
    rw [wp_bind, wp_readFile]
    set size := readSize (b.fileLast - o) with hsize
    have hread : Shows s (s.log (.call (.readFile size o) (e.ret s.trace (.readFile size o)))) [] := .single _ _
    cases ReadResult.of size (e.ret s.trace (.readFile size o)) with
    | error => exact hQ _ _ (.none hread _)
    | bytes m le =>
      refine (wp_dite _ _ _).2 ⟨fun _ => hQ _ _ (.none hread _), fun hm => ?_⟩
      have hmk : m ≤ k := hk ▸ le.trans (readSize_le _)
      have hsplit : (e.content.range b.tempFile f.id o k).map some = (e.content.range b.tempFile f.id o m).map some ++
          (e.content.range b.tempFile f.id (o + m) (k - m)).map some := by
        rw [← List.map_append, ← Content.range_add, Nat.add_sub_cancel' hmk]
      rw [hsplit] at hQ
      simp only [wp_bind, wp_ask, wp_engine]
      set s1 := (s.log _).log _ with hs1
      have hchunk : Shows s s1 ((e.content.range b.tempFile f.id o m).map some) := hread.trans (.single _ _)
      refine (wp_ite _ _ _).2 ⟨fun _ => hQ _ _ (hchunk.part _), fun _ => ?_⟩
      have hnext : (b.fileLast - (o + m)).toNat = k - m := by omega
      exact ih (k - m) (by omega) (o + m) hnext fun rc t ht => hQ rc t (hchunk.after ht)

theorem appendResponseBodyFile_shows {b : Buf} {f : File} (hf : b.fileBacked = some f) {Q : ℤ → St → Prop}
    {E : ρ → St → Prop} (hQ : ∀ rc t, ShowsPart s t ((b.bytes e.content).map some) → Q rc t) :
    wp (appendResponseBodyFile b f : Handler ρ ℤ) Q E e s := by
  have hnone : ∀ rc t, Shows s t [] → Q rc t := fun rc t ht => hQ rc t (.none ht _)
  rw [appendResponseBodyFile, wp_call, wp_bind]
  refine (wp_when _ _).2 ⟨fun _ => ?_, fun _ => ?_⟩
  · rw [wp_bind, wp_trigger, wp_exit]
    exact hnone _ _ (.refl _)
  rw [wp_bind]
  refine (wp_when _ _).2 ⟨fun _ => hnone _ _ (.refl _), fun _ => ?_⟩
  rw [wp_bind, wp_alloc, wp_bind]
  have halloc : ∀ rc, Shows s (s.log (.call (.alloc responseBodyFileChunkSize) rc)) [] := fun _ => .single _ _
  refine (wp_when _ _).2 ⟨fun _ => ?_, fun _ => ?_⟩
  · rw [wp_bind, wp_trigger, wp_exit]
    exact hnone _ _ (halloc _)
  -- what is left once the range has been read
  have behind : ∀ off rc u, ShowsPart s u ((b.bytes e.content).map some) → wp (do
      when (f.directio && off ≠ ngxError) do
        let _ ← invoke .directioOn
      let _ ← invoke .freeScratch
      when (rc ≠ ngxOk) trigger
      return rc : Handler ℤ ℤ) Q Q e u := by
    intro off rc u hu
    have hkeeps : Keeps (EngineCall.Untold Event.toldResponse) (do
        when (f.directio && off ≠ ngxError) do
          let _ ← invoke .directioOn
        let _ ← invoke .freeScratch
        when (rc ≠ ngxOk) trigger
        return rc : Handler ℤ ℤ) := by
      refine Keeps.bind (Keeps.when (Keeps.bind (Keeps.invoke fun _ _ => trivial) fun _ => Keeps.pure _)) fun _ => ?_
      refine Keeps.bind (Keeps.invoke fun _ _ => trivial) fun _ => ?_
      exact Keeps.bind (Keeps.when Keeps.trigger) fun _ => Keeps.pure _
    refine wp_mono (hkeeps e u) (fun rc t ht => ?_) (fun rc t ht => ?_)
    · exact hQ rc t (hu.idly (ht.tells toldResponse_ofEngine))
    · exact hQ rc t (hu.idly (ht.tells toldResponse_ofEngine))
  have hoff : Keeps (EngineCall.Untold Event.toldResponse) (directioOff f : Handler ℤ ℤ) :=
    Keeps.ite (Keeps.invoke fun _ _ => trivial) (Keeps.pure _)
  rw [wp_bind]
  refine wp_mono (hoff e _) (fun off u hu => ?_) (fun rc u hu => ?_)
  · have hopened : Shows s u [] := (halloc _).trans (hu.tells toldResponse_ofEngine)
    rw [wp_bind, submitRange]
    refine (wp_ite _ _ _).2 ⟨fun _ => behind _ _ _ (.none hopened _), fun _ => ?_⟩
    refine appendFileLoop_shows b f _ fun rc v hv => behind _ _ _ ?_
    rw [Buf.bytes_of_file hf]
    exact hopened.after hv
  · exact hnone rc u ((halloc _).trans (hu.tells toldResponse_ofEngine))

/-- submitting a buffer, whatever comes of it -/
theorem appendBuf_shows (b : Buf) {Q : Unit → St → Prop} {E : ℤ → St → Prop}
    (hQ : ∀ t, ShowsPart s t ((b.bytes e.content).map some) → Q () t)
    (hE : ∀ rc t, ShowsPart s t ((b.bytes e.content).map some) → E rc t) : wp (appendBuf b) Q E e s := by
  -- a response that is ended tells no more
  have ends : ∀ {m : Handler ℤ Unit} {u : St}, Keeps (EngineCall.Untold Event.toldResponse) m →
      ShowsPart s u ((b.bytes e.content).map some) → wp m Q E e u := by
    intro m u hm hu
    refine wp_mono (hm e u) (fun _ t ht => ?_) (fun rc t ht => ?_)
    · exact hQ t (hu.idly (ht.tells toldResponse_ofEngine))
    · exact hE rc t (hu.idly (ht.tells toldResponse_ofEngine))
  unfold appendBuf
  cases hf : b.fileBacked with
  | some f =>
    rw [wp_bind]
    refine appendResponseBodyFile_shows hf fun rc t ht => ?_
    exact ends (Keeps.when (Keeps.exitWith (bodyFilterFinalize_keeps _))) ht
  | none =>
    rw [wp_bind]
    refine (wp_when _ _).2 ⟨fun _ => ends (block_keeps _) (.none (.refl _) _), fun _ => ?_⟩
    rw [wp_bind]
    have hdata : wp (readBodyData b : Handler ℤ (Option Bytes)) (fun d _ => d = some (b.bytes e.content) ∨ d = none)
        (fun _ _ => False) e s :=
      readBodyData_spec b (fun _ _ _ _ => Or.inl (by rw [Buf.data_eq_of_none hf])) fun _ _ _ _ => Or.inr rfl
    have hsilent : Keeps (EngineCall.Untold Event.toldResponse) (readBodyData b : Handler ℤ (Option Bytes)) :=
      readBodyData_keeps b
    refine wp_mono (wp_and hdata (hsilent e s)) (fun d t ht => ?_) fun _ _ h => h.1.elim
    have hread := ht.2.tells toldResponse_ofEngine
    rcases ht.1 with rfl | rfl
    · refine (wp_when _ _).2 ⟨fun _ => ?_, fun _ => hQ _ (.none hread _)⟩
      rw [wp_bind, wp_engine]
      exact ends (Keeps.when (block_keeps _)) (hread.trans (.single _ _)).whole
    · exact ends (block_keeps _) (.none hread _)

/-- submitting a buffer and polling -/
theorem inspectBuf_shows (b : Buf) (hep : s.r.errorPage = false) : wp (inspectBuf b)
    (fun _ t => Shows s t ((b.bytes e.content).map some)) (fun _ t => ShowsPart s t ((b.bytes e.content).map some))
    e s := by
  have hwhole : wp (inspectBuf b) (fun _ t => Shows s t ((b.bytes e.content).map some)) (fun _ _ => True) e s := by
    refine inspectBuf_spec b hep (fun t evs ht _ hevs => ?_) fun _ _ _ => trivial
    subst ht
    exact hevs.shows
  have hpart : wp (inspectBuf b) (fun _ t => ShowsPart s t ((b.bytes e.content).map some))
      (fun _ t => ShowsPart s t ((b.bytes e.content).map some)) e s := by
    have poll : Keeps (EngineCall.Untold Event.toldResponse) (do afterPoll (← processIntervention false) :
        Handler ℤ Unit) :=
      Keeps.bind (processIntervention_keeps fun _ _ _ => rfl) fun ret => afterPoll_keeps ret
    rw [inspectBuf, wp_bind]
    refine appendBuf_shows b (fun t ht => ?_) fun _ _ ht => ht
    refine wp_mono (poll e t) (fun _ u hu => ?_) (fun rc u hu => ?_)
    · exact ht.idly (hu.tells toldResponse_ofEngine)
    · exact ht.idly (hu.tells toldResponse_ofEngine)
  exact wp_mono (wp_and hwhole hpart) (fun _ _ h => h.1) fun _ _ h => h.2

/-- phase 4 is evaluated, whatever comes of it -/
theorem finishBody_shows : Speaks Event.toldResponse e [none] finishBody := by
  have hbehind : ∀ pret, Keeps (EngineCall.Untold Event.toldResponse) (do
      when (processBodyFailed pret) do block ngxHttpInternalServerError
      afterPoll (← pollAfterProcess false pret) : Handler ℤ Unit) := by
    intro pret
    refine Keeps.bind (Keeps.when (block_keeps _)) fun _ => ?_
    exact Keeps.bind (pollAfterProcess_keeps (fun _ _ _ => rfl) pret) fun ret => afterPoll_keeps ret
  have hverdict : Speaks Event.toldResponse e [none] (engine .processResponseBody : Handler ℤ ℤ) :=
    engine_speaks _ fun _ _ => rfl
  exact hverdict.bind fun pret => (hbehind pret).untold

/-! ## A chain -/

/-- what a buffer amounts to: its bytes when the response is to be inspected, and the verdict behind the last one -/
def Buf.script (p : Bool) (c : Content) (b : Buf) : List (Option UInt8) :=
  (if p then (b.bytes c).map some else []) ++ if b.lastBuf then [none] else []

/-- while a response is inspected -/
structure Judging (p : Bool) (s : St) : Prop where
  errorPage : s.r.errorPage = false
  processable : s.ctx.responseBodyProcessable = p

/-- **One buffer.** Its tokens, or the first part of them behind an intervention. -/
theorem bodyFilterBuf_script (x : Buf × ℕ) : Says Event.toldResponse St.trace e (Judging p)
    (fun t => t.ctx.interventionTriggered = true) (x.1.script p e.content) (bodyFilterBuf x) := by
  intro s hs
  -- what becomes of the state
  have hstate : wp (bodyFilterBuf x) (fun _ t => Judging p t) (fun _ t => t.ctx.interventionTriggered = true) e s := by
    refine bodyFilterBuf_spec x hs.errorPage (fun evs _ _ => ?_) fun rc t ht => ht.triggered
    split_ifs
    · exact ⟨by rw [St.logs_r, St.enqueued_r, hs.errorPage], by rw [St.logs_ctx, St.enqueued_ctx]; exact hs.processable⟩
    · exact ⟨hs.errorPage, hs.processable⟩
  -- and what is told
  have hrest : Speaks Event.toldResponse e (if x.1.lastBuf then [none] else []) (do
      when x.1.lastBuf do finishBody
      when (← get).ctx.headersDelayed do enqueueBuf x.2 x.1 : Handler ℤ Unit) := by
    have hqueue : Keeps (EngineCall.Untold Event.toldResponse) (do
        when (← get).ctx.headersDelayed do enqueueBuf x.2 x.1 : Handler ℤ Unit) :=
      Keeps.bind Keeps.get fun s => Keeps.when (enqueueBuf_keeps x.2 x.1)
    have hall :=
      Says.bind (Says.when (c := x.1.lastBuf = true) fun _ => finishBody_shows) fun _ => hqueue.untold (e := e)
    rwa [List.append_nil] at hall
  have htold : wp (bodyFilterBuf x) (fun _ t => Shows s t (x.1.script p e.content))
      (fun _ t => ShowsPart s t (x.1.script p e.content)) e s := by
    have rest : ∀ u l, Shows s u l → wp (do
        when x.1.lastBuf do finishBody
        when (← get).ctx.headersDelayed do enqueueBuf x.2 x.1 : Handler ℤ Unit)
        (fun _ t => Shows s t (l ++ if x.1.lastBuf then [none] else []))
        (fun _ t => ShowsPart s t (l ++ if x.1.lastBuf then [none] else [])) e u := fun u l hu =>
      wp_mono (hrest u trivial) (fun _ t ht => hu.trans ht.2) fun _ t ht => hu.after ht.2
    rw [bodyFilterBuf, wp_bind, wp_get, wp_bind, hs.processable, Buf.script]
    cases p with
    | true =>
      refine wp_mono (inspectBuf_shows x.1 hs.errorPage) (fun _ u hu => rest u _ hu) fun _ u hu => hu.more _
    | false => exact rest s [] (.refl _)
  exact wp_mono (wp_and hstate htold) (fun _ _ h => h) fun _ _ h => h

/-- what the chain of a call amounts to -/
def BodyCall.script (p : Bool) (c : BodyCall) : List (Option UInt8) := c.inn.flatMap (Buf.script p c.env.content)

/-- `l` has been told, or the first part of it with the response ended -/
structure JudgedInOrder (l : List (Option UInt8)) (s t : St) : Prop where
  part : ShowsPart s t l
  whole : t.ctx.interventionTriggered = false → Shows s t l

/-- the filter on a response that is inspected -/
theorem bodyFilter_judged (inn : List Buf) (hne : inn ≠ []) (hs : Judging p s)
    (ht : s.ctx.interventionTriggered = false) :
    JudgedInOrder (BodyCall.script p ⟨e, inn⟩) s (bodyStep s ⟨e, inn⟩) := by
  refine run_state (P := JudgedInOrder (BodyCall.script p ⟨e, inn⟩) s) (m := bodyFilter inn) ?_
  rw [bodyFilter, wp_call, wp_bind, wp_modify, wp_bind]
  refine (wp_when _ _).2 ⟨fun h => absurd h hne, fun _ => ?_⟩
  rw [wp_bind, wp_get, wp_bind]
  refine (wp_when _ _).2 ⟨fun h => absurd (ht.symm.trans h) (by decide), fun _ => ?_⟩
  have hloop : Says Event.toldResponse St.trace e (Judging p) (fun t => t.ctx.interventionTriggered = true)
      (BodyCall.script p ⟨e, inn⟩) (forEach inn.zipIdx bodyFilterBuf) := by
    have hscript : inn.zipIdx.flatMap (fun x => x.1.script p e.content) = BodyCall.script p ⟨e, inn⟩ := by
      rw [BodyCall.script, ← List.zipIdx_map_fst 0 inn, List.flatMap_map]
      simp
    rw [← hscript]
    exact .forEach fun x _ => bodyFilterBuf_script x
  -- the chain goes on, or is held back
  have hbehind : Keeps (EngineCall.Untold Event.toldResponse) (do
      let s ← get
      when s.ctx.headersDelayed do
        when (inn.any (·.lastBuf)) do exit (← flushDelayed)
        when (maxDelayedBody < s.ctx.pendingBytes) do exit (← flushDelayed)
        exit ngxOk
      nextBodyFilter (inLinks inn) : Handler ℤ ℤ) := by
    refine Keeps.bind Keeps.get fun s => Keeps.bind (Keeps.when ?_) fun _ => nextBodyFilter_keeps _
    refine Keeps.bind (Keeps.when (Keeps.exitWith flushDelayed_keeps)) fun _ => ?_
    exact Keeps.bind (Keeps.when (Keeps.exitWith flushDelayed_keeps)) fun _ => Keeps.exit _
  rw [wp_bind]
  refine wp_mono (hloop (s.setInn inn) ⟨hs.errorPage, hs.processable⟩) (fun _ t h => ?_) fun _ t h =>
    ⟨h.2, fun hun => ?_⟩
  · refine wp_mono (hbehind e t) (fun _ u hu => ?_) (fun _ u hu => ?_)
    · have htold : Shows s u _ := h.2.idly (hu.tells toldResponse_ofEngine)
      exact ⟨htold.whole, fun _ => htold⟩
    · have htold : Shows s u _ := h.2.idly (hu.tells toldResponse_ofEngine)
      exact ⟨htold.whole, fun _ => htold⟩
  · exact absurd (h.1.symm.trans hun) (by decide)

/-- behind an intervention nothing is told -/
theorem bodyRun_silent (ht : s.ctx.interventionTriggered = true) (calls : List BodyCall) :
    Shows s (bodyRun s calls) [] := by
  refine .silent (bodyRun_trace (Or.inr ht) calls) fun ev hev => ?_
  have hbody := (bodyRun_passing calls ht).1 ev hev
  cases ev with
  | poll => cases hbody
  | call c rc => cases c <;> first | rfl | cases hbody

/-- **One call.** -/
theorem bodyStep_judged (hs : Judging p s) (c : BodyCall) : JudgedInOrder (c.script p) s (bodyStep s c) := by
  obtain ⟨e, inn⟩ := c
  by_cases hne : inn = []
  · subst hne
    rw [show bodyStep s ⟨e, []⟩ = _ from bodyFilter_null (e := e) (s := s)]
    have hnull : Shows s ((s.setInn []).log (.call (.nextBody []) (e.ret s.trace (.nextBody [])))) [] := .single _ _
    exact ⟨hnull.whole, fun _ => hnull⟩
  cases ht : s.ctx.interventionTriggered with
  | true =>
    refine ⟨.none (bodyRun_silent ht [⟨e, inn⟩]) _, fun hun => ?_⟩
    exact absurd ((bodyStep_triggered ht _).symm.trans hun) (by decide)
  | false => exact bodyFilter_judged inn hne hs ht

/-- a call that does not end the response leaves it to be inspected further -/
theorem Judging.step (h : Judging p s) (c : BodyCall) (hun : (bodyStep s c).ctx.interventionTriggered = false) :
    Judging p (bodyStep s c) where
  errorPage := (bodyStep_steady (Or.inl h.errorPage) c).1.resolve_right fun ht => absurd (ht.symm.trans hun) (by decide)
  processable := by
    refine run_state (m := bodyFilter c.inn) (P := fun t => t.ctx.responseBodyProcessable = p) ?_
    exact bodyFilter_confined c.inn fun _ t ht => ht.processable.trans h.processable

/-- the run: by induction on the calls -/
theorem bodyRun_judged (h : Judging p s) (calls : List BodyCall) :
    JudgedInOrder (calls.flatMap (BodyCall.script p)) s (bodyRun s calls) := by
  induction calls generalizing s with
  | nil => exact ⟨.none (.refl _) _, fun _ => .refl _⟩
  | cons c calls ih =>
    have hstep := bodyStep_judged h c
    rw [List.flatMap_cons, bodyRun_cons]
    cases ht : (bodyStep s c).ctx.interventionTriggered with
    | true =>
      refine ⟨(hstep.part.idly (bodyRun_silent ht calls)).more _, fun hun => ?_⟩
      exact absurd ((bodyRun_triggered ht calls).symm.trans hun) (by decide)
    | false =>
      have hrest := ih (h.step c ht)
      exact ⟨(hstep.whole ht).after hrest.part, fun hun => (hstep.whole ht).trans (hrest.whole hun)⟩

/-- **Phase 4 judges the body in order.** Over every run of the body filter that starts with no error page on the wire,
whatever fails in it, what the engine is told is what the buffers received amount to: all of it while no intervention
has been triggered, else the first part of it, and nothing more by later calls. -/
theorem response_judged_in_order (s : St) (hep : s.r.errorPage = false) (calls : List BodyCall) :
    JudgedInOrder (calls.flatMap (BodyCall.script s.ctx.responseBodyProcessable)) s (bodyRun s calls) ∧
      ((bodyRun s calls).ctx.interventionTriggered = true →
        ∀ later, Shows (bodyRun s calls) (bodyRun (bodyRun s calls) later) []) :=
  ⟨bodyRun_judged ⟨hep, rfl⟩ calls, fun ht later => bodyRun_silent ht later⟩

/-- a refused chunk is the last the engine is told of -/
theorem refused_chunk_last :
    JudgedInOrder [some 1, some 1, some 1, none] delayedState (bodyRun delayedState [refusedCall, lastCall]) ∧
    (bodyRun delayedState [refusedCall, lastCall]).trace.toldResponse = [some 1, some 1] := by
  have hscript : [refusedCall, lastCall].flatMap (BodyCall.script true) = [some 1, some 1, some 1, none] := by
    decide +kernel
  exact ⟨hscript ▸ (response_judged_in_order delayedState rfl [refusedCall, lastCall]).1, by decide +kernel⟩

end CorazaNginx
