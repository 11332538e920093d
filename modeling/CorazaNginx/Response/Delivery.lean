/-
The delayed path loses, duplicates and reorders nothing.

The filter with its queue simulates a delay line (`Core.Line`) whose items are the bytes received: `Carries` relates the
two states, `bodyStep_carries` is the step lemma (a call in which nothing fails feeds the line exactly the bytes it
received, and lets go if it contains the last buffer), `bodyRun_carries` the run lemma. What the line is proved to do
(`Line.run_flush`) is then what the filter does.
The queue's bytes are the same in every later environment that agrees on the files which are not an upstream's temp
files (`queueLink_bytes`): copies are the module's own, cloned ranges are of stable files.
-/
import Mathlib.Tactic
import CorazaNginx.Response.Run

namespace CorazaNginx

open CorazaNginx.Core Prog Handler

variable {e : Env} {s : St}

/-! ## The queue's bytes -/

theorem copyBuf_bytes (b : Buf) (d : Bytes) (c : Content) : (copyBuf b d).bytes c = d := by
  unfold copyBuf
  split_ifs with h
  · rw [h]; rfl
  · simp [Buf.bytes, Buf.inMemory, Buf.memBytes]

/-- a file range that is no temp file's is the same in every content with the same files -/
theorem range_bytes {b : Buf} {c c' : Content} (hf : (b.fileBacked.isSome && !b.tempFile) = true)
    (hc : c'.file = c.file) : ({ b with lastBuf := false } : Buf).bytes c' = b.bytes c := by
  rw [Bool.and_eq_true, Bool.not_eq_true'] at hf
  obtain ⟨f, hfile⟩ := Option.isSome_iff_exists.1 hf.1
  have hfile' : ({ b with lastBuf := false } : Buf).fileBacked = some f := hfile
  rw [Buf.bytes_of_file hfile, Buf.bytes_of_file hfile']
  simp only [Content.range, hf.2, hc, Bool.false_eq_true, if_false]

/-- a queued link stands for the bytes its buffer had, now or later; a passthrough link stands for them now -/
theorem queueLink_bytes (c c' : Content) (x : Buf × ℕ) (inn : List Buf) (hv : x.1.Valid) (hc : c'.file = c.file)
    (hl : x.1.lastBuf = true → c' = c ∧ inn[x.2]? = some x.1) :
    ((queueLink c x).hand c' inn).bytes = x.1.bytes c := by
  unfold queueLink
  split_ifs with h h'
  · obtain ⟨rfl, hx⟩ := hl h
    simp [Link.hand, List.getD_eq_getElem?_getD, hx]
  · exact range_bytes h' hc
  · rw [← hv.data_eq_bytes]
    exact copyBuf_bytes _ _ _

/-- a whole chain queued and handed on -/
theorem queueLinks_bytes (c c' : Content) (inn inn' : List Buf) (hv : ∀ b ∈ inn, b.Valid) (hc : c'.file = c.file)
    (hl : ∀ x ∈ inn.zipIdx, x.1.lastBuf = true → c' = c ∧ inn'[x.2]? = some x.1) :
    ((inn.zipIdx.map (queueLink c)).map (Link.hand c' inn')).flatMap (·.bytes) = inn.flatMap (·.bytes c) := by
  rw [List.map_map, List.flatMap_map]
  conv_rhs => rw [← List.zipIdx_map_fst 0 inn, List.flatMap_map]
  refine List.flatMap_congr fun x hx => ?_
  have hmem : x.1 ∈ inn := by
    have := List.mem_map_of_mem (f := Prod.fst) hx
    rwa [List.zipIdx_map_fst] at this
  exact queueLink_bytes c c' x inn' (hv _ hmem) hc (hl x hx)

theorem getElem?_of_mem_zipIdx {inn : List Buf} {x : Buf × ℕ} (hx : x ∈ inn.zipIdx) : inn[x.2]? = some x.1 := by
  have := List.mem_zipIdx hx
  simp only [Nat.zero_add, Nat.sub_zero] at this
  obtain ⟨_, hlt, hb⟩ := this
  rw [List.getElem?_eq_getElem hlt, hb]

/-- the last buffer is still as it came when the queue is handed on in the same call -/
theorem afterQueue_last {inn : List Buf} {x : Buf × ℕ} (hx : x ∈ inn.zipIdx) (hl : x.1.lastBuf = true) :
    (inn.map Buf.afterQueue)[x.2]? = some x.1 := by
  rw [List.getElem?_map, getElem?_of_mem_zipIdx hx]
  simp [Buf.afterQueue, hl]

/-! ## The simulation -/

/-- the bytes of a queue, in every content with the files `F` -/
def QueueBytes (F : ℕ → ℤ → UInt8) (q : List Link) (d : Bytes) : Prop :=
  ∀ (c : Content) inn, c.file = F → (q.map (Link.hand c inn)).flatMap (·.bytes) = d

/-- the filter's state stands for the line: `p` is whether the body is inspected -/
structure Carries (F : ℕ → ℤ → UInt8) (p : Bool) (s : St) (line : Line Head UInt8) : Prop where
  errorPage : s.r.errorPage = false
  untriggered : s.ctx.interventionTriggered = false
  processable : s.ctx.responseBodyProcessable = p
  line : match line with
    | .held h q => s.ctx.headersDelayed = true ∧ h = .headers s.r.headersOut s.r.headerOnly ∧
        QueueBytes F s.ctx.pendingChain q
    | .live => s.ctx.headersDelayed = false

theorem Carries.delayed_iff {F : ℕ → ℤ → UInt8} {p : Bool} {line : Line Head UInt8} (h : Carries F p s line) :
    (∃ h' q, line = .held h' q) ↔ s.ctx.headersDelayed = true := by
  have hl := h.line
  cases line with
  | held h' q => exact ⟨fun _ => hl.1, fun _ => ⟨h', q, rfl⟩⟩
  | live =>
    have hfalse : s.ctx.headersDelayed = false := hl
    simp [hfalse]

/-- the calls of a run are well formed: the same stable files throughout, and valid buffers -/
structure CallValid (F : ℕ → ℤ → UInt8) (c : BodyCall) : Prop where
  file : c.env.content.file = F
  valid : ∀ b ∈ c.inn, b.Valid

/-- and, while the body is inspected, no buffer in memory is longer than an int can count -/
structure CallOk (F : ℕ → ℤ → UInt8) (p : Bool) (c : BodyCall) : Prop extends CallValid F c where
  size : p = true → ∀ b ∈ c.inn, b.inMemory = true → b.last - b.pos ≤ intMax

theorem CallOk.not_rejected {F : ℕ → ℤ → UInt8} {p : Bool} {c : BodyCall} (h : CallOk F p c)
    (hp : s.ctx.responseBodyProcessable = p) : ¬ RejectedIn s c.inn := by
  rintro ⟨hproc, b, hb, hrej⟩
  have hv := h.valid b hb
  unfold Buf.Rejected at hrej
  cases hf : b.fileBacked with
  | some f =>
    rw [hf] at hrej
    have := (hv.file (by rw [hf]; rfl)).2.1
    omega
  | none =>
    rw [hf] at hrej
    have hlen : bodyChunkLen b ≤ intMax := by
      unfold bodyChunkLen
      by_cases hm : b.inMemory = true
      · obtain ⟨hle, hlt⟩ := hv.mem hm
        have hsz := h.size (hp ▸ hproc) b hb hm
        rw [if_pos hm, sizeT_of_range (by omega) (by omega)]
        omega
      · rw [if_neg hm, hf]
        exact Nat.zero_le _
    exact absurd hrej (not_lt.2 hlen)

/-- the next header filter answers NGX_ERROR -/
def Event.headerError : Event → Bool
  | .call (.nextHeader ..) rc => rc = ngxError
  | _ => false

/-- nothing outside fails, and the headers do not meet NGX_ERROR -/
def Smooth (evs : Trace) : Prop := ∀ ev ∈ evs, ev.failed = false ∧ ev.headerError = false

instance (evs : Trace) : Decidable (Smooth evs) := inferInstanceAs (Decidable (∀ ev ∈ evs, _))

theorem Smooth.clean {evs : Trace} (h : Smooth evs) : evs.Clean := fun ev hev => (h ev hev).1

theorem smooth_append {a b : Trace} : Smooth (a ++ b) ↔ Smooth a ∧ Smooth b := List.forall_mem_append

theorem smooth_of_trace {t u : Trace} {evs evs' : Trace} (h : u = t ++ evs) (h' : u = t ++ evs') (hs : Smooth evs) :
    evs = evs' ∧ Smooth evs' := by
  obtain rfl := trace_cancel h h'
  exact ⟨rfl, hs⟩

/-- a NULL chain leaves the line as it is -/
theorem feed_nil (line : Line Head UInt8) : line.feed [] false = (line, []) := by
  cases line <;> simp [Line.feed]

/-- a smooth call with buffers the filter can inspect does not end the response -/
theorem bodyStep_untriggered {F : ℕ → ℤ → UInt8} {p : Bool} {line : Line Head UInt8} (c : BodyCall) (hc : CallOk F p c)
    (h : Carries F p s line) {evs : Trace} (htr : (bodyStep s c).trace = s.trace ++ evs) (hs : Smooth evs) :
    (bodyStep s c).ctx.interventionTriggered = false := by
  obtain ⟨e, inn⟩ := c
  by_cases hne : inn = []
  · subst hne
    rw [show bodyStep s ⟨e, []⟩ = _ from bodyFilter_null (e := e) (s := s)]
    exact h.untriggered
  have ho : Outcome e inn s (bodyStep s ⟨e, inn⟩) := bodyFilter_outcome inn hne h.errorPage h.untriggered
  generalize bodyStep s ⟨e, inn⟩ = t at htr ho ⊢
  cases ho with
  | blocked hb =>
    exfalso
    obtain ⟨evs', ev, _, htr', href, -⟩ := hb.trace
    rw [List.append_assoc] at htr'
    obtain ⟨-, hs'⟩ := smooth_of_trace htr htr' hs
    rcases href.cause with hcl | hrej
    · exact hcl (smooth_append.1 hs').1.clean
    · exact hc.not_rejected h.processable hrej
  | _ => simpa [St.chainOut, St.queueOut, St.headersOut, looped_triggered] using h.untriggered

/-- **The step lemma.** A smooth call that does not end the response feeds the line the bytes it received, and lets go
if it has the last buffer. -/
theorem bodyStep_carries {F : ℕ → ℤ → UInt8} {p : Bool} {line : Line Head UInt8} (c : BodyCall) (hc : CallValid F c)
    (h : Carries F p s line) {evs : Trace} (htr : (bodyStep s c).trace = s.trace ++ evs) (hs : Smooth evs)
    (hun : (bodyStep s c).ctx.interventionTriggered = false) :
    ∃ flush, Carries F p (bodyStep s c) (line.feed c.received flush).1 ∧
      evs.wire = (line.feed c.received flush).2 ∧ (c.inn.any (·.lastBuf) = true → flush = true) := by
  obtain ⟨e, inn⟩ := c
  by_cases hne : inn = []
  · subst hne
    have hstep : bodyStep s ⟨e, []⟩ = _ := bodyFilter_null (e := e) (s := s)
    rw [hstep] at htr ⊢
    obtain ⟨rfl, -⟩ := smooth_of_trace htr rfl hs
    refine ⟨false, ?_, ?_, fun hl => by simp at hl⟩
    · rw [show BodyCall.received ⟨e, []⟩ = [] from rfl, feed_nil]
      exact ⟨h.errorPage, h.untriggered, h.processable, h.line⟩
    · rw [show BodyCall.received ⟨e, []⟩ = [] from rfl, feed_nil]
      rfl
  have ho : Outcome e inn s (bodyStep s ⟨e, inn⟩) := bodyFilter_outcome inn hne h.errorPage h.untriggered
  generalize bodyStep s ⟨e, inn⟩ = t at htr hun ho ⊢
  have hlive : s.ctx.headersDelayed = false → line = .live := by
    intro hd
    cases line with
    | held k q => exact absurd (h.delayed_iff.1 ⟨k, q, rfl⟩) (by simp [hd])
    | live => rfl
  cases ho with
  | blocked hb =>
    rw [hb.triggered] at hun
    cases hun
  | streamed evs' rc hins hd =>
    obtain rfl := hlive hd
    have hinn : (s.looped e inn evs').inn = inn := by rw [looped_inn, if_neg (by simp [hd])]
    have htr' := St.chainOut_trace (e := e) (s := s.looped e inn evs') rc
    rw [looped_trace, List.append_assoc] at htr'
    obtain ⟨rfl, -⟩ := smooth_of_trace htr htr' hs
    refine ⟨inn.any (·.lastBuf), ⟨?_, ?_, ?_, ?_⟩, ?_, id⟩
    · simpa [St.chainOut, looped_r] using h.errorPage
    · simpa [St.chainOut, looped_triggered] using h.untriggered
    · simpa [St.chainOut, looped_processable] using h.processable
    · simpa [Line.feed, St.chainOut, looped_delayed] using hd
    · rw [Trace.wire_append, hins.stretch.quiet.wire, hinn]
      simp [Trace.wire, Event.wire, inLinks_bytes, Line.feed, BodyCall.received]
  | held evs' hins hd hl hcap =>
    obtain ⟨k, q, rfl⟩ := h.delayed_iff.2 hd
    obtain ⟨-, hk, hq⟩ := h.line
    obtain ⟨rfl, -⟩ := smooth_of_trace htr (looped_trace inn evs') hs
    refine ⟨false, ⟨?_, ?_, ?_, ?_⟩, ?_, fun h' => by rw [hl] at h'; cases h'⟩
    · rw [looped_r]; exact h.errorPage
    · rw [looped_triggered]; exact h.untriggered
    · rw [looped_processable]; exact h.processable
    · refine ⟨by rw [looped_delayed]; exact hd, by rw [looped_r]; exact hk, fun c' inn' hF => ?_⟩
      rw [looped_pending, if_pos hd, List.map_append, List.flatMap_append, hq c' inn' hF,
        queueLinks_bytes _ _ inn inn' hc.valid (hF.trans hc.file.symm)]
      · rfl
      · intro x hx hlast
        have hall := List.any_eq_false.1 hl x.1 (List.mem_of_getElem? (getElem?_of_mem_zipIdx hx))
        exact absurd hlast hall
    · rw [hins.stretch.quiet.wire]
      rfl
  | stuck evs' hins hd =>
    exfalso
    have htr' := St.headersOut_trace (e := e) (s := s.looped e inn evs') ngxError
    rw [looped_trace, List.append_assoc] at htr'
    obtain ⟨-, hs'⟩ := smooth_of_trace htr htr' hs
    have herr := (hs' _ (List.mem_append_right _ (List.mem_singleton_self _))).2
    simp [Event.headerError] at herr
  | flushed evs' rc rc' hins hd hdue hrc =>
    obtain ⟨k, q, rfl⟩ := h.delayed_iff.2 hd
    obtain ⟨-, hk, hq⟩ := h.line
    have htr' := St.queueOut_trace (e := e) (s := (s.looped e inn evs').headersOut e rc) rc'
    rw [St.headersOut_trace, looped_trace, List.append_assoc, List.append_assoc] at htr'
    obtain ⟨rfl, -⟩ := smooth_of_trace htr htr' hs
    have hbytes : (((s.looped e inn evs').ctx.pendingChain).map (Link.hand e.content (s.looped e inn evs').inn)).flatMap
        (·.bytes) = q ++ inn.flatMap (·.bytes e.content) := by
      rw [looped_pending, if_pos hd, looped_inn, if_pos hd, List.map_append, List.flatMap_append, hq _ _ hc.file,
        queueLinks_bytes _ _ inn _ hc.valid rfl fun x hx hlast => ⟨rfl, afterQueue_last hx hlast⟩]
    refine ⟨true, ⟨?_, ?_, ?_, rfl⟩, ?_, fun _ => rfl⟩
    · simpa [St.queueOut, St.headersOut, looped_r] using h.errorPage
    · simpa [St.queueOut, St.headersOut, looped_triggered] using h.untriggered
    · simpa [St.queueOut, St.headersOut, looped_processable] using h.processable
    · rw [Trace.wire_append, hins.stretch.quiet.wire, List.nil_append, Trace.wire_append, Trace.wire_single,
        Trace.wire_single, looped_r, hk]
      simp only [Line.feed, BodyCall.received]
      rw [← hbytes]
      rfl

theorem runEvents_nil (s : St) : RunEvents s [] = [] := by simp [RunEvents]

/-- a smooth run of calls with buffers the filter can inspect does not end the response -/
theorem bodyRun_untriggered {F : ℕ → ℤ → UInt8} {p : Bool} {line : Line Head UInt8} (calls : List BodyCall)
    (hc : ∀ c ∈ calls, CallOk F p c) (h : Carries F p s line) (hs : Smooth (RunEvents s calls)) :
    (bodyRun s calls).ctx.interventionTriggered = false := by
  induction calls generalizing s line with
  | nil => exact h.untriggered
  | cons c calls ih =>
    obtain ⟨evs, htr, hevs⟩ := runEvents_cons (Or.inl h.errorPage) c calls
    rw [hevs] at hs
    obtain ⟨hs1, hs2⟩ := smooth_append.1 hs
    have hun := bodyStep_untriggered c (hc c List.mem_cons_self) h htr hs1
    obtain ⟨flush, h1, -, -⟩ := bodyStep_carries c (hc c List.mem_cons_self).toCallValid h htr hs1 hun
    exact ih (fun d hd => hc d (List.mem_cons_of_mem _ hd)) h1 hs2

/-- **The run lemma.** A smooth run that does not end the response feeds the line, call by call, the bytes received. -/
theorem bodyRun_carries {F : ℕ → ℤ → UInt8} {p : Bool} {line : Line Head UInt8} (calls : List BodyCall)
    (hc : ∀ c ∈ calls, CallValid F c) (h : Carries F p s line) (hs : Smooth (RunEvents s calls))
    (hun : (bodyRun s calls).ctx.interventionTriggered = false) :
    ∃ xs : List (Bytes × Bool), xs.map Prod.fst = calls.map BodyCall.received ∧
      (RunEvents s calls).wire = (line.run xs).2 ∧
      ((∃ c ∈ calls, c.inn.any (·.lastBuf) = true) → ∃ x ∈ xs, x.2 = true) := by
  induction calls generalizing s line with
  | nil => exact ⟨[], rfl, by rw [runEvents_nil]; rfl, fun ⟨c, hc, _⟩ => absurd hc List.not_mem_nil⟩
  | cons c calls ih =>
    obtain ⟨evs, htr, hevs⟩ := runEvents_cons (Or.inl h.errorPage) c calls
    rw [hevs] at hs ⊢
    obtain ⟨hs1, hs2⟩ := smooth_append.1 hs
    have hun1 : (bodyStep s c).ctx.interventionTriggered = false := bodyRun_untriggered_of calls hun
    obtain ⟨flush, h1, hwire, hflush⟩ := bodyStep_carries c (hc c List.mem_cons_self) h htr hs1 hun1
    obtain ⟨xs, hxs, hwires, hlast⟩ := ih (fun d hd => hc d (List.mem_cons_of_mem _ hd)) h1 hs2 hun
    refine ⟨(c.received, flush) :: xs, by simp [hxs], ?_, ?_⟩
    · rw [Trace.wire_append, hwire, hwires]
      rfl
    · rintro ⟨d, hd, hl⟩
      rcases List.mem_cons.1 hd with rfl | hd
      · exact ⟨_, List.mem_cons_self, hflush hl⟩
      · obtain ⟨x, hx, hx'⟩ := hlast ⟨d, hd, hl⟩
        exact ⟨x, List.mem_cons_of_mem _ hx, hx'⟩

/-- a response whose headers have just been delayed -/
structure JustDelayed (s : St) : Prop where
  delayed : s.ctx.headersDelayed = true
  queue : s.ctx.pendingChain = []
  untriggered : s.ctx.interventionTriggered = false
  errorPage : s.r.errorPage = false

theorem JustDelayed.carries (h : JustDelayed s) (F : ℕ → ℤ → UInt8) :
    Carries F s.ctx.responseBodyProcessable s (.held (.headers s.r.headersOut s.r.headerOnly) []) :=
  ⟨h.errorPage, h.untriggered, rfl, h.delayed, rfl, fun c inn _ => by rw [h.queue]; rfl⟩

/-- a smooth run that does not end the response, some call of which has the last buffer: the headers once and first,
and behind them the bytes received -/
theorem bodyRun_delivery (calls : List BodyCall) {F : ℕ → ℤ → UInt8} (h : JustDelayed s)
    (hc : ∀ c ∈ calls, CallValid F c) (hlast : ∃ c ∈ calls, c.inn.any (·.lastBuf) = true)
    (hs : Smooth (RunEvents s calls)) (hun : (bodyRun s calls).ctx.interventionTriggered = false) :
    ∃ bodies : List Bytes, (RunEvents s calls).wire =
        .head (.headers s.r.headersOut s.r.headerOnly) :: bodies.map .body ∧
      bodies.flatten = calls.flatMap BodyCall.received := by
  obtain ⟨xs, hxs, hwire, hflush⟩ := bodyRun_carries calls hc (h.carries F) hs hun
  obtain ⟨bodies, hrun, hflat⟩ :=
    Line.run_flush (Head.headers s.r.headersOut s.r.headerOnly) ([] : Bytes) xs (hflush hlast)
  refine ⟨bodies, by rw [hwire, hrun], ?_⟩
  calc bodies.flatten = xs.flatMap Prod.fst := by rw [hflat, List.nil_append]
    _ = (xs.map Prod.fst).flatten := by rw [List.flatMap_def]
    _ = calls.flatMap BodyCall.received := by rw [hxs, List.flatMap_def]

/-- a smooth run that does not end the response and receives nothing sends no body -/
theorem bodyRun_sends_nothing (calls : List BodyCall) {F : ℕ → ℤ → UInt8} (h : JustDelayed s)
    (hc : ∀ c ∈ calls, CallValid F c) (hnil : calls.flatMap BodyCall.received = [])
    (hs : Smooth (RunEvents s calls)) (hun : (bodyRun s calls).ctx.interventionTriggered = false) :
    (RunEvents s calls).wire.flatMap Out.items = [] := by
  obtain ⟨xs, hxs, hwire, -⟩ := bodyRun_carries calls hc (h.carries F) hs hun
  have hcons := Line.run_conserves (Line.held (Head.headers s.r.headersOut s.r.headerOnly) ([] : Bytes)) xs
  have hfed : xs.flatMap Prod.fst = [] := by
    calc xs.flatMap Prod.fst = (xs.map Prod.fst).flatten := by rw [List.flatMap_def]
      _ = calls.flatMap BodyCall.received := by rw [hxs, List.flatMap_def]
      _ = [] := hnil
  rw [hfed, ← hwire] at hcons
  exact (List.append_eq_nil_iff.1 hcons).1

/-- **Delayed delivery.** In every run on a response whose headers are delayed, some call of which has the last buffer:
if nothing fails and every poll returns NGX_OK, what goes towards the client is the original headers, once and first,
and behind them exactly the bytes received, in order. -/
theorem delayed_delivery (s : St) (calls : List BodyCall) (F : ℕ → ℤ → UInt8) (h : JustDelayed s)
    (hc : ∀ c ∈ calls, CallOk F s.ctx.responseBodyProcessable c)
    (hlast : ∃ c ∈ calls, c.inn.any (·.lastBuf) = true) (hs : Smooth (RunEvents s calls)) :
    ∃ bodies : List Bytes, (RunEvents s calls).wire =
        .head (.headers s.r.headersOut s.r.headerOnly) :: bodies.map .body ∧
      bodies.flatten = calls.flatMap BodyCall.received := by
  have hun := bodyRun_untriggered calls hc (h.carries F) hs
  exact bodyRun_delivery calls h (fun c hm => (hc c hm).toCallValid) hlast hs hun

/-- a response whose headers are delayed and whose body is inspected -/
def delayedState : St := { r := {}, ctx := { headersDelayed := true, responseBodyProcessable := true } }

/-- two calls: a buffer in memory, whose storage holds other bytes by the time of the second, and the last buffer -/
def twoCalls : List BodyCall :=
  [⟨.calm (.fill 1), [{ last := 2, memory := true }]⟩,
    ⟨.calm (.fill 2), [{ last := 1, memory := true, lastBuf := true }]⟩]

theorem delayedState_justDelayed : JustDelayed delayedState := ⟨rfl, rfl, rfl, rfl⟩

theorem twoCalls_ok : ∀ c ∈ twoCalls, CallOk (fun _ _ => 0) true c := by
  intro c hc
  simp only [twoCalls, List.mem_cons, List.not_mem_nil, or_false] at hc
  rcases hc with rfl | rfl
  · refine ⟨⟨rfl, fun b hb => ?_⟩, fun _ b hb _ => ?_⟩
    · rw [List.mem_singleton.1 hb]
      exact ⟨fun _ => by decide, fun h => by cases h⟩
    · rw [List.mem_singleton.1 hb]
      decide
  · refine ⟨⟨rfl, fun b hb => ?_⟩, fun _ b hb _ => ?_⟩
    · rw [List.mem_singleton.1 hb]
      exact ⟨fun _ => by decide, fun h => by cases h⟩
    · rw [List.mem_singleton.1 hb]
      decide

theorem delayed_delivery_two_calls : ∃ bodies : List Bytes, (RunEvents delayedState twoCalls).wire =
      .head (.headers delayedState.r.headersOut false) :: bodies.map .body ∧ bodies.flatten = [1, 1, 2] := by
  obtain ⟨bodies, hwire, hflat⟩ := delayed_delivery delayedState twoCalls (fun _ _ => 0) delayedState_justDelayed
    twoCalls_ok ⟨_, List.mem_cons_of_mem _ List.mem_cons_self, rfl⟩ (by decide)
  exact ⟨bodies, hwire, hflat.trans (by decide)⟩

/-- one call whose only buffer has 2 GiB in memory: more than an int can count -/
def hugeCall : BodyCall := ⟨.calm (.fill 1), [{ last := 2 ^ 31, memory := true, lastBuf := true }]⟩

/-- **A buffer too long to inspect is not delivered.** Nothing fails, and an error page goes out instead. -/
theorem huge_buffer_not_delivered : JustDelayed delayedState ∧ (∀ b ∈ hugeCall.inn, b.Valid) ∧
    hugeCall.inn.any (·.lastBuf) = true ∧ Smooth (RunEvents delayedState [hugeCall]) ∧
    (RunEvents delayedState [hugeCall]).wire = [.head (.page 500)] ∧ hugeCall.received ≠ [] := by
  refine ⟨delayedState_justDelayed, fun b hb => ?_, rfl, by decide, by decide, fun h => ?_⟩
  · rw [List.mem_singleton.1 hb]
    exact ⟨fun _ => by decide, fun h => by cases h⟩
  · have hlen := congrArg List.length h
    simp [BodyCall.received, hugeCall, Buf.bytes, Buf.inMemory, Buf.memBytes] at hlen

end CorazaNginx
