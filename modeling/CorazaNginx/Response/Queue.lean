/-
The queue of a delayed response: what stands in it, and how long it gets.

`Holding` is a response whose headers are delayed and that nothing has ended. A call that leaves it holding has queued
its whole chain (`Holding.step`), so that after a run the queue is one link for each buffer received, in order
(`Holding.run`); the two results about the queue are read off that.
- `flush_keeps_control_iff`: what a flush hands on keeps every buffer's marks, and every empty buffer a control buffer,
  exactly when no copied buffer is marked sync. The pool copy takes over `flush` and `last_in_chain` only.
- `delay_bounded`: a queue of buffers that all have bytes is bounded by the cap. An empty buffer costs a link and is
  charged nothing (`empty_buffers_unbounded`).
-/
import Mathlib.Tactic
import CorazaNginx.Response.Delivery

namespace CorazaNginx

open CorazaNginx.Core Prog Handler

variable {e : Env} {s : St}

/-! ## What is queued -/

/-- the headers are delayed and nothing has ended the response -/
structure Holding (s : St) : Prop where
  delayed : s.ctx.headersDelayed = true
  untriggered : s.ctx.interventionTriggered = false
  errorPage : s.r.errorPage = false

theorem JustDelayed.holding (h : JustDelayed s) : Holding s := ⟨h.delayed, h.untriggered, h.errorPage⟩

/-- the buffers of a call, each with its position and with what memory and files held at the time -/
def BodyCall.items (c : BodyCall) : List (Content × Buf × ℕ) := c.inn.zipIdx.map fun x => (c.env.content, x)

/-- the link queued for a buffer -/
def itemLink (y : Content × Buf × ℕ) : Link := queueLink y.1 y.2

theorem BodyCall.items_buf (c : BodyCall) : c.items.map (·.2.1) = c.inn := by
  rw [items, List.map_map]
  exact List.zipIdx_map_fst 0 c.inn

theorem items_received (calls : List BodyCall) : (calls.flatMap (·.items)).map (·.2.1) = calls.flatMap (·.inn) := by
  rw [List.map_flatMap]
  exact List.flatMap_congr fun c _ => c.items_buf

theorem mem_of_mem_items {c : BodyCall} {y : Content × Buf × ℕ} (h : y ∈ c.items) :
    y.2.1 ∈ c.inn ∧ y.1 = c.env.content ∧ y.2 ∈ c.inn.zipIdx := by
  obtain ⟨x, hx, rfl⟩ := List.mem_map.1 h
  refine ⟨?_, rfl, hx⟩
  have hmem := List.mem_map_of_mem (f := Prod.fst) hx
  rwa [List.zipIdx_map_fst] at hmem

/-- a call that leaves the response holding -/
structure HeldCall (s : St) (c : BodyCall) (t : St) : Prop where
  holding : Holding t
  queue : t.ctx.pendingChain = s.ctx.pendingChain ++ c.items.map itemLink
  bytes : t.ctx.pendingBytes = chainCost c.env.content c.inn.zipIdx s.ctx.pendingBytes
  last : ∀ b ∈ c.inn, b.lastBuf = false
  cap : c.inn ≠ [] → t.ctx.pendingBytes ≤ maxDelayedBody

theorem looped_queue (inn : List Buf) (evs : Trace) (hd : s.ctx.headersDelayed = true) :
    (s.looped e inn evs).ctx.pendingChain = s.ctx.pendingChain ++ (BodyCall.items ⟨e, inn⟩).map itemLink := by
  rw [looped_pending, if_pos hd, BodyCall.items, List.map_map]
  rfl

theorem looped_bytes (inn : List Buf) (evs : Trace) (hd : s.ctx.headersDelayed = true) :
    (s.looped e inn evs).ctx.pendingBytes = chainCost e.content inn.zipIdx s.ctx.pendingBytes := by
  rw [St.looped, St.logs_ctx, queueAll_ctx, if_pos (by simpa using hd)]
  rfl

/-- **The step lemma.** A call after which the headers are still delayed has queued its whole chain. -/
theorem Holding.step (h : Holding s) (c : BodyCall) (hd : (bodyStep s c).ctx.headersDelayed = true) :
    HeldCall s c (bodyStep s c) := by
  obtain ⟨e, inn⟩ := c
  by_cases hne : inn = []
  · subst hne
    rw [show bodyStep s ⟨e, []⟩ = _ from bodyFilter_null (e := e) (s := s)]
    refine ⟨⟨h.delayed, h.untriggered, h.errorPage⟩, ?_, rfl, fun b hb => absurd hb List.not_mem_nil, fun h' => ?_⟩
    · exact (List.append_nil _).symm
    · exact absurd rfl h'
  have ho : Outcome e inn s (bodyStep s ⟨e, inn⟩) := bodyFilter_outcome inn hne h.errorPage h.untriggered
  generalize bodyStep s ⟨e, inn⟩ = t at hd ho ⊢
  cases ho with
  | blocked hb =>
    rw [hb.delayed] at hd
    cases hd
  | streamed evs rc hins hdel =>
    rw [h.delayed] at hdel
    cases hdel
  | held evs hins hdel hlast hcap =>
    refine ⟨⟨?_, ?_, ?_⟩, looped_queue inn evs hdel, looped_bytes inn evs hdel, fun b hb => ?_, fun _ => hcap⟩
    · rw [looped_delayed, hdel]
    · rw [looped_triggered, h.untriggered]
    · rw [looped_r, h.errorPage]
    · exact by simpa using List.any_eq_false.1 hlast b hb
  | stuck evs hins hdel => cases hd
  | flushed evs rc rc' hins hdel hdue hrc => cases hd

theorem bodyStep_delayed_of (h : Steady s) (c : BodyCall) (hd : (bodyStep s c).ctx.headersDelayed = true) :
    s.ctx.headersDelayed = true := by
  obtain ⟨e, inn⟩ := c
  by_cases hne : inn = []
  · subst hne
    rwa [show bodyStep s ⟨e, []⟩ = _ from bodyFilter_null (e := e) (s := s)] at hd
  by_cases ht : s.ctx.interventionTriggered = true
  · rw [show bodyStep s ⟨e, inn⟩ = _ from bodyFilter_triggered (e := e) inn hne ht] at hd
    split_ifs at hd
    · exact hd
    · exact hd
  have ho : Outcome e inn s (bodyStep s ⟨e, inn⟩) :=
    bodyFilter_outcome inn hne (h.resolve_right ht) (by simpa using ht)
  generalize bodyStep s ⟨e, inn⟩ = t at hd ho
  cases ho with
  | blocked hb =>
    rw [hb.delayed] at hd
    cases hd
  | streamed evs rc hins hdel => rwa [St.chainOut, St.log_ctx, looped_delayed] at hd
  | held evs hins hdel => exact hdel
  | stuck evs hins hdel => exact hdel
  | flushed evs rc rc' hins hdel => exact hdel

/-- headers delayed after a run were delayed before it -/
theorem bodyRun_delayed_of (h : Steady s) (calls : List BodyCall) (hd : (bodyRun s calls).ctx.headersDelayed = true) :
    s.ctx.headersDelayed = true := by
  induction calls generalizing s with
  | nil => exact hd
  | cons c calls ih => exact bodyStep_delayed_of h c (ih (bodyStep_steady h c).1 hd)

theorem Holding.steady (h : Holding s) : Steady s := Or.inl h.errorPage

/-- **The run lemma.** While the headers stay delayed the queue is one link for each buffer received. -/
theorem Holding.run (h : Holding s) (calls : List BodyCall) (hd : (bodyRun s calls).ctx.headersDelayed = true) :
    Holding (bodyRun s calls) ∧
      (bodyRun s calls).ctx.pendingChain = s.ctx.pendingChain ++ (calls.flatMap (·.items)).map itemLink ∧
      ∀ c ∈ calls, ∀ b ∈ c.inn, b.lastBuf = false := by
  induction calls generalizing s with
  | nil => exact ⟨h, (List.append_nil _).symm, fun c hc => absurd hc List.not_mem_nil⟩
  | cons c calls ih =>
    have hc := h.step c (bodyRun_delayed_of (bodyStep_steady h.steady c).1 calls hd)
    obtain ⟨hhold, hqueue, hlast⟩ := ih hc.holding hd
    refine ⟨hhold, ?_, fun c' hc' => ?_⟩
    · rw [bodyRun_cons, hqueue, hc.queue, List.flatMap_cons, List.map_append, List.append_assoc]
    · rcases List.mem_cons.1 hc' with rfl | hc'
      · exact hc.last
      · exact hlast c' hc'

/-! ## Marks -/

/-- `ngx_buf_size` -/
def Buf.size (b : Buf) : ℤ := if b.inMemory then (b.last : ℤ) - b.pos else b.fileLast - b.filePos

/-- `ngx_buf_special` -/
def Buf.special (b : Buf) : Bool := (b.flush || b.lastBuf || b.sync) && !b.inMemory && !b.inFile

/-- a buffer as nginx builds it: one without storage has no extent, and memory ends behind `last` -/
structure Buf.WellFormed (b : Buf) : Prop extends b.Valid where
  bare : b.inMemory = false → b.fileBacked = none → b.filePos = b.fileLast
  block : ∀ d, b.store = .pool d → b.last ≤ d.length

/-- queued as a pool copy -/
def Buf.Copied (b : Buf) : Prop := b.lastBuf = false ∧ (b.fileBacked.isSome && !b.tempFile) = false

instance (b : Buf) : Decidable b.Copied := by unfold Buf.Copied; infer_instance

/-- the marks that the filters further down look at -/
structure SameMarks (b b' : Buf) : Prop where
  flush : b'.flush = b.flush
  sync : b'.sync = b.sync
  lastInChain : b'.lastInChain = b.lastInChain

theorem copyBuf_marks (b : Buf) (d : Bytes) : (copyBuf b d).flush = b.flush ∧ (copyBuf b d).sync = false ∧
    (copyBuf b d).lastInChain = b.lastInChain := by
  unfold copyBuf
  split_ifs <;> exact ⟨rfl, rfl, rfl⟩

/-- a link has its buffer's marks, unless it is the copy of a sync buffer -/
theorem queueLink_marks (c c' : Content) (x : Buf × ℕ) (inn : List Buf)
    (hl : x.1.lastBuf = true → inn[x.2]? = some x.1) :
    SameMarks x.1 ((queueLink c x).hand c' inn).buf ↔ (x.1.Copied → x.1.sync = false) := by
  unfold queueLink
  split_ifs with h h'
  · have hx : inn.getD x.2 {} = x.1 := by simp [List.getD_eq_getElem?_getD, hl h]
    refine ⟨fun _ hc => absurd (hc.1.symm.trans h) (by decide), fun _ => ?_⟩
    rw [Link.hand, hx]
    exact ⟨rfl, rfl, rfl⟩
  · exact ⟨fun _ hc => absurd (hc.2.symm.trans h') (by decide), fun _ => ⟨rfl, rfl, rfl⟩⟩
  · obtain ⟨hflush, hsync, hchain⟩ := copyBuf_marks x.1 (x.1.data c)
    refine ⟨fun hm _ => hm.sync.symm.trans hsync, fun hc => ⟨hflush, hsync.trans ?_, hchain⟩⟩
    exact (hc ⟨by simpa using h, by simpa using h'⟩).symm

/-- a well formed buffer without data is empty -/
theorem Buf.WellFormed.size_of_data {b : Buf} (h : b.WellFormed) {c : Content} (hd : b.data c = []) : b.size = 0 := by
  have hlen := congrArg List.length hd
  unfold Buf.data at hlen
  unfold Buf.size
  by_cases hm : b.inMemory = true
  · rw [if_pos hm] at hlen ⊢
    have hle := (h.mem hm).1
    unfold Buf.memBytes at hlen
    cases hs : b.store with
    | producer =>
      rw [hs] at hlen
      simp at hlen
      omega
    | pool d =>
      rw [hs] at hlen
      have hblock := h.block d hs
      simp at hlen
      omega
  · rw [if_neg hm] at hlen ⊢
    cases hf : b.fileBacked with
    | none =>
      have := h.bare (by simpa using hm) hf
      omega
    | some f =>
      obtain ⟨h0, h1, h2⟩ := h.file (by rw [hf]; rfl)
      rw [hf] at hlen
      simp only [Content.range_length, List.length_nil] at hlen
      rw [bodyChunkLen_of_file hf, sizeT] at hlen
      omega

/-- a link of zero length is a control buffer, unless it is the copy of a sync buffer -/
theorem queueLink_special (c c' : Content) (x : Buf × ℕ) (inn : List Buf) (hwf : x.1.WellFormed)
    (hctl : x.1.size = 0 → x.1.special = true) (hl : x.1.lastBuf = true → inn[x.2]? = some x.1)
    (hsync : x.1.Copied → x.1.sync = false) (hz : ((queueLink c x).hand c' inn).buf.size = 0) :
    ((queueLink c x).hand c' inn).buf.special = true := by
  unfold queueLink at hz ⊢
  split_ifs at hz ⊢ with h h'
  · have hx : inn.getD x.2 {} = x.1 := by simp [List.getD_eq_getElem?_getD, hl h]
    rw [Link.hand, hx] at hz ⊢
    exact hctl hz
  · -- a file range is no control buffer, so it is not empty
    have hspec := hctl hz
    obtain ⟨f, hf⟩ := Option.isSome_iff_exists.1 (Bool.and_eq_true_iff.1 h').1
    unfold Buf.fileBacked at hf
    split_ifs at hf with hin
    rw [Bool.and_eq_true] at hin
    simp [Buf.special, hin.2] at hspec
  · have hcop : x.1.Copied := ⟨by simpa using h, by simpa using h'⟩
    by_cases hd : x.1.data c = []
    · have hspec := hctl (hwf.size_of_data hd)
      have hs := hsync hcop
      have hlast := hcop.1
      simp [Buf.special, hs, hlast] at hspec
      simp [Link.hand, copyBuf, hd, Buf.special, Buf.inMemory, hspec.1.1]
    · exfalso
      simp [Link.hand, copyBuf, hd, Buf.size, Buf.inMemory] at hz

/-- what a flush hands on, against the buffers received -/
structure KeepsControl (out : List Handed) (received : List Buf) : Prop where
  marks : List.Forall₂ (fun h b => SameMarks b h.buf) out received
  special : ∀ h ∈ out, h.buf.size = 0 → h.buf.special = true

/-- what stands for an item when it is handed on -/
def itemHand (c' : Content) (inn : List Buf) (y : Content × Buf × ℕ) : Handed := (itemLink y).hand c' inn

theorem forall₂_map_map {α β γ : Type} (R : β → γ → Prop) (f : α → β) (g : α → γ) (l : List α) :
    List.Forall₂ R (l.map f) (l.map g) ↔ ∀ y ∈ l, R (f y) (g y) := by
  rw [List.forall₂_map_left_iff, List.forall₂_map_right_iff, List.forall₂_same]

/-- items whose last buffers are those of the chain in hand -/
theorem items_keep (items : List (Content × Buf × ℕ)) (c' : Content) (inn : List Buf)
    (hl : ∀ y ∈ items, y.2.1.lastBuf = true → inn[y.2.2]? = some y.2.1) :
    List.Forall₂ (fun h b => SameMarks b h.buf) (items.map (itemHand c' inn)) (items.map (·.2.1)) ↔
      ∀ y ∈ items, y.2.1.Copied → y.2.1.sync = false := by
  rw [forall₂_map_map]
  exact forall₂_congr fun y hy => queueLink_marks y.1 c' y.2 inn (hl y hy)

theorem forall_items {calls : List BodyCall} {P : Buf → Prop} :
    (∀ y ∈ calls.flatMap (·.items), P y.2.1) ↔ ∀ c ∈ calls, ∀ b ∈ c.inn, P b := by
  constructor
  · intro h c hc b hb
    rw [← c.items_buf] at hb
    obtain ⟨y, hy, rfl⟩ := List.mem_map.1 hb
    exact h y (List.mem_flatMap.2 ⟨c, hc, hy⟩)
  · intro h y hy
    obtain ⟨c, hc, hyc⟩ := List.mem_flatMap.1 hy
    exact h c hc _ (mem_of_mem_items hyc).1

/-- a call on a response that is held hands on the queue and the chain behind it, if it hands on anything -/
theorem Holding.flush (h : Holding s) (c : BodyCall) (hne : c.inn ≠ []) {out : List Handed} {rc : ℤ}
    (hev : .call (.nextBody out) rc ∈ (bodyStep s c).trace.drop s.trace.length) :
    out = (s.ctx.pendingChain ++ c.items.map itemLink).map (Link.hand c.env.content (c.inn.map Buf.afterQueue)) := by
  obtain ⟨e, inn⟩ := c
  have ho : Outcome e inn s (bodyStep s ⟨e, inn⟩) := bodyFilter_outcome inn hne h.errorPage h.untriggered
  generalize bodyStep s ⟨e, inn⟩ = t at hev ho
  have quiet : ∀ {evs : Trace}, evs.Quiet → Event.call (.nextBody out) rc ∉ evs := by
    intro evs hq hm
    have hout := hq _ hm
    cases hout
  cases ho with
  | blocked hb =>
    exfalso
    obtain ⟨evs, ev, status, htr, href, hend, -⟩ := hb.trace
    rw [List.append_assoc, St.setInn_trace] at htr
    rw [htr, List.drop_left] at hev
    rcases List.mem_append.1 hev with hev | hev
    · exact quiet href.quiet hev
    · have hbody := hend.notBody
      rw [← List.mem_singleton.1 hev] at hbody
      cases hbody
  | streamed evs rc' hins hdel =>
    rw [h.delayed] at hdel
    cases hdel
  | held evs hins hdel hlast hcap =>
    rw [looped_trace, List.drop_left] at hev
    exact absurd hev (quiet hins.stretch.quiet)
  | stuck evs hins hdel =>
    rw [St.headersOut_trace, looped_trace, List.append_assoc, List.drop_left] at hev
    rcases List.mem_append.1 hev with hev | hev
    · exact absurd hev (quiet hins.stretch.quiet)
    · have heq := List.mem_singleton.1 hev
      cases heq
  | flushed evs rc' rc'' hins hdel hdue hsent =>
    rw [St.queueOut_trace, St.headersOut_trace, looped_trace, List.append_assoc, List.append_assoc,
      List.drop_left] at hev
    rcases List.mem_append.1 hev with hev | hev
    · exact absurd hev (quiet hins.stretch.quiet)
    rcases List.mem_append.1 hev with hev | hev
    · have heq := List.mem_singleton.1 hev
      cases heq
    · have heq := List.mem_singleton.1 hev
      injection heq with heq _
      injection heq with heq
      rw [heq]
      have hinn : ((s.looped e inn evs).headersOut e rc').inn = inn.map Buf.afterQueue :=
        (looped_inn inn evs).trans (if_pos hdel)
      have hqueue : ((s.looped e inn evs).headersOut e rc').ctx.pendingChain =
          s.ctx.pendingChain ++ (BodyCall.items ⟨e, inn⟩).map itemLink := looped_queue inn evs hdel
      rw [hinn, hqueue]

/-- **Control buffers in the queue.** On a response whose headers are delayed, and with chains of well formed buffers
whose empty ones are control buffers: at any time the queue has the marks of what it stands for, and what a flush hands
on has them too and no empty buffer that is not a control buffer, if and only if no copied buffer was marked sync. -/
theorem flush_keeps_control_iff (s : St) (h : JustDelayed s) (calls : List BodyCall)
    (hd : (bodyRun s calls).ctx.headersDelayed = true) :
    (∀ c' inn', List.Forall₂ (fun l b => SameMarks b (Link.hand c' inn' l).buf) (bodyRun s calls).ctx.pendingChain
        (calls.flatMap (·.inn)) ↔ ∀ c ∈ calls, ∀ b ∈ c.inn, b.Copied → b.sync = false) ∧
    ∀ (c : BodyCall) (out : List Handed) (rc : ℤ), c.inn ≠ [] →
      (∀ c' ∈ calls ++ [c], ∀ b ∈ c'.inn, b.WellFormed ∧ (b.size = 0 → b.special = true)) →
      .call (.nextBody out) rc ∈ (bodyStep (bodyRun s calls) c).trace.drop (bodyRun s calls).trace.length →
      (KeepsControl out ((calls ++ [c]).flatMap (·.inn)) ↔
        ∀ c' ∈ calls ++ [c], ∀ b ∈ c'.inn, b.Copied → b.sync = false) := by
  obtain ⟨hhold, hqueue, hlast⟩ := h.holding.run calls hd
  rw [h.queue, List.nil_append] at hqueue
  have hnolast : ∀ y ∈ calls.flatMap (·.items), y.2.1.lastBuf = false := forall_items.2 hlast
  constructor
  · intro c' inn'
    have hkeep := items_keep (calls.flatMap (·.items)) c' inn' fun y hy hl =>
      absurd (hl.symm.trans (hnolast y hy)) (by decide)
    rw [hqueue, ← items_received, forall₂_map_map, ← forall_items]
    rwa [forall₂_map_map] at hkeep
  · intro c out rc hne hb hev
    have hout := hhold.flush c hne hev
    rw [hqueue, ← List.map_append, List.map_map] at hout
    set items := calls.flatMap (·.items) ++ c.items with hitems
    have hflat : (calls ++ [c]).flatMap (·.items) = items := by
      rw [List.flatMap_append, List.flatMap_singleton]
    -- a last buffer is one of the chain in hand, and still as it came
    have hl : ∀ y ∈ items, y.2.1.lastBuf = true → (c.inn.map Buf.afterQueue)[y.2.2]? = some y.2.1 := by
      intro y hy hlb
      rcases List.mem_append.1 hy with hy | hy
      · exact absurd (hlb.symm.trans (hnolast y hy)) (by decide)
      · exact afterQueue_last (mem_of_mem_items hy).2.2 hlb
    have hwf : ∀ y ∈ items, y.2.1.WellFormed ∧ (y.2.1.size = 0 → y.2.1.special = true) := by
      rw [← hflat]
      exact forall_items.2 hb
    have hmarks := items_keep items c.env.content (c.inn.map Buf.afterQueue) hl
    have hrec : items.map (·.2.1) = (calls ++ [c]).flatMap (·.inn) := by
      rw [← hflat, items_received]
    have hcond : (∀ y ∈ items, y.2.1.Copied → y.2.1.sync = false) ↔
        ∀ c' ∈ calls ++ [c], ∀ b ∈ c'.inn, b.Copied → b.sync = false := by
      rw [← hflat]
      exact forall_items (P := fun b => b.Copied → b.sync = false)
    have hout' : out = items.map (itemHand c.env.content (c.inn.map Buf.afterQueue)) := hout
    rw [← hcond, ← hrec, hout']
    refine ⟨fun hk => hmarks.1 hk.marks, fun hs => ⟨hmarks.2 hs, fun x hx => ?_⟩⟩
    obtain ⟨y, hy, rfl⟩ := List.mem_map.1 hx
    exact queueLink_special y.1 c.env.content y.2 _ (hwf y hy).1 (hwf y hy).2 (hl y hy) (hs y hy)

/-- a flush mark on a buffer without storage, then the last byte -/
def flushMarkCall : BodyCall :=
  ⟨.calm (.fill 1), [{ flush := true }, { last := 1, memory := true, lastBuf := true }]⟩

theorem flushMarkCall_wellFormed : ∀ b ∈ flushMarkCall.inn, b.WellFormed ∧ (b.size = 0 → b.special = true) := by
  intro b hb
  simp only [flushMarkCall, List.mem_cons, List.not_mem_nil, or_false] at hb
  rcases hb with rfl | rfl
  · exact ⟨⟨⟨nofun, nofun⟩, fun _ _ => rfl, nofun⟩, fun _ => rfl⟩
  · exact ⟨⟨⟨fun _ => by decide, nofun⟩, nofun, nofun⟩, nofun⟩

theorem flush_mark_kept : KeepsControl
    [⟨{ flush := true }, [], none⟩, ⟨{ last := 1, memory := true, lastBuf := true }, [1], some 1⟩] flushMarkCall.inn :=
  ((flush_keeps_control_iff delayedState delayedState_justDelayed [] rfl).2 flushMarkCall _ 0 (by decide)
    (by simpa using flushMarkCall_wellFormed) (by decide)).2
      (by simp only [List.nil_append, List.forall_mem_singleton]; decide)

/-- **A sync mark is lost.** An empty sync buffer comes out of the queue as an empty buffer that is no control
buffer. -/
theorem sync_mark_lost : ∃ out rc,
    .call (.nextBody out) rc ∈ (bodyStep delayedState
      ⟨.calm (.fill 1), [{ sync := true }, { last := 1, memory := true, lastBuf := true }]⟩).trace ∧
    (∀ b ∈ ([{ sync := true }, { last := 1, memory := true, lastBuf := true }] : List Buf),
      b.size = 0 → b.special = true) ∧
    ∃ h ∈ out, h.buf.size = 0 ∧ h.buf.special = false :=
  ⟨[⟨{}, [], none⟩, ⟨{ last := 1, memory := true, lastBuf := true }, [1], some 1⟩], 0, by decide, by decide, by decide⟩

/-! ## The bound -/

/-- the bytes a call brings -/
def BodyCall.bytes (c : BodyCall) : ℕ := (c.inn.map fun b => (b.bytes c.env.content).length).sum

/-- what queueing one buffer charges, when nothing wraps -/
theorem queueCost_eq (c : Content) (x : Buf × ℕ) (n : ℕ) (hl : x.1.lastBuf = false)
    (hord : x.1.fileBacked.isSome → x.1.filePos ≤ x.1.fileLast) (hfit : n + (x.1.bytes c).length < 2 ^ 64) :
    queueCost c x n = n + (x.1.bytes c).length := by
  have hlen : (x.1.data c).length = (x.1.bytes c).length ∧
      (x.1.fileBacked.isSome → sizeT (x.1.fileLast - x.1.filePos) = (x.1.bytes c).length) := by
    cases hf : x.1.fileBacked with
    | none => exact ⟨by rw [Buf.data_eq_of_none hf], fun h => by cases h⟩
    | some f =>
      have h1 := hord (by rw [hf]; rfl)
      rw [Buf.bytes_of_file hf, Content.range_length] at hfit ⊢
      rw [Buf.data_of_file hf, Content.range_length, bodyChunkLen_of_file hf, sizeT]
      have hmod : ((x.1.fileLast - x.1.filePos) % 2 ^ 64).toNat = (x.1.fileLast - x.1.filePos).toNat := by omega
      exact ⟨hmod, fun _ => hmod⟩
  unfold queueCost
  rw [if_neg (by simp [hl])]
  split_ifs with hfile
  · rw [hlen.2 (Bool.and_eq_true_iff.1 hfile).1, Nat.mod_eq_of_lt hfit]
  · rw [hlen.1, Nat.mod_eq_of_lt hfit]

/-- what queueing a chain charges, when nothing wraps: by induction on the chain -/
theorem chainCost_eq (c : Content) (l : List (Buf × ℕ)) (n : ℕ) (hl : ∀ x ∈ l, x.1.lastBuf = false)
    (hord : ∀ x ∈ l, x.1.fileBacked.isSome → x.1.filePos ≤ x.1.fileLast)
    (hfit : n + (l.map fun x => (x.1.bytes c).length).sum < 2 ^ 64) :
    chainCost c l n = n + (l.map fun x => (x.1.bytes c).length).sum := by
  induction l generalizing n with
  | nil => rfl
  | cons x l ih =>
    rw [List.map_cons, List.sum_cons] at hfit ⊢
    have hx := queueCost_eq c x n (hl x List.mem_cons_self) (hord x List.mem_cons_self) (by omega)
    have hrest := ih (n + (x.1.bytes c).length) (fun y hy => hl y (List.mem_cons_of_mem x hy))
      (fun y hy => hord y (List.mem_cons_of_mem x hy)) (by omega)
    calc chainCost c (x :: l) n = chainCost c l (queueCost c x n) := rfl
      _ = chainCost c l (n + (x.1.bytes c).length) := by rw [hx]
      _ = n + ((x.1.bytes c).length + (l.map fun x => (x.1.bytes c).length).sum) := by rw [hrest, Nat.add_assoc]

/-- a call whose buffers are all charged for: each has bytes, and the count does not wrap -/
structure Charged (s : St) (c : BodyCall) : Prop where
  nonempty : ∀ b ∈ c.inn, b.lastBuf = false → b.bytes c.env.content ≠ []
  fits : s.ctx.pendingBytes + c.bytes < 2 ^ 64

/-- every call of a run -/
def RunCharged (s : St) : List BodyCall → Prop
  | [] => True
  | c :: calls => Charged s c ∧ RunCharged (bodyStep s c) calls

theorem Charged.bytes_eq {c : BodyCall} (h : Charged s c) (hl : ∀ b ∈ c.inn, b.lastBuf = false)
    (hord : ∀ b ∈ c.inn, b.fileBacked.isSome → b.filePos ≤ b.fileLast) :
    chainCost c.env.content c.inn.zipIdx s.ctx.pendingBytes = s.ctx.pendingBytes + c.bytes := by
  have hfst : ∀ x ∈ c.inn.zipIdx, x.1 ∈ c.inn := fun x hx => by
    have hmem := List.mem_map_of_mem (f := Prod.fst) hx
    rwa [List.zipIdx_map_fst] at hmem
  have hsum : (c.inn.zipIdx.map fun x => (x.1.bytes c.env.content).length).sum = c.bytes := by
    rw [BodyCall.bytes]
    conv_rhs => rw [← List.zipIdx_map_fst 0 c.inn, List.map_map]
    rfl
  rw [chainCost_eq _ _ _ (fun x hx => hl _ (hfst x hx)) (fun x hx => hord _ (hfst x hx)), hsum]
  rw [hsum]
  exact h.fits

/-- each buffer brings a byte at least -/
theorem Charged.length_le {c : BodyCall} (h : Charged s c) (hl : ∀ b ∈ c.inn, b.lastBuf = false) :
    c.inn.length ≤ c.bytes := by
  have hone : ∀ n ∈ c.inn.map fun b => (b.bytes c.env.content).length, 1 ≤ n := by
    intro n hn
    obtain ⟨b, hb, rfl⟩ := List.mem_map.1 hn
    exact List.length_pos_iff.2 (h.nonempty b hb (hl b hb))
  have hsum := List.card_nsmul_le_sum _ 1 hone
  simpa [BodyCall.bytes] using hsum

/-- what the count is worth: it is the bytes queued, within the cap, and no link is free -/
structure Bounded (total : ℕ) (s : St) : Prop where
  bytes : s.ctx.pendingBytes = total
  cap : s.ctx.pendingBytes ≤ maxDelayedBody
  links : s.ctx.pendingChain.length ≤ s.ctx.pendingBytes

theorem Bounded.step {total : ℕ} (hb : Bounded total s) (h : Holding s) (c : BodyCall) (hc : Charged s c)
    (hord : ∀ b ∈ c.inn, b.fileBacked.isSome → b.filePos ≤ b.fileLast)
    (hd : (bodyStep s c).ctx.headersDelayed = true) : Bounded (total + c.bytes) (bodyStep s c) := by
  have hheld := h.step c hd
  have hbytes : (bodyStep s c).ctx.pendingBytes = s.ctx.pendingBytes + c.bytes :=
    hheld.bytes.trans (hc.bytes_eq hheld.last hord)
  refine ⟨by rw [hbytes, hb.bytes], ?_, ?_⟩
  · by_cases hne : c.inn = []
    · have hzero : c.bytes = 0 := by rw [BodyCall.bytes, hne]; rfl
      rw [hbytes, hzero]
      exact hb.cap
    · exact hheld.cap hne
  · have hlen := hc.length_le hheld.last
    have hitems : c.items.length = c.inn.length := by simp [BodyCall.items]
    rw [hheld.queue, List.length_append, List.length_map, hitems, hbytes]
    have hlinks := hb.links
    omega

/-- **The delay is bounded.** In every run of calls whose buffers are all charged for, whenever the headers are still
delayed the bytes queued are what `pending_bytes` says, they are within the cap, and so is the number of links. -/
theorem delay_bounded (s : St) (h : JustDelayed s) (h0 : s.ctx.pendingBytes = 0) (calls : List BodyCall)
    (hord : ∀ c ∈ calls, ∀ b ∈ c.inn, b.fileBacked.isSome → b.filePos ≤ b.fileLast) (hc : RunCharged s calls)
    (hd : (bodyRun s calls).ctx.headersDelayed = true) :
    (bodyRun s calls).ctx.pendingBytes = (calls.map (·.bytes)).sum ∧
      (bodyRun s calls).ctx.pendingBytes ≤ maxDelayedBody ∧
      (bodyRun s calls).ctx.pendingChain.length ≤ maxDelayedBody := by
  have hinit : Bounded 0 s := ⟨h0, by rw [h0]; exact Nat.zero_le _, by rw [h.queue]; exact Nat.zero_le _⟩
  suffices hrun : ∀ (s : St) (total : ℕ) (calls : List BodyCall), Holding s → Bounded total s →
      (∀ c ∈ calls, ∀ b ∈ c.inn, b.fileBacked.isSome → b.filePos ≤ b.fileLast) → RunCharged s calls →
      (bodyRun s calls).ctx.headersDelayed = true → Bounded (total + (calls.map (·.bytes)).sum) (bodyRun s calls) by
    have hb := hrun s 0 calls h.holding hinit hord hc hd
    rw [Nat.zero_add] at hb
    exact ⟨hb.bytes, hb.cap, hb.links.trans hb.cap⟩
  intro s total calls
  induction calls generalizing s total with
  | nil => exact fun _ hb _ _ _ => hb
  | cons c calls ih =>
    intro hhold hb hord hc hd
    have hd1 := bodyRun_delayed_of (bodyStep_steady hhold.steady c).1 calls hd
    have hstep := hb.step hhold c hc.1 (hord c List.mem_cons_self) hd1
    have hrest := ih (bodyStep s c) (total + c.bytes) (hhold.step c hd1).holding hstep
      (fun c' hc' => hord c' (List.mem_cons_of_mem c hc')) hc.2 hd
    rw [List.map_cons, List.sum_cons, ← Nat.add_assoc]
    exact hrest

/-- a byte in memory -/
def byteCall : BodyCall := ⟨.calm (.fill 1), [{ last := 1, memory := true }]⟩

/-- a byte in memory and three of a file -/
def mixedCall : BodyCall :=
  ⟨.calm (.fill 1), [{ last := 1, memory := true }, { fileLast := 3, file := some ⟨7, false⟩, inFile := true }]⟩

/-- a byte, a byte and a file range, and one more byte -/
theorem delay_bounded_three_calls :
    (bodyRun delayedState [byteCall, mixedCall, byteCall]).ctx.pendingBytes = 1 + 4 + 1 := by
  have hord : ∀ c ∈ [byteCall, mixedCall, byteCall], ∀ b ∈ c.inn, b.fileBacked.isSome → b.filePos ≤ b.fileLast := by
    decide
  have hbyte : ∀ b ∈ byteCall.inn, b.bytes byteCall.env.content ≠ [] := by decide
  have hmixed : ∀ b ∈ mixedCall.inn, b.bytes mixedCall.env.content ≠ [] := by decide
  have hcharged : RunCharged delayedState [byteCall, mixedCall, byteCall] :=
    ⟨⟨fun b hb _ => hbyte b hb, by decide⟩, ⟨fun b hb _ => hmixed b hb, by decide +kernel⟩,
      ⟨fun b hb _ => hbyte b hb, by decide +kernel⟩, trivial⟩
  exact (delay_bounded delayedState delayedState_justDelayed rfl _ hord hcharged (by decide +kernel)).1

/-- an empty buffer with a flush mark -/
def emptyCall : BodyCall := ⟨.calm (.fill 1), [{ flush := true }]⟩

/-- a delayed response whose body is not inspected, with this queue -/
def queuedState (q : List Link) (inn : List Buf) (t : Trace) : St :=
  { r := {}, ctx := { headersDelayed := true, pendingChain := q }, inn := inn, trace := t }

/-- an empty buffer costs a link and is charged nothing -/
theorem empty_uncharged (q : List Link) (inn : List Buf) (t : Trace) : bodyStep (queuedState q inn t) emptyCall =
    queuedState (q ++ [.own { flush := true }]) emptyCall.inn
      (t ++ [.call (.alloc 16) 1] ++ [.call (.alloc 80) 1]) := by
  rfl

theorem empty_run (n : ℕ) (q : List Link) (inn : List Buf) (t : Trace) : ∃ q' inn' t',
    bodyRun (queuedState q inn t) (List.replicate n emptyCall) = queuedState q' inn' t' ∧
      q'.length = q.length + n := by
  induction n generalizing q inn t with
  | zero => exact ⟨q, inn, t, rfl, rfl⟩
  | succ n ih =>
    rw [List.replicate_succ, bodyRun_cons, empty_uncharged]
    obtain ⟨q', inn', t', hrun, hlen⟩ := ih (q ++ [.own { flush := true }]) emptyCall.inn
      (t ++ [.call (.alloc 16) 1] ++ [.call (.alloc 80) 1])
    refine ⟨q', inn', t', hrun, ?_⟩
    rw [hlen, List.length_append, List.length_singleton]
    omega

/-- **The delay is not bounded.** No bound on the queue holds of every run, not even of those in which nothing is
charged: empty buffers make it as long as one likes. -/
theorem empty_buffers_unbounded : ¬ ∃ bound : ℕ, ∀ (s : St) (calls : List BodyCall), JustDelayed s →
    s.ctx.pendingBytes = 0 → (∀ c ∈ calls, ∀ b ∈ c.inn, b.fileBacked.isSome → b.filePos ≤ b.fileLast) →
    (bodyRun s calls).ctx.headersDelayed = true → (bodyRun s calls).ctx.pendingBytes = 0 →
    (bodyRun s calls).ctx.pendingChain.length ≤ bound := by
  rintro ⟨bound, h⟩
  obtain ⟨q, inn, t, hrun, hlen⟩ := empty_run (bound + 1) [] [] []
  have hord : ∀ c ∈ List.replicate (bound + 1) emptyCall, ∀ b ∈ c.inn, b.fileBacked.isSome →
      b.filePos ≤ b.fileLast := by
    intro c hc b hb
    rw [List.eq_of_mem_replicate hc] at hb
    rw [List.mem_singleton.1 hb]
    nofun
  have hbound := h (queuedState [] [] []) (List.replicate (bound + 1) emptyCall) ⟨rfl, rfl, rfl, rfl⟩ rfl hord
    (by rw [hrun]; rfl) (by rw [hrun]; rfl)
  rw [hrun] at hbound
  change q.length ≤ bound at hbound
  rw [hlen, List.length_nil] at hbound
  omega

end CorazaNginx
