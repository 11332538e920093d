/-
A file range, from the first read to the last.

`Scanned c b f o k j evs`: from offset `o`, `evs` are reads and appends of the chunk loop by which the engine has taken
`k` bytes, those of the file behind `o`, in at most `k + j` reads: a round that does not end the loop takes a byte
(`appendFileLoop_scan`, by induction on what is left of the range). Around the loop the function has a scratch buffer to
give back and direct I/O to switch on again; `file_range_inspected` puts the two together, for every range whose length
an `off_t` holds. A longer one (`file_pos` is then negative) is asked for in one read.
-/
import Mathlib.Tactic
import CorazaNginx.Response.Buffers

namespace CorazaNginx

open CorazaNginx.Core Prog Handler

variable {ρ : Type} {e : Env} {s : St} {b : Buf} {f : File} {c : Content}

/-! ## Reads and appends -/

/-- the bytes an event makes the engine take into its response body -/
def Event.taken : Event → Bytes
  | .call (.engine _ (.appendResponseBody data _)) rc => if rc = 0 then data else []
  | _ => []

/-- the bytes a stretch makes the engine take -/
def Trace.taken (t : Trace) : Bytes := t.flatMap Event.taken

@[simp] theorem Trace.taken_append (a b : Trace) : Trace.taken (a ++ b) = a.taken ++ b.taken := by simp [Trace.taken]

/-- `ngx_read_file` -/
def Event.isRead : Event → Bool
  | .call (.readFile ..) _ => true
  | _ => false

/-- `coraza_append_response_body` -/
def Event.isAppend : Event → Bool
  | .call (.engine _ (.appendResponseBody ..)) _ => true
  | _ => false

/-- a read asks for a chunk at most and not past the end of the range, an append passes its length as it is -/
def Event.WithinRange (b : Buf) : Event → Prop
  | .call (.readFile size offset) _ =>
    size ≤ responseBodyFileChunkSize ∧ b.filePos ≤ offset ∧ offset + size ≤ b.fileLast
  | .call (.engine _ (.appendResponseBody data len)) _ => len = data.length
  | _ => True

/-- what the loop has done from offset `o`, with `k` bytes taken, and `j` rounds that took none -/
structure Scanned (c : Content) (b : Buf) (f : File) (o : ℤ) (k j : ℕ) (evs : Trace) : Prop where
  within : ∀ ev ∈ evs, ev.WithinRange b
  taken : evs.taken = c.range b.tempFile f.id o k
  rounds : evs.countP Event.isRead ≤ k + j
  only : ∀ ev ∈ evs, ev.isRead = true ∨ ev.isAppend = true

/-- a round that the engine took, and what follows it -/
theorem Scanned.round {o : ℤ} {m k j : ℕ} {a rest : Trace} (hm : m ≠ 0) (hwithin : ∀ ev ∈ a, ev.WithinRange b)
    (htaken : a.taken = c.range b.tempFile f.id o m) (hreads : a.countP Event.isRead = 1)
    (honly : ∀ ev ∈ a, ev.isRead = true ∨ ev.isAppend = true) (h : Scanned c b f (o + m) k j rest) :
    Scanned c b f o (m + k) j (a ++ rest) where
  within := List.forall_mem_append.2 ⟨hwithin, h.within⟩
  taken := by rw [Trace.taken_append, htaken, h.taken, ← Content.range_add]
  rounds := by
    have hrest := h.rounds
    rw [List.countP_append, hreads]
    omega
  only := List.forall_mem_append.2 ⟨honly, h.only⟩

theorem readSize_le_chunk {left : ℤ} (h : left < 2 ^ 63) : readSize left ≤ responseBodyFileChunkSize := by
  rw [readSize, if_pos h]
  exact min_le_right _ _

/-- the read of a round -/
theorem read_within {o : ℤ} (hpos : b.filePos ≤ o) (hlt : o < b.fileLast) (hfit : b.fileLast - b.filePos < 2 ^ 63)
    (ret : ℤ) : Event.WithinRange b (.call (.readFile (readSize (b.fileLast - o)) o) ret) := by
  have hle := readSize_le (b.fileLast - o)
  refine ⟨readSize_le_chunk (by omega), hpos, ?_⟩
  omega

/-- **The loop.** It has taken the whole range, or it has broken off with less: by induction on what is left. -/
theorem appendFileLoop_scan (hfit : b.fileLast - b.filePos < 2 ^ 63) (o : ℤ) (hpos : b.filePos ≤ o)
    (hle : o ≤ b.fileLast) {Q : ℤ → St → Prop} {E : ρ → St → Prop}
    (hok : ∀ evs k, Scanned e.content b f o k 0 evs → o + k = b.fileLast → Q ngxOk (s.logs evs))
    (hbad : ∀ evs k, Scanned e.content b f o k 1 evs → o + k < b.fileLast → Q ngxError (s.logs evs)) :
    wp (appendFileLoop b f o : Handler ρ ℤ) Q E e s := by
  generalize hn : (b.fileLast - o).toNat = n
  induction n using Nat.strong_induction_on generalizing o s with
  | _ n ih =>
    rw [appendFileLoop]
    refine (wp_dite _ _ _).2 ⟨fun hlt => ?_, fun hlt => ?_⟩
    · rw [wp_bind, wp_readFile]
      set size := readSize (b.fileLast - o) with hsize
      set ret := e.ret s.trace (.readFile size o)
      set read := Event.call (.readFile size o) ret
      have hread : read.WithinRange b := read_within hpos hlt hfit ret
      -- a round that breaks off after the events `evs`
      have broken : ∀ evs : Trace, (∀ ev ∈ evs, ev.WithinRange b) → evs.taken = [] → evs.countP Event.isRead = 1 →
          (∀ ev ∈ evs, ev.isRead = true ∨ ev.isAppend = true) → Q ngxError (s.logs evs) := by
        intro evs hwithin htaken hreads honly
        have hscan : Scanned e.content b f o 0 1 evs := by
          refine ⟨hwithin, ?_, ?_, honly⟩
          · rw [htaken, Content.range_zero]
          · rw [hreads]
        apply hbad evs 0 hscan
        simpa using hlt
      have hfailed : Q ngxError (s.logs [read]) := by
        apply broken [read]
        · simpa using hread
        · rfl
        · rfl
        · simp [read, Event.isRead]
      cases hr : ReadResult.of size ret with
      | error => exact hfailed
      | bytes m le =>
        refine (wp_dite _ _ _).2 ⟨fun hm => hfailed, fun hm => ?_⟩
        simp only [wp_bind, wp_ask, wp_engine]
        set chunk := e.content.range b.tempFile f.id o m
        set append := Call.engine (s.log read).ctx.corazaTransaction (.appendResponseBody chunk (cInt m))
        set rc := e.ret (s.log read).trace append
        have hmk : m ≤ n := by
          have hleft := readSize_le (b.fileLast - o)
          omega
        have hlen : cInt m = chunk.length := by
          have hchunk : size ≤ responseBodyFileChunkSize := readSize_le_chunk (by omega)
          have hmax : m ≤ intMax := by
            simp only [responseBodyFileChunkSize] at hchunk
            simp only [intMax]
            omega
          rw [Content.range_length]
          exact cInt_of_le hmax
        have hwithin : ∀ ev ∈ [read, Event.call append rc], ev.WithinRange b := by
          intro ev hev
          rcases List.mem_cons.1 hev with rfl | hev
          · exact hread
          · rw [List.mem_singleton.1 hev]
            exact hlen
        have honly : ∀ ev ∈ [read, Event.call append rc], ev.isRead = true ∨ ev.isAppend = true := by
          simp [read, append, Event.isRead, Event.isAppend]
        have hreads : [read, Event.call append rc].countP Event.isRead = 1 := rfl
        refine (wp_ite _ _ _).2 ⟨fun hrc => ?_, fun hrc => ?_⟩
        · rw [wp_pure, St.log_log]
          apply broken
          · exact hwithin
          · simp [Trace.taken, Event.taken, read, append, hrc]
          · exact hreads
          · exact honly
        · have htaken : Trace.taken [read, Event.call append rc] = chunk := by
            simp [Trace.taken, Event.taken, read, append, not_not.1 hrc]
          rw [St.log_log]
          refine ih (n - m) (by omega) (o + m) (by omega) (by omega) (fun evs k hevs hk => ?_) (fun evs k hevs hk => ?_)
            (by omega)
          · rw [St.logs_logs]
            apply hok _ (m + k) (hevs.round hm hwithin htaken hreads honly)
            push_cast
            omega
          · rw [St.logs_logs]
            apply hbad _ (m + k) (hevs.round hm hwithin htaken hreads honly)
            push_cast
            omega
    · have hscan : Scanned e.content b f o 0 0 [] :=
        ⟨fun ev hev => absurd hev List.not_mem_nil, rfl, Nat.zero_le _, fun ev hev => absurd hev List.not_mem_nil⟩
      have hend := hok [] 0 hscan (by push_cast; omega)
      rwa [St.logs_nil] at hend

/-! ## The function -/

/-- direct I/O before and behind the loop: not in use, not switched off, or switched off and on again -/
inductive Switched : Trace → Trace → Prop where
  | unused : Switched [] []
  | refused : Switched [.call .directioOff ngxError] []
  | restored (r r' : ℤ) (off : r ≠ ngxError) : Switched [.call .directioOff r] [.call .directioOn r']

/-- how the loop has ended: with the range taken, or short of it and with the context marked -/
inductive Ended (b : Buf) (k : ℕ) : ℕ → ℤ → St → Prop where
  | whole (t : St) (h : b.filePos + k = b.fileLast) : Ended b k 0 ngxOk t
  | short (t : St) (h : b.filePos + k < b.fileLast) (marked : t.ctx.interventionTriggered = true) :
      Ended b k 1 ngxError t

/-- what the function can come to -/
inductive RangeOutcome (c : Content) (b : Buf) (f : File) (s : St) : ℤ → St → Prop where
  | inverted (h : b.fileLast < b.filePos) : RangeOutcome c b f s ngxError s.trigger
  | empty (h : b.fileLast = b.filePos) : RangeOutcome c b f s ngxOk s
  | noScratch (h : b.filePos < b.fileLast) :
      RangeOutcome c b f s ngxError (s.logs [.call (.alloc responseBodyFileChunkSize) 0]).trigger
  | scanned (ret free : ℤ) (allocated : ret ≠ 0) (off evs on : Trace) (k j : ℕ) (rc : ℤ) (t : St)
      (switched : Switched off on) (scan : Scanned c b f b.filePos k j evs) (ended : Ended b k j rc t)
      (trace : t.trace = s.trace ++ ([.call (.alloc responseBodyFileChunkSize) ret] ++ off ++ evs ++ on ++
        [.call .freeScratch free])) : RangeOutcome c b f s rc t

theorem appendResponseBodyFile_outcome (hfit : b.fileLast - b.filePos < 2 ^ 63) :
    wp (appendResponseBodyFile b f : Handler ℤ ℤ) (RangeOutcome e.content b f s)
      (RangeOutcome e.content b f s) e s := by
  rw [appendResponseBodyFile, wp_call, wp_bind]
  refine (wp_when _ _).2 ⟨fun hinv => ?_, fun hinv => ?_⟩
  · rw [wp_bind, wp_trigger, wp_exit]
    exact .inverted hinv
  rw [wp_bind]
  refine (wp_when _ _).2 ⟨fun hempty => ?_, fun hempty => ?_⟩
  · rw [wp_exit]
    exact .empty hempty
  have hlt : b.filePos < b.fileLast := by omega
  rw [wp_bind, wp_alloc, wp_bind]
  set ret := e.ret s.trace (.alloc responseBodyFileChunkSize)
  set alloc := Event.call (.alloc responseBodyFileChunkSize) ret with halloc
  refine (wp_when _ _).2 ⟨fun hno => ?_, fun hyes => ?_⟩
  · have hret : ret = 0 := by simpa using hno
    rw [wp_bind, wp_trigger, wp_exit, halloc, hret]
    exact .noScratch hlt
  have hret : ret ≠ 0 := by simpa using hyes
  -- the end of the function, behind a loop that has ended in `k` bytes taken
  have finish : ∀ (off : Trace) (p : Prop) [Decidable p] (evs : Trace) (k j : ℕ) (rc : ℤ),
      (∀ on, (if p then ∃ r, on = [Event.call .directioOn r] else on = []) → Switched off on) →
      Scanned e.content b f b.filePos k j evs →
      (rc = ngxOk ∧ j = 0 ∧ b.filePos + k = b.fileLast ∨ rc = ngxError ∧ j = 1 ∧ b.filePos + k < b.fileLast) →
      wp (do
        when p do
          let _ ← invoke .directioOn
        let _ ← invoke .freeScratch
        when (rc ≠ ngxOk) trigger
        return rc : Handler ℤ ℤ) (RangeOutcome e.content b f s) (RangeOutcome e.content b f s) e
        (((s.log alloc).logs off).logs evs) := by
    intro off p _ evs k j rc hswitched hscan hrc
    apply afterLoop_spec
    intro on free hon
    have htr : ∀ t : St, t.trace = (((s.log alloc).logs off).logs evs).trace ++ (on ++ [.call .freeScratch free]) →
        t.trace = s.trace ++ ([alloc] ++ off ++ evs ++ on ++ [.call .freeScratch free]) := by
      intro t ht
      rw [ht]
      simp
    rcases hrc with ⟨rfl, rfl, hk⟩ | ⟨rfl, rfl, hk⟩
    · rw [if_pos rfl]
      exact .scanned ret free hret off evs on k 0 _ _ (hswitched on hon) hscan (.whole _ hk) (htr _ rfl)
    · rw [if_neg (by decide)]
      exact .scanned ret free hret off evs on k 1 _ _ (hswitched on hon) hscan (.short _ hk rfl) (htr _ rfl)
  -- the loop, with direct I/O off or not in use
  have loop : ∀ (off : Trace) (r : ℤ), r ≠ ngxError →
      (∀ on, (if (f.directio && r ≠ ngxError) = true then ∃ r, on = [Event.call .directioOn r] else on = []) →
        Switched off on) →
      wp (submitRange b f r >>= fun rc => do
        when (f.directio && r ≠ ngxError) do
          let _ ← invoke .directioOn
        let _ ← invoke .freeScratch
        when (rc ≠ ngxOk) trigger
        return rc : Handler ℤ ℤ) (RangeOutcome e.content b f s) (RangeOutcome e.content b f s) e
        ((s.log alloc).logs off) := by
    intro off r hr hswitched
    rw [submitRange, if_neg hr, wp_bind]
    apply appendFileLoop_scan hfit b.filePos le_rfl hlt.le
    · intro evs k hscan hk
      exact finish off _ evs k 0 ngxOk hswitched hscan (Or.inl ⟨rfl, rfl, hk⟩)
    · intro evs k hscan hk
      exact finish off _ evs k 1 ngxError hswitched hscan (Or.inr ⟨rfl, rfl, hk⟩)
  rw [wp_bind, directioOff]
  refine (wp_ite _ _ _).2 ⟨fun hd => ?_, fun hd => ?_⟩
  · rw [wp_invoke]
    set r := e.ret (s.log alloc).trace .directioOff
    by_cases hr : r = ngxError
    · -- not switched off: no round is made
      have hscan : Scanned e.content b f b.filePos 0 1 [] :=
        ⟨fun ev hev => absurd hev List.not_mem_nil, rfl, Nat.zero_le _, fun ev hev => absurd hev List.not_mem_nil⟩
      have hend := finish [.call .directioOff r] ((f.directio && r ≠ ngxError) = true) [] 0 1 ngxError
      rw [St.logs_nil] at hend
      rw [submitRange, if_pos hr, wp_bind, wp_pure]
      apply hend
      · intro on hon
        rw [if_neg (by simp [hr])] at hon
        rw [hon, hr]
        exact .refused
      · exact hscan
      · right
        exact ⟨rfl, rfl, by push_cast; omega⟩
    · apply loop [.call .directioOff r] r hr
      intro on hon
      rw [if_pos (by simp [hd, hr])] at hon
      obtain ⟨r', rfl⟩ := hon
      exact .restored r r' hr
  · rw [wp_pure]
    have hunused := loop [] ngxOk (by decide)
    rw [St.logs_nil] at hunused
    apply hunused
    intro on hon
    rw [if_neg (by simp [hd])] at hon
    rw [hon]
    exact .unused

/-! ## Every range -/

/-- the scratch buffer is allocated -/
def Event.allocatesScratch : Event → Bool
  | .call (.alloc n) rc => n = responseBodyFileChunkSize && rc ≠ 0
  | _ => false

/-- and freed -/
def Event.freesScratch : Event → Bool
  | .call .freeScratch _ => true
  | _ => false

/-- direct I/O is switched off -/
def Event.switchesOff : Event → Bool
  | .call .directioOff rc => rc ≠ ngxError
  | _ => false

/-- and on again -/
def Event.switchesOn : Event → Bool
  | .call .directioOn _ => true
  | _ => false

/-- what a call of the function adds to the trace -/
def fileRangeEvents (e : Env) (s : St) (b : Buf) (f : File) : Trace :=
  ((appendResponseBodyFile b f : Handler ℤ ℤ).run e s).2.trace.drop s.trace.length

/-- the range is inspected exactly: what is read, what the engine takes of it, what is returned, what is given back -/
structure InspectedExactly (c : Content) (b : Buf) (f : File) (evs : Trace) (rc : ℤ) (t : St) : Prop where
  ends : evs.countP Event.isRead ≤ (b.fileLast - b.filePos).toNat
  within : ∀ ev ∈ evs, ev.WithinRange b
  taken : evs.taken = c.range b.tempFile f.id b.filePos evs.taken.length
  ok : rc = ngxOk ↔ b.filePos ≤ b.fileLast ∧ b.filePos + evs.taken.length = b.fileLast
  failed : rc ≠ ngxOk → rc = ngxError ∧ t.ctx.interventionTriggered = true
  directio : evs.countP Event.switchesOn = evs.countP Event.switchesOff
  scratch : evs.countP Event.freesScratch = evs.countP Event.allocatesScratch
  freedLast : ∀ pre ev post, evs = pre ++ ev :: post → ev.freesScratch = true → post = []

/-- a range of which nothing is read -/
theorem InspectedExactly.unread {c : Content} {evs : Trace} {rc : ℤ} {t : St} (h : evs = [] ∨
      evs = [.call (.alloc responseBodyFileChunkSize) 0])
    (hok : rc = ngxOk ↔ b.filePos = b.fileLast)
    (hfailed : rc ≠ ngxOk → rc = ngxError ∧ t.ctx.interventionTriggered = true) :
    InspectedExactly c b f evs rc t := by
  rcases h with rfl | rfl
  · refine ⟨Nat.zero_le _, fun ev hev => absurd hev List.not_mem_nil, rfl, ?_, hfailed, rfl, rfl, ?_⟩
    · simp only [Trace.taken, List.flatMap_nil, List.length_nil]
      omega
    · intro pre ev post h
      simp at h
  · refine ⟨Nat.zero_le _, ?_, rfl, ?_, hfailed, rfl, rfl, ?_⟩
    · simp [Event.WithinRange]
    · simp only [Trace.taken, Event.taken, List.flatMap_cons, List.flatMap_nil, List.append_nil, List.length_nil]
      omega
    · intro pre ev post h hfree
      cases pre with
      | nil =>
        injection h with h
        rw [← h] at hfree
        cases hfree
      | cons x pre =>
        injection h with _ h
        simp at h

/-- the events around the loop -/
theorem Switched.counts {off on : Trace} (h : Switched off on) :
    on.countP Event.switchesOn = off.countP Event.switchesOff ∧
    (∀ ev ∈ off ++ on, ev.WithinRange b ∧ ev.taken = [] ∧ ev.isRead = false ∧ ev.freesScratch = false ∧
      ev.allocatesScratch = false) ∧
    off.countP Event.switchesOn = 0 ∧ on.countP Event.switchesOff = 0 := by
  cases h with
  | unused => exact ⟨rfl, fun ev hev => absurd hev List.not_mem_nil, rfl, rfl⟩
  | refused =>
    refine ⟨rfl, ?_, rfl, rfl⟩
    intro ev hev
    rw [List.append_nil, List.mem_singleton] at hev
    rw [hev]
    exact ⟨trivial, rfl, rfl, rfl, rfl⟩
  | restored r r' off =>
    refine ⟨?_, ?_, rfl, rfl⟩
    · simp [Event.switchesOn, Event.switchesOff, off]
    · intro ev hev
      rcases List.mem_cons.1 hev with rfl | hev
      · exact ⟨trivial, rfl, rfl, rfl, rfl⟩
      · rw [List.mem_singleton.1 hev]
        exact ⟨trivial, rfl, rfl, rfl, rfl⟩

theorem Scanned.quiet {o : ℤ} {k j : ℕ} {evs : Trace} (h : Scanned c b f o k j evs) {P : Event → Bool}
    (hread : ∀ size offset ret, P (.call (.readFile size offset) ret) = false)
    (happend : ∀ tx data len ret, P (.call (.engine tx (.appendResponseBody data len)) ret) = false) :
    evs.countP P = 0 := by
  apply List.countP_eq_zero.2
  intro ev hev
  rcases h.only ev hev with hr | ha
  · cases ev with
    | poll => cases hr
    | call call ret =>
      cases call with
      | readFile size offset => simp [hread]
      | _ => cases hr
  · cases ev with
    | poll => cases ha
    | call call ret =>
      cases call with
      | engine tx call =>
        cases call with
        | appendResponseBody data len => simp [happend]
        | _ => cases ha
      | _ => cases ha

/-- the loop between what is taken and what is given back -/
theorem InspectedExactly.scanned {c : Content} {off evs on : Trace} {ret free : ℤ} {k j : ℕ} {rc : ℤ} {t : St}
    (hret : ret ≠ 0) (hswitched : Switched off on) (hscan : Scanned c b f b.filePos k j evs)
    (hended : Ended b k j rc t) :
    InspectedExactly c b f
      ([.call (.alloc responseBodyFileChunkSize) ret] ++ off ++ evs ++ on ++ [.call .freeScratch free])
      rc t := by
  set alloc := Event.call (.alloc responseBodyFileChunkSize) ret
  set freed := Event.call .freeScratch free
  obtain ⟨hcounts, hquiet, hoff, hon⟩ := hswitched.counts (b := b)
  have zero : ∀ (l : Trace) (P : Event → Bool), (∀ ev ∈ l, P ev = false) → l.countP P = 0 := by
    intro l P hl
    apply List.countP_eq_zero.2
    intro ev hev
    simp [hl ev hev]
  have htaken : Trace.taken ([alloc] ++ off ++ evs ++ on ++ [freed]) = c.range b.tempFile f.id b.filePos k := by
    have hoff' : Trace.taken off = [] :=
      List.flatMap_eq_nil_iff.2 fun ev hev => (hquiet ev (List.mem_append_left _ hev)).2.1
    have hon' : Trace.taken on = [] :=
      List.flatMap_eq_nil_iff.2 fun ev hev => (hquiet ev (List.mem_append_right _ hev)).2.1
    have halloc : Trace.taken [alloc] = [] := rfl
    have hfreed : Trace.taken [freed] = [] := rfl
    simp only [Trace.taken_append, hoff', hon', hscan.taken, halloc, hfreed, List.append_nil, List.nil_append]
  have hreads : ∀ ev ∈ off ++ on, ev.isRead = false := fun ev hev => (hquiet ev hev).2.2.1
  have hfrees : ∀ ev ∈ off ++ on, ev.freesScratch = false := fun ev hev => (hquiet ev hev).2.2.2.1
  have hallocs : ∀ ev ∈ off ++ on, ev.allocatesScratch = false := fun ev hev => (hquiet ev hev).2.2.2.2
  have hevsFrees : evs.countP Event.freesScratch = 0 := hscan.quiet (fun _ _ _ => rfl) fun _ _ _ _ => rfl
  refine ⟨?_, ?_, ?_, ?_, ?_, ?_, ?_, ?_⟩
  · have hrounds := hscan.rounds
    have hoff' := zero off _ fun ev hev => hreads ev (List.mem_append_left _ hev)
    have hon' := zero on _ fun ev hev => hreads ev (List.mem_append_right _ hev)
    have hcount : ([alloc] ++ off ++ evs ++ on ++ [freed]).countP Event.isRead = evs.countP Event.isRead := by
      simp [List.countP_append, hoff', hon', alloc, freed, Event.isRead]
    rw [hcount]
    cases hended with
    | whole t h => omega
    | short t h => omega
  · intro ev hev
    simp only [List.mem_append, List.mem_singleton] at hev
    rcases hev with (((rfl | hev) | hev) | hev) | rfl
    · trivial
    · exact (hquiet ev (List.mem_append_left _ hev)).1
    · exact hscan.within ev hev
    · exact (hquiet ev (List.mem_append_right _ hev)).1
    · trivial
  · rw [htaken, Content.range_length]
  · rw [htaken, Content.range_length]
    cases hended with
    | whole t h => simp; omega
    | short t h => simp; omega
  · intro hrc
    cases hended with
    | whole t h => exact absurd rfl hrc
    | short t h marked => exact ⟨rfl, marked⟩
  · have hon' : evs.countP Event.switchesOn = 0 := hscan.quiet (fun _ _ _ => rfl) fun _ _ _ _ => rfl
    have hoff' : evs.countP Event.switchesOff = 0 := hscan.quiet (fun _ _ _ => rfl) fun _ _ _ _ => rfl
    simp [List.countP_append, hon', hoff', hon, hoff, hcounts, alloc, freed, Event.switchesOn, Event.switchesOff]
  · have hevs' : evs.countP Event.allocatesScratch = 0 := hscan.quiet (fun _ _ _ => rfl) fun _ _ _ _ => rfl
    have hoff1 := zero off _ fun ev hev => hfrees ev (List.mem_append_left _ hev)
    have hon1 := zero on _ fun ev hev => hfrees ev (List.mem_append_right _ hev)
    have hoff2 := zero off _ fun ev hev => hallocs ev (List.mem_append_left _ hev)
    have hon2 := zero on _ fun ev hev => hallocs ev (List.mem_append_right _ hev)
    simp [List.countP_append, hevs', hevsFrees, hoff1, hon1, hoff2, hon2, alloc, freed, Event.allocatesScratch,
      Event.freesScratch, hret]
  · -- the free is the last event, and the only one
    intro pre ev post hsplit hfree
    rcases List.eq_nil_or_concat post with rfl | ⟨rest, x, rfl⟩
    · rfl
    · exfalso
      rw [List.concat_eq_append, ← List.cons_append, ← List.append_assoc] at hsplit
      have hinit := (List.append_inj' hsplit rfl).1
      have hmem : ev ∈ [alloc] ++ off ++ evs ++ on := by rw [hinit]; simp
      simp only [List.mem_append, List.mem_singleton] at hmem
      rcases hmem with ((rfl | hmem) | hmem) | hmem
      · cases hfree
      · exact absurd (hfree.symm.trans (hfrees ev (List.mem_append_left _ hmem))) (by decide)
      · exact List.countP_eq_zero.1 hevsFrees ev hmem hfree
      · exact absurd (hfree.symm.trans (hfrees ev (List.mem_append_right _ hmem))) (by decide)

/-- **File ranges are inspected exactly.** Every range whose length an `off_t` holds, whatever the reads and the engine
answer. -/
theorem file_range_inspected (e : Env) (s : St) (b : Buf) (f : File) (hfit : b.fileLast - b.filePos < 2 ^ 63) :
    InspectedExactly e.content b f (fileRangeEvents e s b f) ((appendResponseBodyFile b f : Handler ℤ ℤ).run e s).1
      ((appendResponseBodyFile b f : Handler ℤ ℤ).run e s).2 := by
  have hout : RangeOutcome e.content b f s ((appendResponseBodyFile b f : Handler ℤ ℤ).run e s).1
      ((appendResponseBodyFile b f : Handler ℤ ℤ).run e s).2 :=
    (wp_run (Q := RangeOutcome e.content b f s) _).1 (appendResponseBodyFile_outcome hfit)
  unfold fileRangeEvents
  generalize ((appendResponseBodyFile b f : Handler ℤ ℤ).run e s).1 = rc at hout ⊢
  generalize ((appendResponseBodyFile b f : Handler ℤ ℤ).run e s).2 = t at hout ⊢
  cases hout with
  | inverted h =>
    apply InspectedExactly.unread
    · left
      exact List.drop_eq_nil_of_le le_rfl
    · simp only [ngxError, ngxOk]
      omega
    · intro _
      exact ⟨rfl, rfl⟩
  | empty h =>
    apply InspectedExactly.unread
    · left
      exact List.drop_eq_nil_of_le le_rfl
    · exact iff_of_true rfl h.symm
    · intro hrc
      exact absurd rfl hrc
  | noScratch h =>
    apply InspectedExactly.unread
    · right
      exact List.drop_left
    · simp only [ngxError, ngxOk]
      omega
    · intro _
      exact ⟨rfl, rfl⟩
  | scanned ret free hret off evs on k j rc t hswitched hscan hended htr =>
    rw [htr, List.drop_left]
    exact InspectedExactly.scanned hret hswitched hscan hended

/-- a file of two bytes, under direct I/O -/
def twoBytes : Buf := { inFile := true, file := some ⟨0, true⟩, fileLast := 2 }

theorem two_bytes_inspected : twoBytes.filePos ≤ twoBytes.fileLast ∧ twoBytes.filePos +
    (fileRangeEvents (.calm (.fill 1)) { r := {}, ctx := {} } twoBytes ⟨0, true⟩).taken.length = twoBytes.fileLast :=
  (file_range_inspected (.calm (.fill 1)) { r := {}, ctx := {} } twoBytes ⟨0, true⟩ (by decide)).ok.1
  (by decide +kernel)

/-- the longest range two 64-bit offsets describe -/
def wrappedRange : Buf := { inFile := true, file := some ⟨0, false⟩, filePos := -2 ^ 63, fileLast := 2 ^ 63 - 1 }

/-- an environment whose reads fail -/
def unreadableEnv : Env := { Env.calm (.fill 1) with
  ret := fun _ call => match call with
    | .alloc _ => 1
    | _ => -1 }

/-- **A range whose length wraps is asked for in one read.** -/
theorem wrapped_range_one_read :
    .call (.readFile (2 ^ 64 - 1) (-2 ^ 63)) (-1) ∈
      fileRangeEvents unreadableEnv { r := {}, ctx := {} } wrappedRange ⟨0, false⟩ ∧
    ¬ ∀ (e : Env) (s : St) (b : Buf) (f : File), -2 ^ 63 ≤ b.filePos → b.filePos < 2 ^ 63 → -2 ^ 63 ≤ b.fileLast →
      b.fileLast < 2 ^ 63 → InspectedExactly e.content b f (fileRangeEvents e s b f)
        ((appendResponseBodyFile b f : Handler ℤ ℤ).run e s).1
          ((appendResponseBodyFile b f : Handler ℤ ℤ).run e s).2 := by
  have hread : .call (.readFile (2 ^ 64 - 1) (-2 ^ 63)) (-1) ∈
      fileRangeEvents unreadableEnv { r := {}, ctx := {} } wrappedRange ⟨0, false⟩ := by
    decide +kernel
  refine ⟨hread, fun h => ?_⟩
  have hwithin := (h unreadableEnv { r := {}, ctx := {} } wrappedRange ⟨0, false⟩ (by decide) (by decide) (by decide)
    (by decide)).within _ hread
  have hchunk : 2 ^ 64 - 1 ≤ responseBodyFileChunkSize := hwithin.1
  revert hchunk
  decide

end CorazaNginx
