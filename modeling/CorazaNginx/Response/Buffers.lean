/-
One buffer of the response: what is read from it and what the engine is given.

- `readBodyData_spec`: the data read is `Buf.data`, or something failed.
- `appendResponseBodyFile_spec`: of a file range the engine gets exactly the bytes, in however many chunks, or the
  context is marked: a call failed, or the range is inverted.
`Buf.Valid.data_eq_bytes`: for a well-formed buffer the data read is what a filter further down would get.
-/
import Mathlib.Tactic
import CorazaNginx.Spec.Poll

namespace CorazaNginx

open CorazaNginx.Core Prog Handler

variable {ρ : Type} {e : Env} {s : St}

/-! ## Reading -/

/-- what `ngx_http_coraza_read_body_data` reads from a buffer -/
def Buf.data (c : Content) (b : Buf) : Bytes :=
  if b.inMemory then b.memBytes c
  else match b.fileBacked with
    | some f => c.range b.tempFile f.id b.filePos (bodyChunkLen b)
    | none => []

theorem Buf.not_inMemory {b : Buf} {f : File} (h : b.fileBacked = some f) : b.inMemory = false := by
  unfold Buf.fileBacked at h
  cases hm : b.inMemory <;> simp_all

theorem bodyChunkLen_of_file {b : Buf} {f : File} (h : b.fileBacked = some f) :
    bodyChunkLen b = sizeT (b.fileLast - b.filePos) := by
  simp [bodyChunkLen, h, Buf.not_inMemory h]

theorem Buf.bytes_of_file {b : Buf} {f : File} (h : b.fileBacked = some f) (c : Content) :
    b.bytes c = c.range b.tempFile f.id b.filePos (b.fileLast - b.filePos).toNat := by
  simp [Buf.bytes, h, Buf.not_inMemory h]

theorem Buf.data_of_file {b : Buf} {f : File} (h : b.fileBacked = some f) (c : Content) :
    b.data c = c.range b.tempFile f.id b.filePos (bodyChunkLen b) := by
  simp [Buf.data, h, Buf.not_inMemory h]

theorem Buf.data_eq_of_none {b : Buf} (h : b.fileBacked = none) (c : Content) : b.data c = b.bytes c := by
  simp [Buf.data, Buf.bytes, h]

theorem Buf.Valid.data_eq_bytes {b : Buf} (h : b.Valid) (c : Content) : b.data c = b.bytes c := by
  cases hf : b.fileBacked with
  | none => exact Buf.data_eq_of_none hf c
  | some f =>
    obtain ⟨h0, h1, h2⟩ := h.file (by rw [hf]; rfl)
    rw [Buf.data_of_file hf, Buf.bytes_of_file hf, bodyChunkLen_of_file hf, sizeT_of_range (by omega) (by omega)]

/-- the read loop: by induction on what remains -/
theorem readRange_spec (b : Buf) (f : File) (n : ℕ) (o : ℤ) (d : Bytes) {Q : Option Bytes → St → Prop}
    {E : ρ → St → Prop}
    (hok : ∀ s' evs, s' = s.logs evs → Stretch evs [] 0 → Q (some (d ++ e.content.range b.tempFile f.id o n)) s')
    (hbad : ∀ s' evs, s' = s.logs evs → Broken evs False → Q none s') :
    wp (readRange b f n o d : Handler ρ (Option Bytes)) Q E e s := by
  induction n using Nat.strong_induction_on generalizing o d s with
  | _ n ih =>
    rw [readRange]
    refine (wp_dite _ _ _).2 ⟨fun h0 => ?_, fun h0 => ?_⟩
    · have := hok s [] (St.logs_nil s).symm Stretch.nil
      rw [h0, Content.range_zero, List.append_nil] at this
      exact this
    · rw [wp_bind, wp_readFile]
      set ret := e.ret s.trace (.readFile n o)
      cases hr : ReadResult.of n ret with
      | error =>
        have hlt := ReadResult.of_error hr
        exact hbad _ [_] rfl (Broken.single rfl rfl (by simp [Event.failed]; omega) rfl)
      | bytes m le =>
        refine (wp_dite _ _ _).2 ⟨fun hm => ?_, fun hm => ?_⟩
        · subst hm
          have hle := ReadResult.of_zero hr h0
          exact hbad _ [_] rfl (Broken.single rfl rfl (by simp [Event.failed]; omega) rfl)
        · have hpos := ReadResult.of_pos hr hm
          have hread : Stretch [Event.call (.readFile n o) ret] [] 0 :=
            Stretch.single rfl (by simp [Event.failed]; omega)
          rw [wp_bind, wp_ask]
          refine ih (n - m) (by omega) _ _ (fun s' evs hs' hevs => ?_) (fun s' evs hs' hevs => ?_)
          · have := hok s' ([_] ++ evs) (hs'.trans (St.log_logs s _ evs)) (hread.append hevs)
            rw [List.append_assoc, ← Content.range_add, Nat.add_sub_cancel' le]
            exact this
          · refine hbad s' ([_] ++ evs) (hs'.trans (St.log_logs s _ evs)) (hread.broken hevs)

theorem readBodyData_spec (b : Buf) {Q : Option Bytes → St → Prop} {E : ρ → St → Prop}
    (hok : ∀ s' evs, s' = s.logs evs → Stretch evs [] 0 → Q (some (b.data e.content)) s')
    (hbad : ∀ s' evs, s' = s.logs evs → Broken evs False → Q none s') :
    wp (readBodyData b : Handler ρ (Option Bytes)) Q E e s := by
  have hnil := hok s [] (St.logs_nil s).symm Stretch.nil
  rw [readBodyData, wp_call, wp_bind]
  refine (wp_when _ _).2 ⟨fun hm => ?_, fun hm => ?_⟩
  · rw [wp_bind, wp_ask, wp_exit]
    rwa [Buf.data, if_pos hm] at hnil
  · cases hf : b.fileBacked with
    | none =>
      rw [Buf.data, if_neg hm, hf] at hnil
      exact hnil
    | some f =>
      simp only [wp_bind, wp_when, wp_exit, wp_alloc]
      rw [Buf.data_of_file hf] at hok hnil
      refine ⟨fun h0 => ?_, fun h0 => ⟨fun ha => ?_, fun ha => ?_⟩⟩
      · rwa [h0, Content.range_zero] at hnil
      · exact hbad _ [_] rfl (Broken.single rfl rfl (by simpa [Event.failed] using ha) rfl)
      · have halloc : Stretch [Event.call (.alloc (bodyChunkLen b)) (e.ret s.trace (.alloc (bodyChunkLen b)))] [] 0 :=
          Stretch.single rfl (by simpa [Event.failed] using ha)
        refine readRange_spec b f _ _ _ (fun s' evs hs' hevs => ?_) (fun s' evs hs' hevs => ?_)
        · exact hok s' ([_] ++ evs) (hs'.trans (St.log_logs s _ evs)) (halloc.append hevs)
        · exact hbad s' ([_] ++ evs) (hs'.trans (St.log_logs s _ evs)) (halloc.broken hevs)

/-! ## Appending -/

/-- a successful append of a chunk -/
theorem Stretch.append_call (t : ℕ) (d : Bytes) (l : ℤ) {rc : ℤ} (h : rc = 0) :
    Stretch [Event.call (.engine t (.appendResponseBody d l)) rc] d 0 where
  quiet := Trace.quiet_single.2 rfl
  clean := Trace.clean_single.2 (by simp [Event.failed, h])
  appended := List.append_nil d
  evals := rfl

/-- a failed one -/
theorem Broken.append_call {t : ℕ} {d : Bytes} {l rc : ℤ} {P : Prop} (h : rc ≠ 0) :
    Broken [Event.call (.engine t (.appendResponseBody d l)) rc] P :=
  Broken.single rfl rfl (by simp [Event.failed, h]) rfl

theorem readSize_le (left : ℤ) : readSize left ≤ left.toNat := by
  unfold readSize
  split_ifs
  · exact min_le_left _ _
  · exact le_rfl

theorem readSize_pos {left : ℤ} (h : 0 < left) : readSize left ≠ 0 := by
  unfold readSize responseBodyFileChunkSize
  split_ifs <;> omega

/-- the chunk loop: by induction on what remains of the range -/
theorem appendFileLoop_spec (b : Buf) (f : File) (o : ℤ) {Q : ℤ → St → Prop} {E : ρ → St → Prop}
    (hok : ∀ s' evs, s' = s.logs evs →
      Stretch evs (e.content.range b.tempFile f.id o (b.fileLast - o).toNat) 0 → Q ngxOk s')
    (hbad : ∀ s' evs, s' = s.logs evs → Broken evs False → Q ngxError s') :
    wp (appendFileLoop b f o : Handler ρ ℤ) Q E e s := by
  generalize hk : (b.fileLast - o).toNat = k at hok
  induction k using Nat.strong_induction_on generalizing o s with
  | _ k ih =>
    rw [appendFileLoop]
    refine (wp_dite _ _ _).2 ⟨fun hlt => ?_, fun hlt => ?_⟩
    · rw [wp_bind, wp_readFile]
      set size := readSize (b.fileLast - o)
      set ret := e.ret s.trace (.readFile size o)
      have hs0 : size ≠ 0 := readSize_pos (by omega)
      cases hr : ReadResult.of size ret with
      | error =>
        have hneg := ReadResult.of_error hr
        exact hbad _ [_] rfl (Broken.single rfl rfl (by simp [Event.failed]; omega) rfl)
      | bytes m le =>
        refine (wp_dite _ _ _).2 ⟨fun hm => ?_, fun hm => ?_⟩
        · subst hm
          have hle := ReadResult.of_zero hr hs0
          exact hbad _ [_] rfl (Broken.single rfl rfl (by simp [Event.failed]; omega) rfl)
        · have hpos := ReadResult.of_pos hr hm
          have hread : Stretch [Event.call (.readFile size o) ret] [] 0 :=
            Stretch.single rfl (by simp [Event.failed]; omega)
          have hmk : m ≤ k := hk ▸ le.trans (readSize_le _)
          simp only [wp_bind, wp_ask, wp_engine]
          set chunk := e.content.range b.tempFile f.id o m
          refine (wp_ite _ _ _).2 ⟨fun hrc => ?_, fun hrc => ?_⟩
          · refine hbad _ ([_] ++ [_]) (St.log_log s _ _) ?_
            exact hread.broken (Broken.append_call hrc)
          · have happ := hread.append
              (Stretch.append_call s.ctx.corazaTransaction chunk (cInt m) (not_not.1 hrc))
            rw [List.nil_append] at happ
            have hnext : (b.fileLast - (o + m)).toNat = k - m := by omega
            refine ih (k - m) (by omega) (o + m) (fun s' evs hs' hevs => ?_) hnext (fun s' evs hs' hevs => ?_)
            · exact hbad s' (([_] ++ [_]) ++ evs) (hs'.trans (St.log_log_logs s _ _ evs))
                (happ.broken hevs)
            · refine hok s' (([_] ++ [_]) ++ evs) (hs'.trans (St.log_log_logs s _ _ evs)) ?_
              have := happ.append hevs
              rwa [← Content.range_add, Nat.add_sub_cancel' hmk] at this
    · have h0 : k = 0 := by omega
      subst h0
      exact hok s [] (St.logs_nil s).symm Stretch.nil

/-- what follows the loop: the events behind it, and the mark of a failure -/
theorem afterLoop_spec (c : Prop) [Decidable c] (rc : ℤ) {Q : ℤ → St → Prop} {E : ρ → St → Prop}
    (h : ∀ on free, (if c then ∃ r, on = [.call .directioOn r] else on = []) →
      Q rc (if rc = ngxOk then s.logs (on ++ [.call .freeScratch free])
        else (s.logs (on ++ [.call .freeScratch free])).trigger)) :
    wp (do
      when c do
        let _ ← invoke .directioOn
      let _ ← invoke .freeScratch
      when (rc ≠ ngxOk) trigger
      return rc : Handler ρ ℤ) Q E e s := by
  -- the block from the point where the scratch buffer is freed
  have free : ∀ on : Trace, (if c then ∃ r, on = [.call .directioOn r] else on = []) → wp (do
      let _ ← invoke .freeScratch
      when (rc ≠ ngxOk) trigger
      return rc : Handler ρ ℤ) Q E e (s.logs on) := by
    intro on hon
    have hend := h on (e.ret (s.logs on).trace .freeScratch) hon
    simp only [wp_bind, wp_invoke, wp_when, wp_trigger, wp_pure, St.logs_log]
    constructor
    · intro hrc
      rwa [if_neg hrc] at hend
    · intro hrc
      rwa [if_pos (not_not.1 hrc)] at hend
  rw [wp_bind]
  refine (wp_when _ _).2 ⟨fun hc => ?_, fun hc => ?_⟩
  · rw [wp_bind, wp_invoke, wp_pure]
    apply free [_]
    rw [if_pos hc]
    exact ⟨_, rfl⟩
  · rw [← St.logs_nil s]
    apply free []
    rw [if_neg hc]

/-- what follows the loop leaves nothing behind but the mark of a failure -/
theorem afterRange_spec (c : Prop) [Decidable c] (rc : ℤ) {Q : ℤ → St → Prop} {E : ρ → St → Prop}
    (h : ∀ evs, Stretch evs [] 0 → evs.Idle → Q rc (if rc = ngxOk then s.logs evs else (s.logs evs).trigger)) :
    wp (do
      when c do
        let _ ← invoke .directioOn
      let _ ← invoke .freeScratch
      when (rc ≠ ngxOk) trigger
      return rc : Handler ρ ℤ) Q E e s := by
  refine afterLoop_spec c rc fun on free hon => ?_
  have hfree : Stretch [Event.call .freeScratch free] [] 0 := Stretch.single rfl rfl
  have hidle : Trace.Idle [Event.call .freeScratch free] := Trace.idle_single.2 rfl
  by_cases hc : c
  · rw [if_pos hc] at hon
    obtain ⟨r, rfl⟩ := hon
    have hon : Stretch [Event.call .directioOn r] [] 0 := Stretch.single rfl rfl
    exact h _ (hon.append hfree) (Trace.idle_append.2 ⟨Trace.idle_single.2 rfl, hidle⟩)
  · rw [if_neg hc] at hon
    subst hon
    exact h _ hfree hidle

/-- switching direct I/O off, and the loop unless that failed -/
theorem submitRange_spec (b : Buf) (f : File) {Q : ℤ → ℤ → St → Prop} {E : ρ → St → Prop}
    (hok : ∀ off s' evs, s' = s.logs evs →
      Stretch evs (e.content.range b.tempFile f.id b.filePos (b.fileLast - b.filePos).toNat) 0 → Q off ngxOk s')
    (hbad : ∀ off s' evs, s' = s.logs evs → Broken evs False → Q off ngxError s') :
    wp (directioOff f : Handler ρ ℤ) (fun off => wp (submitRange b f off : Handler ρ ℤ) (Q off) E e) E e s := by
  have loop : ∀ off evs, Stretch evs [] 0 → off ≠ ngxError →
      wp (submitRange b f off : Handler ρ ℤ) (Q off) E e (s.logs evs) := by
    intro off evs hevs hoff
    rw [submitRange, if_neg hoff]
    refine appendFileLoop_spec b f b.filePos (fun s' evs' hs' h => ?_) (fun s' evs' hs' h => ?_)
    · exact hok off s' (evs ++ evs') (by rw [hs', St.logs_logs]) (hevs.append h)
    · exact hbad off s' (evs ++ evs') (by rw [hs', St.logs_logs]) (hevs.broken h)
  unfold directioOff
  refine (wp_ite _ _ _).2 ⟨fun hd => ?_, fun hd => ?_⟩
  · rw [wp_invoke, St.log_eq]
    by_cases hoff : e.ret s.trace .directioOff = ngxError
    · rw [submitRange, if_pos hoff, wp_pure]
      exact hbad _ _ [_] rfl (Broken.single rfl rfl (by simp [Event.failed, hoff]) rfl)
    · exact loop _ [_] (Stretch.single rfl (by simpa [Event.failed] using hoff)) hoff
  · rw [wp_pure, ← St.logs_nil s]
    exact loop _ [] Stretch.nil (by decide)

/-- a file range: appended whole, or refused with the context marked -/
theorem appendResponseBodyFile_spec (b : Buf) (f : File) {Q : ℤ → St → Prop} {E : ρ → St → Prop}
    (hok : ∀ s' evs, s' = s.logs evs → b.filePos ≤ b.fileLast →
      Stretch evs (e.content.range b.tempFile f.id b.filePos (b.fileLast - b.filePos).toNat) 0 → Q ngxOk s')
    (hbad : ∀ s' evs, s' = (s.logs evs).trigger → Broken evs (b.fileLast < b.filePos) → Q ngxError s') :
    wp (appendResponseBodyFile b f : Handler ρ ℤ) Q E e s := by
  rw [appendResponseBodyFile, wp_call, wp_bind]
  refine (wp_when _ _).2 ⟨fun hinv => ?_, fun hinv => ?_⟩
  · rw [wp_bind, wp_trigger, wp_exit]
    exact hbad _ [] (by rw [St.logs_nil]) (Broken.nil hinv)
  rw [wp_bind]
  refine (wp_when _ _).2 ⟨fun hempty => ?_, fun hempty => ?_⟩
  · refine hok s [] (St.logs_nil s).symm (by omega) ?_
    rw [show (b.fileLast - b.filePos).toNat = 0 by omega]
    exact Stretch.nil
  rw [wp_bind, wp_alloc, wp_bind]
  refine (wp_when _ _).2 ⟨fun ha => ?_, fun ha => ?_⟩
  · rw [wp_bind, wp_trigger, wp_exit]
    exact hbad _ [_] rfl (Broken.single rfl rfl (by simpa [Event.failed] using ha) rfl)
  · have halloc : Stretch [Event.call (.alloc responseBodyFileChunkSize)
        (e.ret s.trace (.alloc responseBodyFileChunkSize))] [] 0 :=
      Stretch.single rfl (by simpa [Event.failed] using ha)
    rw [wp_bind]
    refine wp_mono (submitRange_spec b f (Q := fun off rc t => ∀ c : Prop, ∀ [Decidable c], wp (do
      when c do
        let _ ← invoke .directioOn
      let _ ← invoke .freeScratch
      when (rc ≠ ngxOk) trigger
      return rc : Handler ℤ ℤ) Q Q e t) (fun off s' evs hs' hevs c _ => ?_) (fun off s' evs hs' hevs c _ => ?_))
      (fun off t h => ?_) (fun _ _ h => h)
    · refine afterRange_spec c ngxOk fun evs' hevs' _ => ?_
      rw [if_pos rfl]
      refine hok _ _ (by rw [hs', St.log_logs, St.logs_logs]) (by omega) ?_
      simpa using (halloc.append hevs).append hevs'
    · refine afterRange_spec c ngxError fun evs' hevs' hidle => ?_
      rw [if_neg (by decide)]
      refine hbad _ _ (by rw [hs', St.log_logs, St.logs_logs]) ?_
      exact ((halloc.broken hevs).mono False.elim).append hevs' hidle
    · exact (wp_bind _ _).2 (wp_mono h (fun _ _ h' => h' _) (fun _ _ h' => h'))

end CorazaNginx
