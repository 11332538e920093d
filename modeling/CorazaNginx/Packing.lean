/-
Bulk packing of headers is exact.

`Fits` is the bound the packing has to check, `record` the wire format. `packHeaders_spec` runs the two loops: the first
with the total so far as its invariant, the second with what has been written so far (`Cursor.Wrote`). `packing_exact`
reads what becomes of the buffer off it, `packHeaders_refines` the pure description the header filter uses.
-/
import Mathlib.Tactic
import CorazaNginx.Model.Packing
import CorazaNginx.Spec.Stretch

namespace CorazaNginx.Packing

open CorazaNginx.Core Prog

variable {size : SizeT} {s : State}

/-! ## The format -/

/-- [u16 name_len BE][name][u32 value_len BE][value] -/
def record : Format (Bytes × Bytes) := (Format.prefixed 2).pair (Format.prefixed 4)

/-- the length of one record -/
def recordLength (p : Bytes × Bytes) : ℕ := 6 + p.1.length + p.2.length

/-- the length of all of them -/
def packedLength (pairs : List (Bytes × Bytes)) : ℕ := (pairs.map recordLength).sum

/-- what is accepted: two bytes for each name length, an `int` for each value length and for the whole -/
structure Fits (pairs : List (Bytes × Bytes)) : Prop where
  name : ∀ p ∈ pairs, p.1.length ≤ 65535
  value : ∀ p ∈ pairs, p.2.length ≤ intMax
  whole : packedLength pairs ≤ intMax

theorem packedLength_append (a b : List (Bytes × Bytes)) : packedLength (a ++ b) = packedLength a + packedLength b := by
  simp [packedLength]

theorem shift_and (n k : ℕ) : (n >>> k) &&& 0xff = n / 2 ^ k % 256 := by
  rw [Nat.shiftRight_eq_div_pow]
  exact Nat.and_two_pow_sub_one_eq_mod _ 8

theorem and_ff (n : ℕ) : n &&& 0xff = n % 256 := Nat.and_two_pow_sub_one_eq_mod n 8

theorem beBytes_two (n : ℕ) : Format.beBytes 2 n = [.ofNat ((n >>> 8) &&& 0xff), .ofNat (n &&& 0xff)] := by
  rw [shift_and, and_ff]
  rfl

theorem beBytes_four (n : ℕ) : Format.beBytes 4 n =
    [.ofNat ((n >>> 24) &&& 0xff), .ofNat ((n >>> 16) &&& 0xff), .ofNat ((n >>> 8) &&& 0xff), .ofNat (n &&& 0xff)] := by
  simp only [Format.beBytes, shift_and n, and_ff n, Nat.div_div_eq_div_mul]
  rfl

/-- the bytes of a record are those of the pure description -/
theorem packPair_eq (p : HeaderPair) : packPair p = record.write (p.name, p.value) := by
  change _ = Format.beBytes 2 p.name.length ++ p.name ++ (Format.beBytes 4 p.value.length ++ p.value)
  rw [beBytes_two, beBytes_four, packPair, List.append_assoc, List.append_assoc]

theorem record_write_length (p : Bytes × Bytes) : (record.write p).length = recordLength p := by
  change (Format.beBytes 2 p.1.length ++ p.1 ++ (Format.beBytes 4 p.2.length ++ p.2)).length = _
  simp only [List.length_append, Format.beBytes_length, recordLength]
  omega

theorem record_write_ne_nil (p : Bytes × Bytes) : record.write p ≠ [] := by
  intro h
  have hlen := record_write_length p
  rw [h, List.length_nil, recordLength] at hlen
  omega

theorem records_length (pairs : List (Bytes × Bytes)) : (pairs.flatMap record.write).length = packedLength pairs := by
  simp only [List.length_flatMap, record_write_length, packedLength]

/-- a record whose lengths fit their fields reads back -/
theorem record_reads : record.Reads fun p => p.1.length < 256 ^ 2 ∧ p.2.length < 256 ^ 4 :=
  (Format.prefixed_reads 2).pair (Format.prefixed_reads 4)

theorem Fits.record {pairs : List (Bytes × Bytes)} (h : Fits pairs) :
    ∀ p ∈ pairs, p.1.length < 256 ^ 2 ∧ p.2.length < 256 ^ 4 := by
  intro p hp
  have hn := h.name p hp
  have hv := h.value p hp
  simp only [intMax] at hv
  omega

/-! ## The first loop -/

theorem sizeSub_spec {ρ : Type} {a b : ℕ} (hb : b ≤ a) (ha : a < 2 ^ size.bits) {Q : ℕ → State → Prop}
    {E : ρ → State → Prop} {e : ℕ → ℕ} (h : Q (a - b) s) : wp (sizeSub size a b) Q E e s := by
  have hnot : decide (a < b) = false := decide_eq_false (not_lt.2 hb)
  have hval : (a + (2 ^ size.bits - b)) % 2 ^ size.bits = a - b := by
    have hsum : a + (2 ^ size.bits - b) = (a - b) + 2 ^ size.bits := by omega
    rw [hsum, Nat.add_mod_right, Nat.mod_eq_of_lt (by omega)]
  rw [sizeSub, wp_bind, wp_modify, wp_pure, hval, hnot, Bool.or_false]
  exact h

theorem sizeAdd_spec {ρ : Type} {a b : ℕ} (hab : a + b < 2 ^ size.bits) {Q : ℕ → State → Prop}
    {E : ρ → State → Prop} {e : ℕ → ℕ} (h : Q (a + b) s) : wp (sizeAdd size a b) Q E e s := by
  have hnot : decide (2 ^ size.bits ≤ a + b) = false := decide_eq_false (not_le.2 hab)
  rw [sizeAdd, wp_bind, wp_modify, wp_pure, Nat.mod_eq_of_lt hab, hnot, Bool.or_false]
  exact h

theorem intMax_lt_size (size : SizeT) : 2 * intMax < 2 ^ size.bits := by
  cases size <;> decide

/-- the guards of the first loop on one pair -/
def PairFits (total : ℕ) (p : Bytes × Bytes) : Prop :=
  p.1.length ≤ 65535 ∧ p.2.length ≤ intMax ∧ total + recordLength p ≤ intMax

/-- **One pair.** Under a total within the bound no expression wraps; the guards are `PairFits`. -/
theorem sizePair_spec (p : Pair size) (htotal : s.total ≤ intMax) {Q : Unit → State → Prop} {E : ℤ → State → Prop}
    {e : ℕ → ℕ} (hfits : PairFits s.total p.bytes → Q () { s with total := s.total + recordLength p.bytes })
    (hnot : ¬ PairFits s.total p.bytes → E ngxError s) : wp (sizePair size p) Q E e s := by
  have hbig := intMax_lt_size size
  have h6 : (6 : ℕ) ≤ intMax := by decide
  -- the four guards together
  have hall : PairFits s.total p.bytes ↔ p.name.data.length ≤ 0xffff ∧ p.value.data.length ≤ intMax ∧
      s.total + (6 + p.name.data.length + p.value.data.length) ≤ intMax := Iff.rfl
  rw [hall] at hfits hnot
  generalize hn : p.name.data.length = n at *
  generalize hv : p.value.data.length = v at *
  rw [sizePair, wp_bind]
  simp only [hn, hv]
  refine (wp_when _ _).2 ⟨fun hg => hnot (by omega), fun hg => ?_⟩
  rw [wp_bind, wp_get, wp_bind]
  refine sizeSub_spec h6 (by omega) ?_
  rw [wp_bind]
  refine (wp_when _ _).2 ⟨fun hg1 => hnot (by omega), fun hg1 => ?_⟩
  rw [wp_bind]
  refine sizeSub_spec h6 (by omega) ?_
  rw [wp_bind]
  refine sizeSub_spec (by omega) (by omega) ?_
  rw [wp_bind]
  refine (wp_when _ _).2 ⟨fun hg2 => hnot (by omega), fun hg2 => ?_⟩
  rw [wp_bind]
  refine sizeSub_spec h6 (by omega) ?_
  rw [wp_bind]
  refine sizeSub_spec (by omega) (by omega) ?_
  rw [wp_bind]
  refine sizeSub_spec (by omega) (by omega) ?_
  rw [wp_bind]
  refine (wp_when _ _).2 ⟨fun hg3 => hnot (by omega), fun hg3 => ?_⟩
  rw [wp_bind]
  refine sizeAdd_spec (by omega) ?_
  rw [wp_bind]
  refine sizeAdd_spec (by omega) ?_
  rw [wp_bind]
  refine sizeAdd_spec (by omega) ?_
  rw [wp_modify]
  have hres : recordLength p.bytes = 6 + n + v := by
    rw [← hn, ← hv]
    rfl
  rw [← hres]
  exact hfits (by omega)

/-- the pairs as pairs of byte strings -/
def bytesOf (pairs : List (Pair size)) : List (Bytes × Bytes) := pairs.map Pair.bytes

theorem bytesOf_append (a b : List (Pair size)) : bytesOf (a ++ b) = bytesOf a ++ bytesOf b := List.map_append

/-- a list whose sizes were accepted one by one fits, and the other way round -/
theorem fits_append_iff {a : List (Bytes × Bytes)} {p : Bytes × Bytes} :
    Fits (a ++ [p]) ↔ Fits a ∧ PairFits (packedLength a) p := by
  have hlen : packedLength (a ++ [p]) = packedLength a + recordLength p := by
    rw [packedLength_append]
    simp [packedLength]
  constructor
  · intro h
    have hwhole := h.whole
    rw [hlen] at hwhole
    refine ⟨⟨fun q hq => h.name q (by simp [hq]), fun q hq => h.value q (by simp [hq]), by omega⟩, ?_, ?_, hwhole⟩
    · exact h.name p (by simp)
    · exact h.value p (by simp)
  · rintro ⟨h, hn, hv, hw⟩
    refine ⟨fun q hq => ?_, fun q hq => ?_, by rw [hlen]; exact hw⟩
    · rcases List.mem_append.1 hq with hq | hq
      · exact h.name q hq
      · rw [List.mem_singleton.1 hq]; exact hn
    · rcases List.mem_append.1 hq with hq | hq
      · exact h.value q hq
      · rw [List.mem_singleton.1 hq]; exact hv

/-- a list that fits, fits up to any point -/
theorem Fits.of_append {a b : List (Bytes × Bytes)} (h : Fits (a ++ b)) : Fits a := by
  have hwhole := h.whole
  rw [packedLength_append] at hwhole
  exact ⟨fun q hq => h.name q (by simp [hq]), fun q hq => h.value q (by simp [hq]), by omega⟩

/-- **The first loop.** The invariant: the pairs so far fit, and the total is their length. -/
theorem sizing_spec (pairs : List (Pair size)) (h0 : s.total = 0) {Q : Unit → State → Prop} {E : ℤ → State → Prop}
    {e : ℕ → ℕ} (hfits : Fits (bytesOf pairs) → Q () { s with total := packedLength (bytesOf pairs) })
    (hnot : ∀ n, ¬ Fits (bytesOf pairs) → E ngxError { s with total := n }) :
    wp (forEach pairs (sizePair size)) Q E e s := by
  refine wp_forEach (fun done t => Fits (bytesOf done) ∧ t = { s with total := packedLength (bytesOf done) }) pairs
    (sizePair size) ⟨⟨nofun, nofun, Nat.zero_le _⟩, ?_⟩ (fun t ht => ht.2 ▸ hfits ht.1) fun pre p post t hl ht => ?_
  · rw [show packedLength (bytesOf ([] : List (Pair size))) = s.total from h0.symm]
  · obtain ⟨hpre, rfl⟩ := ht
    have hsplit : bytesOf (pre ++ [p]) = bytesOf pre ++ [p.bytes] := bytesOf_append pre [p]
    refine sizePair_spec p hpre.whole (fun hp => ?_) (fun hp => hnot _ fun hall => hp ?_)
    · rw [hsplit, packedLength_append]
      exact ⟨fits_append_iff.2 ⟨hpre, hp⟩, by simp [packedLength]⟩
    · rw [hl, List.append_cons, bytesOf_append] at hall
      have hup := hall.of_append
      rw [hsplit] at hup
      exact (fits_append_iff.1 hup).2

/-! ## The second loop -/

/-- what one pair writes: its record -/
theorem writePair_spec {ρ : Type} (p : Pair size) {Q : Unit → State → Prop} {E : ρ → State → Prop} {e : ℕ → ℕ}
    (h : ∀ c, Cursor.Wrote s.cursor (record.write p.bytes) c → Q () { s with cursor := c }) :
    wp (writePair size p) Q E e s := by
  have hcopy : ∀ (data : Bytes) (t : State) (Q : Unit → State → Prop),
      Q () { t with cursor := t.cursor.copy data } → wp (when (data.length ≠ 0) do copy data : Pack ρ Unit)
        Q E e t := by
    intro data t Q hQ
    refine (wp_when _ _).2 ⟨fun _ => hQ, fun hz => ?_⟩
    rw [not_not, List.length_eq_zero_iff] at hz
    rw [hz] at hQ
    exact hQ
  rw [writePair, wp_bind, put, wp_modify, wp_bind, put, wp_modify, wp_bind]
  refine hcopy _ _ _ ?_
  rw [wp_bind, put, wp_modify, wp_bind, put, wp_modify, wp_bind, put, wp_modify, wp_bind, put, wp_modify]
  refine hcopy _ _ _ (h _ ?_)
  change Cursor.Wrote s.cursor (Format.beBytes 2 p.name.data.length ++ p.name.data ++
    (Format.beBytes 4 p.value.data.length ++ p.value.data)) _
  rw [beBytes_two, beBytes_four]
  refine ((((Cursor.put_wrote _ _).trans (Cursor.put_wrote _ _)).trans (Cursor.copy_wrote _ _)).trans
    (((((Cursor.put_wrote _ _).trans (Cursor.put_wrote _ _)).trans (Cursor.put_wrote _ _)).trans
      (Cursor.put_wrote _ _)).trans (Cursor.copy_wrote _ _)))

/-- **The second loop.** The invariant: the records so far have been written. -/
theorem writing_spec {ρ : Type} (pairs : List (Pair size)) {Q : Unit → State → Prop} {E : ρ → State → Prop} {e : ℕ → ℕ}
    (h : ∀ c, Cursor.Wrote s.cursor ((bytesOf pairs).flatMap record.write) c → Q () { s with cursor := c }) :
    wp (forEach pairs (writePair size)) Q E e s := by
  refine wp_forEach (fun done t => ∃ c, Cursor.Wrote s.cursor ((bytesOf done).flatMap record.write) c ∧
      t = { s with cursor := c }) pairs (writePair size) ⟨s.cursor, .refl _, rfl⟩ (fun t ht => ?_)
    fun pre p post t hl ht => ?_
  · obtain ⟨c, hc, rfl⟩ := ht
    exact h c hc
  · obtain ⟨c, hc, rfl⟩ := ht
    refine writePair_spec p fun c' hc' => ⟨c', ?_, rfl⟩
    have hsplit : (bytesOf (pre ++ [p])).flatMap record.write =
        (bytesOf pre).flatMap record.write ++ record.write p.bytes := by
      rw [bytesOf_append, List.flatMap_append]
      simp [bytesOf]
    rw [hsplit]
    exact hc.trans hc'

/-! ## The whole function -/

/-- how a call that packs ends -/
structure Packed (pairs : List (Pair size)) (s t : State) : Prop where
  outLen : t.outLen = packedLength (bytesOf pairs)
  wrapped : t.wrapped = s.wrapped
  wrote : Cursor.Wrote { s.cursor with p := t.out } ((bytesOf pairs).flatMap record.write)
    { t.cursor with p := t.out + t.outLen }

/-- **The function.** It packs what fits; otherwise it has at most counted. -/
theorem packHeaders_spec (pairs : List (Pair size)) (pnalloc : ℕ → ℕ) {Q : ℤ → State → Prop}
    (halloc : pnalloc (packedLength (bytesOf pairs)) ≠ 0)
    (hok : Fits (bytesOf pairs) → ∀ t, Packed pairs s t → Q ngxOk t)
    (herr : ¬ Fits (bytesOf pairs) → ∀ n, Q ngxError { s with total := n }) :
    wp (packHeaders size pairs) Q Q pnalloc s := by
  have hlen := records_length (bytesOf pairs)
  rw [packHeaders, wp_bind, wp_modify, wp_bind]
  refine sizing_spec pairs rfl (fun hfits => ?_) (fun n hnot => herr hnot n)
  rw [wp_bind, wp_get, wp_bind]
  refine (wp_when _ _).2 ⟨fun hz => ?_, fun hz => ?_⟩
  · -- nothing to pack
    rw [wp_bind, wp_modify, wp_exit]
    change packedLength (bytesOf pairs) = 0 at hz
    rw [hz, List.length_eq_zero_iff] at hlen
    refine hok hfits _ ⟨hz.symm, rfl, ?_⟩
    rw [hlen]
    exact .refl _
  · rw [wp_bind, wp_ask, wp_bind]
    refine (wp_when _ _).2 ⟨fun hnull => absurd hnull halloc, fun _ => ?_⟩
    rw [wp_bind, wp_modify, wp_bind]
    refine writing_spec pairs fun c hc => ?_
    rw [wp_bind, wp_modify, wp_pure]
    refine hok hfits _ ⟨rfl, rfl, ?_⟩
    have hp : c.p = pnalloc (packedLength (bytesOf pairs)) + packedLength (bytesOf pairs) := by
      rw [hc.p, hlen]
    change Cursor.Wrote _ _ { c with p := pnalloc (packedLength (bytesOf pairs)) + packedLength (bytesOf pairs) }
    rw [← hp]
    exact hc

/-- one call, from what `out`, `out_len` and the memory held -/
def packed (size : SizeT) (pnalloc : ℕ → ℕ) (out outLen : ℕ) (mem : ℕ → UInt8) (pairs : List (Pair size)) : ℤ × State :=
  (packHeaders size pairs).run pnalloc (.start out outLen mem)

/-- packing is exact on `pairs` -/
structure Exact (pairs : List (Pair size)) (out outLen : ℕ) (r : ℤ × State) : Prop where
  decides : r.1 = ngxOk ↔ Fits (bytesOf pairs)
  otherwise : r.1 = ngxOk ∨ r.1 = ngxError
  noWrap : r.2.wrapped = false
  length : r.1 = ngxOk → r.2.outLen = packedLength (bytesOf pairs)
  once : r.1 = ngxOk → r.2.cursor.written = List.range' r.2.out r.2.outLen
  decodes : r.1 = ngxOk → record.readMany pairs.length r.2.buffer = some (bytesOf pairs, [])
  untouched : r.1 = ngxError → r.2.out = out ∧ r.2.outLen = outLen

/-- what a call that packs leaves in the buffer -/
theorem Packed.buffer {pairs : List (Pair size)} {t : State} (h : Packed pairs s t) :
    t.buffer = (bytesOf pairs).flatMap record.write := by
  have hin := h.wrote.inside
  rw [records_length, ← h.outLen] at hin
  exact hin

theorem packed_cases (size : SizeT) (pnalloc : ℕ → ℕ) (out outLen : ℕ) (mem : ℕ → UInt8) (pairs : List (Pair size))
    (halloc : pnalloc (packedLength (bytesOf pairs)) ≠ 0) :
    ((packed size pnalloc out outLen mem pairs).1 = ngxOk ∧ Fits (bytesOf pairs) ∧
      Packed pairs (.start out outLen mem) (packed size pnalloc out outLen mem pairs).2) ∨
    ((packed size pnalloc out outLen mem pairs).1 = ngxError ∧ ¬ Fits (bytesOf pairs) ∧
      ∃ n, (packed size pnalloc out outLen mem pairs).2 = { State.start out outLen mem with total := n }) :=
  (wp_run (Q := fun rc t => (rc = ngxOk ∧ Fits (bytesOf pairs) ∧ Packed pairs (.start out outLen mem) t) ∨
    (rc = ngxError ∧ ¬ Fits (bytesOf pairs) ∧ ∃ n, t = { State.start out outLen mem with total := n })) _).1
    (packHeaders_spec pairs pnalloc halloc (fun hfits _ ht => Or.inl ⟨rfl, hfits, ht⟩)
      fun hnot n => Or.inr ⟨rfl, hnot, n, rfl⟩)

theorem packed_exact (size : SizeT) (pnalloc : ℕ → ℕ) (out outLen : ℕ) (mem : ℕ → UInt8) (pairs : List (Pair size))
    (halloc : pnalloc (packedLength (bytesOf pairs)) ≠ 0) :
    Exact pairs out outLen (packed size pnalloc out outLen mem pairs) := by
  have hne : ngxOk ≠ ngxError := by decide
  rcases packed_cases size pnalloc out outLen mem pairs halloc with ⟨hrc, hfits, hp⟩ | ⟨hrc, hnot, n, ht⟩
  · refine ⟨⟨fun _ => hfits, fun _ => hrc⟩, Or.inl hrc, hp.wrapped, fun _ => hp.outLen, fun _ => ?_, fun _ => ?_,
      fun h => ?_⟩
    · have hw := hp.wrote.written
      rw [records_length, ← hp.outLen] at hw
      exact hw
    · have hread := record_reads.many (bytesOf pairs) hfits.record []
      rw [List.append_nil, ← hp.buffer, bytesOf, List.length_map] at hread
      exact hread
    · exact absurd (hrc.symm.trans h) hne
  · have hnok : (packed size pnalloc out outLen mem pairs).1 ≠ ngxOk := fun h => hne (h.symm.trans hrc)
    refine ⟨⟨fun h => absurd h hnok, fun h => absurd h hnot⟩, Or.inr hrc, ?_, fun h => absurd h hnok,
      fun h => absurd h hnok, fun h => absurd h hnok, fun _ => ?_⟩
    · rw [ht]; rfl
    · rw [ht]; exact ⟨rfl, rfl⟩

theorem bytesOf_injective : Function.Injective (bytesOf : List (Pair size) → List (Bytes × Bytes)) := by
  refine List.map_injective_iff.2 fun p q h => ?_
  obtain ⟨hn, hv⟩ := Prod.mk.inj h
  exact Pair.ext (NgxStr.ext hn) (NgxStr.ext hv)

/-- **Packing is exact.** For either width of `size_t`, every list of pairs and whatever the memory and the results
held: the bounds are decided, nothing wraps, every byte is written once and the buffer decodes to the list; and two
lists that pack into the same bytes are the same. -/
theorem packing_exact (size : SizeT) (pnalloc : ℕ → ℕ) (out outLen : ℕ) (mem : ℕ → UInt8) (pairs : List (Pair size))
    (halloc : ∀ n, pnalloc n ≠ 0) :
    Exact pairs out outLen (packed size pnalloc out outLen mem pairs) ∧
      ∀ pairs', (packed size pnalloc out outLen mem pairs).1 = ngxOk →
        (packed size pnalloc out outLen mem pairs').1 = ngxOk →
        (packed size pnalloc out outLen mem pairs).2.buffer = (packed size pnalloc out outLen mem pairs').2.buffer →
        pairs = pairs' := by
  have hne : ngxOk ≠ ngxError := by decide
  refine ⟨packed_exact size pnalloc out outLen mem pairs (halloc _), fun pairs' hok hok' hbuf => ?_⟩
  rcases packed_cases size pnalloc out outLen mem pairs (halloc _) with ⟨-, hfits, hp⟩ | ⟨hrc, -⟩
  · rcases packed_cases size pnalloc out outLen mem pairs' (halloc _) with ⟨-, hfits', hp'⟩ | ⟨hrc', -⟩
    · rw [hp.buffer, hp'.buffer] at hbuf
      exact bytesOf_injective (record_reads.flatMap_inj record_write_ne_nil hfits.record hfits'.record hbuf)
    · exact absurd (hok'.symm.trans hrc') hne
  · exact absurd (hok.symm.trans hrc) hne

/-- three headers: one of a byte, one of two with an empty value, and one without a name -/
def tinyPairs : List (Pair .bits32) :=
  [⟨⟨[0x41], by decide⟩, ⟨[0x31, 0x32], by decide⟩⟩, ⟨⟨[0x42, 0x43], by decide⟩, ⟨[], by decide⟩⟩,
    ⟨⟨[], by decide⟩, ⟨[0x33], by decide⟩⟩]

theorem tiny_packed : record.readMany 3 (packed .bits32 (fun _ => 4096) 1 2 (fun _ => 0) tinyPairs).2.buffer =
    some ([([0x41], [0x31, 0x32]), ([0x42, 0x43], []), ([], [0x33])], []) := by
  have hok : (packed .bits32 (fun _ => 4096) 1 2 (fun _ => 0) tinyPairs).1 = ngxOk := by decide +kernel
  exact (packing_exact .bits32 (fun _ => 4096) 1 2 (fun _ => 0) tinyPairs fun _ => by decide).1.decodes hok

/-! ## The pure description -/

/-- the names and values of collected headers -/
def headerBytes (pairs : List HeaderPair) : List (Bytes × Bytes) := pairs.map fun p => (p.name, p.value)

/-- the pure first loop decides the same bounds and counts the same total: by induction on the pairs -/
theorem packTotal_eq_some_iff (pairs : List HeaderPair) (total n : ℕ) (htotal : total ≤ intMax) :
    packTotal pairs total = some n ↔ (∀ p ∈ headerBytes pairs, p.1.length ≤ 65535) ∧
      (∀ p ∈ headerBytes pairs, p.2.length ≤ intMax) ∧ total + packedLength (headerBytes pairs) ≤ intMax ∧
      n = total + packedLength (headerBytes pairs) := by
  induction pairs generalizing total with
  | nil => simp [packTotal, headerBytes, packedLength, htotal, eq_comm]
  | cons p ps ih =>
    have hlen : packedLength (headerBytes (p :: ps)) =
        6 + p.name.length + p.value.length + packedLength (headerBytes ps) := rfl
    have hall : ∀ P : Bytes × Bytes → Prop, (∀ q ∈ headerBytes (p :: ps), P q) ↔
        P (p.name, p.value) ∧ ∀ q ∈ headerBytes ps, P q := fun _ => List.forall_mem_cons
    rw [hlen, hall, hall]
    by_cases hfit : p.name.length ≤ 65535 ∧ p.value.length ≤ intMax ∧
        total + (6 + p.name.length + p.value.length) ≤ intMax
    · have hstep : packTotal (p :: ps) total = packTotal ps (total + (6 + p.name.length + p.value.length)) := by
        rw [packTotal, if_neg (by omega), if_neg (by simp only [intMax] at *; omega)]
      rw [hstep, ih _ hfit.2.2]
      constructor
      · rintro ⟨h1, h2, h3, h4⟩
        exact ⟨⟨hfit.1, h1⟩, ⟨hfit.2.1, h2⟩, by omega, by omega⟩
      · rintro ⟨⟨-, h1⟩, ⟨-, h2⟩, h3, h4⟩
        exact ⟨h1, h2, by omega, by omega⟩
    · have hstep : packTotal (p :: ps) total = none := by
        rw [packTotal]
        split_ifs with h1 h2
        · rfl
        · rfl
        · exact absurd ⟨by omega, by omega, by simp only [intMax] at *; omega⟩ hfit
      rw [hstep]
      refine ⟨nofun, fun ⟨⟨h1, _⟩, ⟨h2, _⟩, h3, _⟩ => absurd ⟨h1, h2, by omega⟩ hfit⟩

/-- **The pure description is what the machine does.** The filter's `packHeaders` gives NGX_ERROR when the call does,
and otherwise the bytes it leaves in the buffer. -/
theorem packHeaders_refines (size : SizeT) (pnalloc : ℕ → ℕ) (out outLen : ℕ) (mem : ℕ → UInt8)
    (pairs : List (Pair size)) (halloc : ∀ n, pnalloc n ≠ 0) (headers : List HeaderPair)
    (hsame : headerBytes headers = bytesOf pairs) (e : Env) (s : St) (hret : ∀ n, e.ret s.trace (.alloc n) ≠ 0) :
    ((CorazaNginx.packHeaders headers : Handler (Option Bytes) (Option Bytes)).run e s).1 =
      if (packed size pnalloc out outLen mem pairs).1 = ngxOk then
        some (packed size pnalloc out outLen mem pairs).2.buffer else none := by
  have hiff : ∀ n, packTotal headers 0 = some n ↔ Fits (bytesOf pairs) ∧ n = packedLength (bytesOf pairs) := by
    intro n
    rw [packTotal_eq_some_iff headers 0 n (Nat.zero_le _), hsame, Nat.zero_add]
    exact ⟨fun ⟨h1, h2, h3, h4⟩ => ⟨⟨h1, h2, h3⟩, h4⟩, fun ⟨h, h4⟩ => ⟨h.name, h.value, h.whole, h4⟩⟩
  have hwrite : headers.flatMap packPair = (bytesOf pairs).flatMap record.write := by
    rw [← hsame, headerBytes, List.flatMap_map]
    exact List.flatMap_congr fun p _ => packPair_eq p
  have hlen := records_length (bytesOf pairs)
  refine (wp_run (Q := fun v _ => v = _) _).1 ?_
  rw [CorazaNginx.packHeaders, wp_call]
  rcases packed_cases size pnalloc out outLen mem pairs (halloc _) with ⟨hrc, hfits, hp⟩ | ⟨hrc, hnot, -⟩
  · rw [if_pos hrc, hp.buffer, (hiff _).2 ⟨hfits, rfl⟩, wp_bind]
    refine (wp_when _ _).2 ⟨fun hz => ?_, fun hz => ?_⟩
    · rw [hz, List.length_eq_zero_iff] at hlen
      rw [wp_exit, hlen]
    · rw [wp_bind, Handler.wp_alloc, wp_bind]
      refine (wp_when _ _).2 ⟨fun hnull => ?_, fun _ => ?_⟩
      · exact absurd hnull (by simpa using hret _)
      · rw [wp_pure, hwrite]
  · have hnok : (packed size pnalloc out outLen mem pairs).1 ≠ ngxOk := by rw [hrc]; decide
    rw [if_neg hnok]
    cases htot : packTotal headers 0 with
    | none => rfl
    | some n => exact absurd ((hiff n).1 htot).1 hnot

/-! ## What a batch is handed over as -/

/-- `packed` is the buffer for `pairs`: their records in order, and nothing in it is beyond what the call can carry -/
structure Framing (pairs : List HeaderPair) (packed : Bytes) : Prop where
  records : packed = pairs.flatMap packPair
  whole : packed.length ≤ intMax
  count : pairs.length ≤ intMax
  fits : ∀ p ∈ pairs, p.name.length ≤ 0xffff ∧ p.value.length ≤ intMax

theorem flatMap_packPair_length (pairs : List HeaderPair) :
    (pairs.flatMap packPair).length = packedLength (headerBytes pairs) := by
  have hwrite : pairs.flatMap packPair = (headerBytes pairs).flatMap record.write := by
    rw [headerBytes, List.flatMap_map]
    exact List.flatMap_congr fun p _ => packPair_eq p
  rw [hwrite, records_length]

theorem length_le_packedLength (pairs : List HeaderPair) : pairs.length ≤ packedLength (headerBytes pairs) := by
  induction pairs with
  | nil => exact Nat.zero_le _
  | cons p ps ih =>
    have hlen : packedLength (headerBytes (p :: ps)) =
        6 + p.name.length + p.value.length + packedLength (headerBytes ps) := rfl
    rw [hlen, List.length_cons]
    omega

/-- what the first loop accepts can be handed over -/
theorem framing_of_packTotal {pairs : List HeaderPair} {n : ℕ} (h : packTotal pairs 0 = some n) :
    Framing pairs (pairs.flatMap packPair) ∧ n = (pairs.flatMap packPair).length := by
  obtain ⟨hname, hvalue, hwhole, hn⟩ := (packTotal_eq_some_iff pairs 0 n (Nat.zero_le _)).1 h
  rw [Nat.zero_add] at hwhole hn
  have hlen := flatMap_packPair_length pairs
  refine ⟨⟨rfl, by rw [hlen]; exact hwhole, (length_le_packedLength pairs).trans hwhole, ?_⟩, by rw [hlen, hn]⟩
  intro p hp
  have hin : (p.name, p.value) ∈ headerBytes pairs := List.mem_map.2 ⟨p, hp, rfl⟩
  exact ⟨hname _ hin, hvalue _ hin⟩

/-- a call of `packHeaders`: at most an allocation, and a result that can be handed over -/
theorem packHeaders_framed {ρ : Type} {e : Env} {s : St} (pairs : List HeaderPair) {Q : Option Bytes → St → Prop}
    {E : ρ → St → Prop} (h : ∀ res (evs : Trace), evs.AllocatesOnce e s →
      (∀ packed, res = some packed → Framing pairs packed) → Q res (s.logs evs)) :
    wp (CorazaNginx.packHeaders pairs : Handler ρ (Option Bytes)) Q E e s := by
  have fail : ∀ evs : Trace, evs.AllocatesOnce e s → Q none (s.logs evs) := fun evs hevs =>
    h none evs hevs fun _ hres => by cases hres
  have hnone : Trace.AllocatesOnce e s [] := Or.inl rfl
  rw [CorazaNginx.packHeaders, wp_call]
  cases htot : packTotal pairs 0 with
  | none =>
    have hnil := fail [] hnone
    rwa [St.logs_nil] at hnil
  | some total =>
    obtain ⟨hframe, htotal⟩ := framing_of_packTotal htot
    rw [wp_bind]
    refine (wp_when _ _).2 ⟨fun hz => ?_, fun _ => ?_⟩
    · rw [hz] at htotal
      have hnil := h (some []) [] hnone fun packed hres => by
        injection hres with hres
        rw [← hres, ← List.length_eq_zero_iff.1 htotal.symm]
        exact hframe
      rwa [St.logs_nil] at hnil
    · rw [wp_bind, Handler.wp_alloc, wp_bind]
      have hone : Trace.AllocatesOnce e s [.call (.alloc total) (e.ret s.trace (.alloc total))] := Or.inr ⟨total, rfl⟩
      refine (wp_when _ _).2 ⟨fun _ => fail _ hone, fun _ => ?_⟩
      refine h _ _ hone fun packed hres => ?_
      injection hres with hres
      rw [← hres]
      exact hframe

end CorazaNginx.Packing

namespace CorazaNginx

/-- both lengths of a pair fit an int -/
def HeaderPair.FitsInt (p : HeaderPair) : Prop := p.name.length ≤ intMax ∧ p.value.length ≤ intMax

instance (p : HeaderPair) : Decidable p.FitsInt := inferInstanceAs (Decidable (_ ∧ _))

theorem HeaderPair.fitsInt_iff (p : HeaderPair) :
    p.FitsInt ↔ cInt p.name.length = p.name.length ∧ cInt p.value.length = p.value.length := by
  rw [cInt_eq_iff, cInt_eq_iff, HeaderPair.FitsInt]

/-- what a batch carries fits -/
theorem Packing.Framing.fitsInt {pairs : List HeaderPair} {packed : Bytes} (h : Packing.Framing pairs packed) :
    ∀ p ∈ pairs, p.FitsInt := by
  intro p hp
  obtain ⟨hname, hvalue⟩ := h.fits p hp
  exact ⟨hname.trans (by decide), hvalue⟩

end CorazaNginx
