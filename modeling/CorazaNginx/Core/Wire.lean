/-
Byte formats, and writing through a pointer. Nothing here names the filter under verification.

A `Format` writes a value as bytes and reads one off the front of an input. `Format.Reads P` is the round trip on the
values in `P`, whatever follows them; it is closed under `pair` and sequences (`Reads.many`), holds of numbers in
big-endian order (`be`) and of bytes behind their length (`prefixed`), and makes the writing of whole sequences
injective when no value is written as nothing (`Reads.flatMap_inj`).

A `Cursor` is a pointer into memory that bytes are written through. `Wrote c data c'` says that between the two states
exactly `data` has been written, each byte once and nothing outside; it composes (`Wrote.trans`).
-/
import Mathlib.Tactic

namespace CorazaNginx.Core

variable {α β : Type}

/-! ## Formats -/

/-- how a value is written, and how one is read off the front of an input -/
structure Format (α : Type) where
  write : α → List UInt8
  read : List UInt8 → Option (α × List UInt8)

namespace Format

/-- a value in `P` that has been written reads back, whatever follows it -/
def Reads (f : Format α) (P : α → Prop) : Prop := ∀ a, P a → ∀ rest, f.read (f.write a ++ rest) = some (a, rest)

/-- a number's last `k` base-256 digits, the highest first -/
def beBytes : ℕ → ℕ → List UInt8
  | 0, _ => []
  | k + 1, n => beBytes k (n / 256) ++ [.ofNat (n % 256)]

/-- the number with these base-256 digits -/
def beNat (l : List UInt8) : ℕ := l.foldl (fun n b => n * 256 + b.toNat) 0

/-- numbers in `k` bytes, the highest first -/
def be (k : ℕ) : Format ℕ where
  write := beBytes k
  read l := if l.length < k then none else some (beNat (l.take k), l.drop k)

/-- bytes behind their length, which takes `k` bytes -/
def prefixed (k : ℕ) : Format (List UInt8) where
  write b := (be k).write b.length ++ b
  read l := (be k).read l |>.bind fun (n, rest) => if rest.length < n then none else some (rest.take n, rest.drop n)

/-- one behind the other -/
def pair (f : Format α) (g : Format β) : Format (α × β) where
  write x := f.write x.1 ++ g.write x.2
  read l := (f.read l).bind fun (a, rest) => (g.read rest).map fun (b, rest) => ((a, b), rest)

/-- read exactly `n` values -/
def readMany (f : Format α) : ℕ → List UInt8 → Option (List α × List UInt8)
  | 0, l => some ([], l)
  | n + 1, l => (f.read l).bind fun (a, rest) => (f.readMany n rest).map fun (as, rest) => (a :: as, rest)

theorem beBytes_length (k n : ℕ) : (beBytes k n).length = k := by
  induction k generalizing n with
  | zero => rfl
  | succ k ih => rw [beBytes, List.length_append, ih, List.length_singleton]

theorem beNat_beBytes (k n : ℕ) (h : n < 256 ^ k) : beNat (beBytes k n) = n := by
  induction k generalizing n with
  | zero =>
    rw [pow_zero] at h
    exact (Nat.lt_one_iff.1 h).symm
  | succ k ih =>
    have hdiv : n / 256 < 256 ^ k := Nat.div_lt_of_lt_mul (by rwa [pow_succ, Nat.mul_comm] at h)
    have hmod : (UInt8.ofNat (n % 256)).toNat = n % 256 := by rw [UInt8.toNat_ofNat', Nat.mod_mod]
    have hlast : beNat (beBytes k (n / 256) ++ [.ofNat (n % 256)]) =
        beNat (beBytes k (n / 256)) * 256 + (UInt8.ofNat (n % 256)).toNat := by
      rw [beNat, List.foldl_append]
      rfl
    rw [beBytes, hlast, ih _ hdiv, hmod]
    omega

theorem be_reads (k : ℕ) : (be k).Reads (· < 256 ^ k) := by
  intro n hn rest
  have hlen := beBytes_length k n
  have hge : ¬ (beBytes k n ++ rest).length < k := by rw [List.length_append, hlen]; omega
  change (if (beBytes k n ++ rest).length < k then none else
    some (beNat ((beBytes k n ++ rest).take k), (beBytes k n ++ rest).drop k)) = _
  rw [if_neg hge, List.take_left' hlen, List.drop_left' hlen, beNat_beBytes k n hn]

theorem prefixed_reads (k : ℕ) : (prefixed k).Reads fun b => b.length < 256 ^ k := by
  intro b hb rest
  have hge : ¬ (b ++ rest).length < b.length := by rw [List.length_append]; omega
  change ((be k).read ((be k).write b.length ++ b ++ rest)).bind _ = _
  rw [List.append_assoc, be_reads k b.length hb]
  change (if (b ++ rest).length < b.length then none else
    some ((b ++ rest).take b.length, (b ++ rest).drop b.length)) = _
  rw [if_neg hge, List.take_left, List.drop_left]

theorem Reads.pair {f : Format α} {g : Format β} {P : α → Prop} {Q : β → Prop} (hf : f.Reads P) (hg : g.Reads Q) :
    (f.pair g).Reads fun x => P x.1 ∧ Q x.2 := by
  intro x hx rest
  change (f.read (f.write x.1 ++ g.write x.2 ++ rest)).bind _ = _
  rw [List.append_assoc, hf x.1 hx.1]
  change (g.read (g.write x.2 ++ rest)).map _ = _
  rw [hg x.2 hx.2]
  rfl

/-- **A sequence reads back**, by induction on it. -/
theorem Reads.many {f : Format α} {P : α → Prop} (hf : f.Reads P) (l : List α) (hl : ∀ a ∈ l, P a)
    (rest : List UInt8) : f.readMany l.length (l.flatMap f.write ++ rest) = some (l, rest) := by
  induction l with
  | nil => rfl
  | cons a l ih =>
    obtain ⟨ha, hl⟩ := List.forall_mem_cons.1 hl
    rw [List.flatMap_cons, List.append_assoc]
    change (f.read (f.write a ++ (l.flatMap f.write ++ rest))).bind _ = _
    rw [hf a ha]
    change (f.readMany l.length (l.flatMap f.write ++ rest)).map _ = _
    rw [ih hl]
    rfl

/-- **Different sequences are written differently**, of whatever lengths. -/
theorem Reads.flatMap_inj {f : Format α} {P : α → Prop} (hf : f.Reads P) (hne : ∀ a, f.write a ≠ []) {l l' : List α}
    (hl : ∀ a ∈ l, P a) (hl' : ∀ a ∈ l', P a) (h : l.flatMap f.write = l'.flatMap f.write) : l = l' := by
  induction l generalizing l' with
  | nil =>
    cases l' with
    | nil => rfl
    | cons a' l' =>
      rw [List.flatMap_nil, List.flatMap_cons] at h
      exact absurd (List.append_eq_nil_iff.1 h.symm).1 (hne a')
  | cons a l ih =>
    cases l' with
    | nil =>
      rw [List.flatMap_nil, List.flatMap_cons] at h
      exact absurd (List.append_eq_nil_iff.1 h).1 (hne a)
    | cons a' l' =>
      obtain ⟨ha, hl⟩ := List.forall_mem_cons.1 hl
      obtain ⟨ha', hl'⟩ := List.forall_mem_cons.1 hl'
      rw [List.flatMap_cons, List.flatMap_cons] at h
      -- what is read off the front of both is the same
      have hread := hf a ha (l.flatMap f.write)
      rw [h, hf a' ha', Option.some_inj] at hread
      obtain ⟨hhead, hrest⟩ := Prod.mk.inj hread
      rw [hhead, ih hl hl' hrest.symm]

end Format

/-! ## Writing through a pointer -/

/-- the pointer, the memory, and the addresses written so far, in order -/
structure Cursor where
  p : ℕ
  mem : ℕ → UInt8
  written : List ℕ

namespace Cursor

/-- `*p++ = b` -/
def put (c : Cursor) (b : UInt8) : Cursor := ⟨c.p + 1, Function.update c.mem c.p b, c.written ++ [c.p]⟩

/-- `memcpy(p, data, len); p += len` -/
def copy (c : Cursor) (data : List UInt8) : Cursor := data.foldl put c

/-- between the two `data` has been written, each byte once and nothing else -/
structure Wrote (c : Cursor) (data : List UInt8) (c' : Cursor) : Prop where
  p : c'.p = c.p + data.length
  written : c'.written = c.written ++ List.range' c.p data.length
  inside : (List.range' c.p data.length).map c'.mem = data
  outside : ∀ a, a < c.p ∨ c'.p ≤ a → c'.mem a = c.mem a

variable {c c' c'' : Cursor} {a b : List UInt8}

theorem Wrote.refl (c : Cursor) : Wrote c [] c where
  p := rfl
  written := (List.append_nil _).symm
  inside := rfl
  outside := fun _ _ => rfl

theorem Wrote.trans (h : Wrote c a c') (h' : Wrote c' b c'') : Wrote c (a ++ b) c'' where
  p := by rw [h'.p, h.p, List.length_append, Nat.add_assoc]
  written := by
    rw [h'.written, h.written, h.p, List.length_append, List.append_assoc, List.range'_append_1]
  inside := by
    have hold : (List.range' c.p a.length).map c''.mem = a := by
      refine Eq.trans (List.map_congr_left fun x hx => ?_) h.inside
      rw [List.mem_range'_1] at hx
      exact h'.outside x (Or.inl (by rw [h.p]; exact hx.2))
    have hnew : (List.range' (c.p + a.length) b.length).map c''.mem = b := by
      rw [← h.p]
      exact h'.inside
    rw [List.length_append, ← List.range'_append_1, List.map_append, hold, hnew]
  outside := by
    intro x hx
    have hle := h'.p
    have hle' := h.p
    rw [h'.outside x (by omega), h.outside x (by omega)]

theorem put_wrote (c : Cursor) (b : UInt8) : Wrote c [b] (c.put b) where
  p := rfl
  written := rfl
  inside := by simp [put]
  outside := by
    intro x hx
    have hne : x ≠ c.p := by
      rcases hx with hx | hx
      · exact Nat.ne_of_lt hx
      · exact Nat.ne_of_gt hx
    exact Function.update_of_ne hne _ _

theorem copy_wrote (c : Cursor) (data : List UInt8) : Wrote c data (c.copy data) := by
  induction data generalizing c with
  | nil => exact .refl c
  | cons b data ih => exact (put_wrote c b).trans (ih (c.put b))

end Cursor

end CorazaNginx.Core
