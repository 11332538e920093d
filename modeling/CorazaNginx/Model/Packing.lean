/-
Bulk packing of headers (`ngx_http_coraza_utils.c`), down to the `size_t` arithmetic and the single bytes written.

`packHeaders` of the header filter says which pairs are packed into which bytes. This is the same function as the
machine runs it: lengths are `size_t` values of either width and every sum and difference is taken modulo 2^w, recording
in `wrapped` whether one has wrapped; bytes go through a pointer into memory, recording the addresses written; the
results are stored through `out` and `out_len`.
-/
import Mathlib.Tactic
import CorazaNginx.Core.Wire
import CorazaNginx.Model.HeaderFilter

namespace CorazaNginx.Packing

open CorazaNginx.Core Prog

/-- the widths of `size_t` -/
inductive SizeT where
  | bits32
  | bits64
deriving DecidableEq

def SizeT.bits : SizeT → ℕ
  | .bits32 => 32
  | .bits64 => 64

/-- an `ngx_str_t`: its `len` is a `size_t` -/
@[ext]
structure NgxStr (size : SizeT) where
  data : Bytes
  fits : data.length < 2 ^ size.bits

/-- `ngx_http_coraza_header_t` -/
@[ext]
structure Pair (size : SizeT) where
  name : NgxStr size
  value : NgxStr size

def Pair.bytes {size : SizeT} (p : Pair size) : Bytes × Bytes := (p.name.data, p.value.data)

structure State where
  total : ℕ
  cursor : Cursor
  out : ℕ
  outLen : ℕ
  wrapped : Bool

/-- before the call: what `out`, `out_len` and the memory hold -/
def State.start (out outLen : ℕ) (mem : ℕ → UInt8) : State := ⟨0, ⟨0, mem, []⟩, out, outLen, false⟩

/-- what `out` and `out_len` describe -/
def State.buffer (s : State) : Bytes := (List.range' s.out s.outLen).map s.cursor.mem

/-- the environment is `ngx_pnalloc`: the address for a size, 0 for NULL -/
abbrev Pack (ρ α : Type) : Type := Prog (ℕ → ℕ) State ρ α

section
variable {ρ : Type} (size : SizeT)

/-- `a + b` -/
def sizeAdd (a b : ℕ) : Pack ρ ℕ := do
  modify fun s => { s with wrapped := s.wrapped || decide (2 ^ size.bits ≤ a + b) }
  return (a + b) % 2 ^ size.bits

/-- `a - b` -/
def sizeSub (a b : ℕ) : Pack ρ ℕ := do
  modify fun s => { s with wrapped := s.wrapped || decide (a < b) }
  return (a + (2 ^ size.bits - b)) % 2 ^ size.bits

/-- `*p++ = b` -/
def put (b : ℕ) : Pack ρ Unit := modify fun s => { s with cursor := s.cursor.put (.ofNat b) }

/-- `ngx_memcpy(p, data, len); p += len` -/
def copy (data : Bytes) : Pack ρ Unit := modify fun s => { s with cursor := s.cursor.copy data }

/-- the body of the sizing loop -/
def sizePair (p : Pair size) : Pack ℤ Unit := do
  let nlen := p.name.data.length
  let vlen := p.value.data.length
  when (0xffff < nlen ∨ intMax < vlen) do exit ngxError
  let total := (← get).total
  when ((← sizeSub size intMax 6) < total) do exit ngxError
  when ((← sizeSub size (← sizeSub size intMax 6) total) < nlen) do exit ngxError
  when ((← sizeSub size (← sizeSub size (← sizeSub size intMax 6) total) nlen) < vlen) do exit ngxError
  let total ← sizeAdd size total (← sizeAdd size (← sizeAdd size 6 nlen) vlen)
  modify fun s => { s with total := total }

/-- the body of the writing loop -/
def writePair (p : Pair size) : Pack ρ Unit := do
  let nlen := p.name.data.length
  let vlen := p.value.data.length
  put ((nlen >>> 8) &&& 0xff)
  put (nlen &&& 0xff)
  when (nlen ≠ 0) do copy p.name.data
  put ((vlen >>> 24) &&& 0xff)
  put ((vlen >>> 16) &&& 0xff)
  put ((vlen >>> 8) &&& 0xff)
  put (vlen &&& 0xff)
  when (vlen ≠ 0) do copy p.value.data

/-- `ngx_http_coraza_pack_headers` -/
def packHeaders (pairs : List (Pair size)) : Pack ℤ ℤ := do
  modify fun s => { s with total := 0 }
  forEach pairs (sizePair size)
  let total := (← get).total
  when (total = 0) do
    modify fun s => { s with out := 0, outLen := 0 }
    exit ngxOk
  let pnalloc ← ask
  let buf := pnalloc total
  when (buf = 0) do exit ngxError
  modify fun s => { s with cursor := { s.cursor with p := buf } }
  forEach pairs (writePair size)
  modify fun s => { s with out := buf, outLen := total }
  return ngxOk

end

end CorazaNginx.Packing
