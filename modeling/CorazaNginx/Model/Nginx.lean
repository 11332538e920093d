/-
The nginx data the module reads and writes: return codes, buffers, header lists, the request.

Only the fields that a modelled function uses are kept. A `ngx_buf_t` describes a range of memory, a range of a file, or
neither; `Content` is what memory and files hold, so the bytes of a buffer are a function of the buffer and the content
at the moment it is looked at (`Buf.bytes`). Memory that the module did not allocate and files that belong to an
upstream (`temp_file`) may change between two calls of a filter; a buffer in the module's own pool copy carries its
bytes. Casts that can lose information are explicit: `sizeT` is the conversion to a 64-bit `size_t`, `cInt` to a 32-bit
`int`.
-/
import Mathlib.Tactic
import CorazaNginx.Core.Parts

namespace CorazaNginx

open CorazaNginx.Core

abbrev Bytes := List UInt8

/-! ## Return codes, statuses, limits -/

@[simp] abbrev ngxOk : ℤ := 0
@[simp] abbrev ngxError : ℤ := -1
@[simp] abbrev ngxAgain : ℤ := -2
@[simp] abbrev ngxDone : ℤ := -4
@[simp] abbrev ngxDeclined : ℤ := -5

@[simp] abbrev ngxHttpSwitchingProtocols : ℤ := 101
@[simp] abbrev ngxHttpSpecialResponse : ℤ := 300
@[simp] abbrev ngxHttpMovedPermanently : ℤ := 301
@[simp] abbrev ngxHttpMovedTemporarily : ℤ := 302
@[simp] abbrev ngxHttpSeeOther : ℤ := 303
@[simp] abbrev ngxHttpTemporaryRedirect : ℤ := 307
@[simp] abbrev ngxHttpPermanentRedirect : ℤ := 308
@[simp] abbrev ngxHttpInternalServerError : ℤ := 500

@[simp] abbrev ngxHttpHead : ℕ := 4
@[simp] abbrev ngxHttpVersion9 : ℕ := 9
@[simp] abbrev ngxHttpVersion10 : ℕ := 1000
@[simp] abbrev ngxHttpVersion11 : ℕ := 1001
@[simp] abbrev ngxHttpVersion20 : ℕ := 2000
@[simp] abbrev ngxHttpVersion30 : ℕ := 3000

@[simp] abbrev intMax : ℕ := 2147483647

/-- `(size_t) x` -/
def sizeT (x : ℤ) : ℕ := (x % 2 ^ 64).toNat

/-- `(int) n` for a `size_t` n -/
def cInt (n : ℕ) : ℤ := if n % 2 ^ 32 < 2 ^ 31 then (n % 2 ^ 32 : ℕ) else (n % 2 ^ 32 : ℕ) - 2 ^ 32

theorem sizeT_of_range {x : ℤ} (h0 : 0 ≤ x) (h : x < 2 ^ 64) : sizeT x = x.toNat := by
  rw [sizeT, Int.emod_eq_of_lt h0 h]

theorem cInt_of_le {n : ℕ} (h : n ≤ intMax) : cInt n = n := by
  unfold cInt; simp at h; split_ifs <;> omega

/-- narrowing keeps a length exactly when it fits -/
theorem cInt_eq_iff {n : ℕ} : cInt n = n ↔ n ≤ intMax := by
  constructor
  · intro h
    unfold cInt at h
    simp only [intMax]
    split_ifs at h <;> omega
  · exact cInt_of_le

/-! ## Buffers -/

/-- `ngx_file_t` -/
structure File where
  id : ℕ
  directio : Bool := false
deriving DecidableEq, Repr

/-- what a buffer's memory pointers point into: storage of the producer, or a block of r->pool with these bytes -/
inductive Store where
  | producer
  | pool (block : Bytes)
deriving DecidableEq, Repr

/-- `ngx_buf_t` -/
structure Buf where
  store : Store := .producer
  pos : ℕ := 0
  last : ℕ := 0
  filePos : ℤ := 0
  fileLast : ℤ := 0
  file : Option File := none
  temporary : Bool := false
  memory : Bool := false
  mmap : Bool := false
  inFile : Bool := false
  tempFile : Bool := false
  flush : Bool := false
  sync : Bool := false
  lastBuf : Bool := false
  lastInChain : Bool := false
deriving DecidableEq, Repr

/-- `ngx_buf_in_memory` -/
def Buf.inMemory (b : Buf) : Bool := b.temporary || b.memory || b.mmap

/-- `!ngx_buf_in_memory(b) && b->in_file && b->file` -/
def Buf.fileBacked (b : Buf) : Option File := if !b.inMemory && b.inFile then b.file else none

/-- `pos = last` if in memory, else `file_pos = file_last` -/
def Buf.consumed (b : Buf) : Prop := if b.inMemory then b.pos = b.last else b.filePos = b.fileLast

instance (b : Buf) : Decidable b.consumed := by unfold Buf.consumed; infer_instance

/-- pointers and offsets as nginx keeps them: `pos <= last` in memory, `0 <= file_pos <= file_last` in a file -/
structure Buf.Valid (b : Buf) : Prop where
  mem : b.inMemory = true → b.pos ≤ b.last ∧ b.last < 2 ^ 64
  file : b.fileBacked.isSome → 0 ≤ b.filePos ∧ b.filePos ≤ b.fileLast ∧ b.fileLast < 2 ^ 63

/-- what memory and files hold at one moment; `temp` are files whose lifetime an upstream controls -/
structure Content where
  mem : ℕ → UInt8
  file : ℕ → ℤ → UInt8
  temp : ℕ → ℤ → UInt8

/-- `n` bytes of a file from `offset` -/
def Content.range (c : Content) (temp : Bool) (f : ℕ) (offset : ℤ) (n : ℕ) : Bytes :=
  (List.range n).map fun k : ℕ => (if temp then c.temp else c.file) f (offset + (k : ℤ))

@[simp] theorem Content.range_length (c : Content) (temp : Bool) (f : ℕ) (o : ℤ) (n : ℕ) :
    (c.range temp f o n).length = n := by simp [Content.range]

@[simp] theorem Content.range_zero (c : Content) (temp : Bool) (f : ℕ) (o : ℤ) : c.range temp f o 0 = [] := rfl

theorem Content.range_add (c : Content) (temp : Bool) (f : ℕ) (o : ℤ) (m n : ℕ) :
    c.range temp f o (m + n) = c.range temp f o m ++ c.range temp f (o + m) n := by
  simp only [Content.range, List.range_add, List.map_append, List.map_map]
  congr 1
  refine List.map_congr_left fun k _ => ?_
  simp only [Function.comp_apply, Nat.cast_add, add_assoc]

/-- the bytes between `pos` and `last` -/
def Buf.memBytes (c : Content) (b : Buf) : Bytes :=
  match b.store with
  | .producer => (List.range' b.pos (b.last - b.pos)).map c.mem
  | .pool block => (block.drop b.pos).take (b.last - b.pos)

/-- the bytes a filter further down gets from the buffer -/
def Buf.bytes (c : Content) (b : Buf) : Bytes :=
  if b.inMemory then b.memBytes c
  else match b.fileBacked with
    | some f => c.range b.tempFile f.id b.filePos (b.fileLast - b.filePos).toNat
    | none => []

/-! ## Headers and the request -/

/-- `ngx_table_elt_t`; an entry with `hash = 0` is deleted -/
structure TableElt where
  hash : ℕ
  key : Bytes
  value : Bytes
deriving DecidableEq

/-- `ngx_http_headers_out_t`; the dedicated slots hold addresses of entries of `headers` -/
structure HeadersOut where
  headers : Parts TableElt := default
  status : ℤ := 0
  statusLine : Bytes := []
  server : Option ℕ := none
  date : Option ℕ := none
  contentLength : Option ℕ := none
  contentEncoding : Option ℕ := none
  location : Option ℕ := none
  lastModified : Option ℕ := none
  acceptRanges : Option ℕ := none
  etag : Option ℕ := none
  contentType : Bytes := []
  contentTypeLen : ℕ := 0
  contentLengthN : ℤ := -1
  lastModifiedTime : ℤ := -1
deriving DecidableEq

/-- delete the entry a slot points to -/
def HeadersOut.unlink (h : HeadersOut) (slot : Option ℕ) : Parts TableElt :=
  match slot with
  | some i => h.headers.modify i fun e => { e with hash := 0 }
  | none => h.headers

/-- `ngx_temp_file_t`: the file and the size recorded for it -/
structure TempFile where
  file : File
  offset : ℤ
deriving DecidableEq, Repr

/-- `ngx_http_request_body_t` -/
structure RequestBody where
  bufs : List Buf := []
  tempFile : Option TempFile := none
deriving DecidableEq, Repr

/-- `ngx_connection_t` and the two socket addresses, as the rewrite handler reads them -/
structure Connection where
  addrText : Bytes := []
  unix : Bool := false
  port : ℕ := 0
  localAddr : Bytes := []
  localUnix : Bool := false
  localPort : ℕ := 0
deriving DecidableEq, Repr

/-- `ngx_http_coraza_conf_t` of the location the request is in, as the handlers read it -/
structure LocConf where
  enable : ℤ := 1
  delayResponseHeaders : ℤ := 1
  waf : ℕ := 0
  transactionId : Bool := false
deriving DecidableEq, Repr

/-- `ngx_http_core_loc_conf_t` -/
structure CoreLocConf where
  serverTokens : Bool := true
  keepaliveHeader : ℤ := 0
  gzipVary : Bool := false
deriving DecidableEq, Repr

/-- `ngx_http_request_t` -/
structure Request where
  /-- `r == r->main` -/
  isMain : Bool := true
  connection : Connection := {}
  method : ℕ := 2
  methodName : Bytes := []
  unparsedUri : Bytes := []
  httpVersion : ℕ := 1001
  headersIn : Parts TableElt := default
  headersOut : HeadersOut := {}
  requestBody : Option RequestBody := none
  count : ℤ := 1
  errStatus : ℤ := 0
  headerOnly : Bool := false
  headerSent : Bool := false
  errorPage : Bool := false
  keepalive : Bool := false
  chunked : Bool := false
  gzipVary : Bool := false
  allowRanges : Bool := false
  filterNeedInMemory : Bool := false
  requestBodyInPersistentFile : Bool := false
  requestBodyInFileOnly : Bool := false
  requestBodyInCleanFile : Bool := false
  loc : LocConf := {}
  clcf : CoreLocConf := {}
deriving DecidableEq

def Request.setHeadersOut (r : Request) (h : HeadersOut) : Request := { r with headersOut := h }

@[simp] theorem Request.setHeadersOut_headersOut (r : Request) (h : HeadersOut) :
    (r.setHeadersOut h).headersOut = h := rfl
@[simp] theorem Request.setHeadersOut_errorPage (r : Request) (h : HeadersOut) :
    (r.setHeadersOut h).errorPage = r.errorPage := rfl
@[simp] theorem Request.setHeadersOut_headerSent (r : Request) (h : HeadersOut) :
    (r.setHeadersOut h).headerSent = r.headerSent := rfl

end CorazaNginx
