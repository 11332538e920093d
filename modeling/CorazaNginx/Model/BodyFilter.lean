/-
The response body filter (`ngx_http_coraza_body_filter.c`), and the two functions of the header filter file that it
shares with the header filter (`forwardHeader`, `prepareRedirect`).

A call gets a chain of buffers. Each buffer is appended to the engine and polled for (`inspectBuf`), the one marked
last_buf also ends the body (`finishBody`), and while the headers are delayed it is queued (`enqueueBuf`). Every early
exit of that loop goes through `bodyFilterFinalize`, except the yield to an error page already on the wire. The buffers
of the chain live in `St.inn`: marking one consumed changes it there, and a queued passthrough link is a reference into
it, resolved when the queue is flushed.
-/
import Mathlib.Tactic
import CorazaNginx.Model.Intervention

namespace CorazaNginx

open CorazaNginx.Core Prog Handler

/-- NGX_HTTP_CORAZA_RESPONSE_BODY_FILE_CHUNK_SIZE -/
def responseBodyFileChunkSize : ℕ := 64 * 1024

/-- NGX_HTTP_CORAZA_MAX_DELAYED_BODY -/
def maxDelayedBody : ℕ := 1024 * 1024

/-! ## The filters further down -/

/-- what the next body filter gets for a link -/
def Link.hand (c : Content) (inn : List Buf) : Link → Handed
  | .own b => ⟨b, b.bytes c, none⟩
  | .input i => ⟨inn.getD i {}, (inn.getD i {}).bytes c, some i⟩

/-- the chain in hand, as links to its own buffers -/
def inLinks (inn : List Buf) : List Link := (List.range inn.length).map .input

def nextBodyFilter {ρ : Type} (out : List Link) : Handler ρ ℤ := do
  let e ← ask
  let s ← get
  invoke (.nextBody (out.map (Link.hand e.content s.inn)))

/-- the request after the next header filter has run -/
def Request.afterHeader (r : Request) (e : Env) : Request :=
  { r with headerOnly := e.headerOnly r, headerSent := e.headerSent r }

@[simp] theorem Request.afterHeader_headerOnly (r : Request) (e : Env) :
    (r.afterHeader e).headerOnly = e.headerOnly r :=
  rfl
@[simp] theorem Request.afterHeader_errorPage (r : Request) (e : Env) : (r.afterHeader e).errorPage = r.errorPage := rfl

def nextHeaderFilter {ρ : Type} : Handler ρ ℤ := do
  let e ← ask
  let s ← get
  let rc ← invoke (.nextHeader s.r.headersOut s.r.headerOnly)
  modify fun s => s.setR (s.r.afterHeader e)
  return rc

def filterFinalizeRequest {ρ : Type} (status : ℤ) : Handler ρ ℤ := do
  let e ← ask
  let rc ← invoke (.finalizeRequest status)
  modify fun s => s.setR (e.finalized s.r)
  return rc

/-- `ngx_http_coraza_forward_header` -/
def forwardHeader : Fn := nextHeaderFilter

/-- `ngx_http_coraza_prepare_redirect` -/
def prepareRedirect (r : Request) (status : ℤ) : Request :=
  let h := { r.headersOut with status := status, statusLine := [], contentLengthN := -1 }
  let h := { h with headers := h.unlink h.contentLength, contentLength := none }
  let h := { h with contentType := [], contentTypeLen := 0, lastModifiedTime := -1 }
  let h := { h with headers := h.unlink h.lastModified, lastModified := none }
  let h := { h with headers := h.unlink h.contentEncoding, contentEncoding := none }
  let h := { h with headers := h.unlink h.etag, etag := none }
  -- ngx_http_clear_accept_ranges
  let h := { h with headers := h.unlink h.acceptRanges, acceptRanges := none }
  { r with errStatus := 0, headerOnly := true, allowRanges := false, headersOut := h }

/-! ## Reading a buffer -/

/-- `ngx_http_coraza_body_chunk_len` -/
def bodyChunkLen (b : Buf) : ℕ :=
  if b.inMemory then sizeT (b.last - b.pos)
  else match b.fileBacked with
    | some _ => sizeT (b.fileLast - b.filePos)
    | none => 0

/-- the read loop of `ngx_http_coraza_read_body_data` -/
def readRange {ρ : Type} (b : Buf) (f : File) (remaining : ℕ) (offset : ℤ) (data : Bytes) :
    Handler ρ (Option Bytes) :=
  if _h0 : remaining = 0 then return some data
  else do
    match ← readFile remaining offset with
    | .error => return none
    | .bytes n _ =>
      if _hn : n = 0 then return none
      else do
        let e ← ask
        readRange b f (remaining - n) (offset + n) (data ++ e.content.range b.tempFile f.id offset n)
termination_by remaining

/-- `ngx_http_coraza_read_body_data`; `none` is NGX_ERROR -/
def readBodyData {ρ : Type} (b : Buf) : Handler ρ (Option Bytes) := call do
  when b.inMemory do
    let e ← ask
    exit (some (b.memBytes e.content))
  match b.fileBacked with
  | some f =>
    when (bodyChunkLen b = 0) do exit (some [])
    when (!(← alloc (bodyChunkLen b))) do exit none
    readRange b f (bodyChunkLen b) b.filePos []
  | none => return some []

/-- what the loop asks of a read with `left` bytes to go. An `off_t` difference of 2^63 or more wraps to a negative
number, which is below the chunk size and, as a `size_t`, all that is left. -/
def readSize (left : ℤ) : ℕ := if left < 2 ^ 63 then min left.toNat responseBodyFileChunkSize else left.toNat

/-- the loop of `ngx_http_coraza_append_response_body_file`: its `rc` after the last iteration -/
def appendFileLoop {ρ : Type} (b : Buf) (f : File) (offset : ℤ) : Handler ρ ℤ :=
  if _h : offset < b.fileLast then do
    match ← readFile (readSize (b.fileLast - offset)) offset with
    | .error => return ngxError
    | .bytes n _ =>
      if _hn : n = 0 then return ngxError
      else do
        let e ← ask
        let ret ← engine (.appendResponseBody (e.content.range b.tempFile f.id offset n) (cInt n))
        if ret ≠ 0 then return ngxError else appendFileLoop b f (offset + n)
  else return ngxOk
termination_by (b.fileLast - offset).toNat

/-- switch direct I/O off where the file uses it; NGX_FILE_ERROR is NGX_ERROR -/
def directioOff {ρ : Type} (f : File) : Handler ρ ℤ := if f.directio then invoke .directioOff else pure ngxOk

/-- the loop, unless direct I/O could not be switched off -/
def submitRange {ρ : Type} (b : Buf) (f : File) (off : ℤ) : Handler ρ ℤ :=
  if off = ngxError then pure ngxError else appendFileLoop b f b.filePos

/-- `ngx_http_coraza_append_response_body_file`, with aligned direct I/O compiled in -/
def appendResponseBodyFile (b : Buf) (f : File) : Fn := call do
  when (b.fileLast < b.filePos) do
    trigger
    exit ngxError
  when (b.fileLast = b.filePos) do exit ngxOk
  when (!(← alloc responseBodyFileChunkSize)) do
    trigger
    exit ngxError
  let off ← directioOff f
  let rc ← submitRange b f off
  when (f.directio && off ≠ ngxError) do
    let _ ← invoke .directioOn
  let _ ← invoke .freeScratch
  when (rc ≠ ngxOk) trigger
  return rc

/-! ## Ending a response early -/

/-- `cl->buf->pos = cl->buf->last; cl->buf->file_pos = cl->buf->file_last` -/
def Buf.drain (b : Buf) : Buf := { b with pos := b.last, filePos := b.fileLast }

/-- `ngx_http_coraza_body_filter_consume` on the chain in hand -/
def bodyFilterConsume {ρ : Type} : Handler ρ Unit := modify fun s => s.setInn (s.inn.map Buf.drain)

/-- give up the delay and everything queued -/
def St.dropDelayed (s : St) : St :=
  s.setCtx { s.ctx with headersDelayed := false, pendingChain := [], pendingBytes := 0 }

@[simp] theorem St.dropDelayed_r (s : St) : s.dropDelayed.r = s.r := rfl
@[simp] theorem St.dropDelayed_ctx (s : St) : s.dropDelayed.ctx =
    { s.ctx with headersDelayed := false, pendingChain := [], pendingBytes := 0 } := rfl
@[simp] theorem St.dropDelayed_inn (s : St) : s.dropDelayed.inn = s.inn := rfl
@[simp] theorem St.dropDelayed_trace (s : St) : s.dropDelayed.trace = s.trace := rfl

/-- `ngx_http_coraza_body_filter_finalize` -/
def bodyFilterFinalize (status : ℤ) : Fn := call do
  let s ← get
  let wasDelayed := s.ctx.headersDelayed
  when wasDelayed do modify St.dropDelayed
  when (wasDelayed && isRedirectStatus status && s.r.headersOut.location.isSome) do
    modify fun s => s.setR (prepareRedirect s.r status)
    bodyFilterConsume
    -- NGX_ERROR or not, the filter returns what the header filter answered
    exit (← forwardHeader)
  filterFinalizeRequest status

/-- `ngx_http_coraza_body_filter_internal_error` -/
def bodyFilterInternalError : Fn := call do
  trigger
  bodyFilterFinalize ngxHttpInternalServerError

/-! ## One buffer -/

/-- `ctx->intervention_triggered = 1; return ngx_http_coraza_body_filter_finalize(r, ctx, in, status)` -/
def block (status : ℤ) : Handler ℤ Unit := do
  trigger
  exit (← bodyFilterFinalize status)

/-- the branch on a poll's result, the same at both polls -/
def afterPoll (ret : ℤ) : Handler ℤ Unit := do
  let s ← get
  when s.r.errorPage do exit (← nextBodyFilter (inLinks s.inn))
  when (0 < ret) do block ret
  when (ret < 0) do block ngxHttpInternalServerError

/-- submit a buffer to the engine -/
def appendBuf (b : Buf) : Handler ℤ Unit :=
  match b.fileBacked with
  | some f => do
    let rc ← appendResponseBodyFile b f
    when (rc ≠ ngxOk) do exit (← bodyFilterFinalize ngxHttpInternalServerError)
  | none => do
    when (intMax < bodyChunkLen b) do block ngxHttpInternalServerError
    match ← readBodyData b with
    | none => block ngxHttpInternalServerError
    | some data =>
      when (data ≠ []) do
        let ret ← engine (.appendResponseBody data (cInt data.length))
        when (ret ≠ 0) do block ngxHttpInternalServerError

/-- submit a buffer to the engine and poll -/
def inspectBuf (b : Buf) : Handler ℤ Unit := do
  appendBuf b
  afterPoll (← processIntervention false)

/-- phase 4 at the last buffer -/
def finishBody : Handler ℤ Unit := do
  let pret ← engine .processResponseBody
  when (processBodyFailed pret) do block ngxHttpInternalServerError
  afterPoll (← pollAfterProcess false pret)

/-- mark the i-th buffer of the chain in hand consumed -/
def Buf.markConsumed (b : Buf) : Buf :=
  if b.inMemory then { b with pos := b.last }
  else if b.inFile then { b with filePos := b.fileLast }
  else b

/-- the pool copy of a buffer's data -/
def copyBuf (b : Buf) (data : Bytes) : Buf :=
  if data = [] then { lastInChain := b.lastInChain, flush := b.flush }
  else { store := .pool data, last := data.length, memory := true, lastInChain := b.lastInChain, flush := b.flush }

/-- append a link to `pending_chain` -/
def St.link (s : St) (l : Link) : St := s.setCtx { s.ctx with pendingChain := s.ctx.pendingChain ++ [l] }

/-- add to `pending_bytes` -/
def St.charge (s : St) (n : ℕ) : St := s.setCtx { s.ctx with pendingBytes := (s.ctx.pendingBytes + n) % 2 ^ 64 }

/-- mark the i-th buffer consumed and append the buffer that stands for it, `n` bytes long -/
def St.enqueue (s : St) (i : ℕ) (n : ℕ) (b : Buf) : St :=
  ((s.charge n).setInn (s.inn.modify i Buf.markConsumed)).link (.own b)

/-- `if (p == NULL) return ngx_http_coraza_body_filter_internal_error(r, ctx, in)` -/
def allocOrFail (size : ℕ) : Handler ℤ Unit := do
  let ok ← alloc size
  when (!ok) do exit (← bodyFilterInternalError)

/-- queue the i-th buffer of the chain in hand -/
def enqueueBuf (i : ℕ) (b : Buf) : Handler ℤ Unit := do
  allocOrFail 16
  if b.lastBuf then modify fun s => s.link (.input i)
  else if b.fileBacked.isSome && !b.tempFile then
    allocOrFail 80
    modify fun s => s.enqueue i (sizeT (b.fileLast - b.filePos)) { b with lastBuf := false }
  else
    match ← readBodyData b with
    | none => exit (← bodyFilterInternalError)
    | some data =>
      allocOrFail 80
      when (data ≠ []) do allocOrFail data.length
      modify fun s => s.enqueue i data.length (copyBuf b data)

/-- one iteration of the filter's loop -/
def bodyFilterBuf (x : Buf × ℕ) : Handler ℤ Unit := do
  when (← get).ctx.responseBodyProcessable do inspectBuf x.1
  when x.1.lastBuf do finishBody
  when (← get).ctx.headersDelayed do enqueueBuf x.2 x.1

/-! ## The filter -/

/-- forward the delayed headers, then everything queued; anything but NGX_ERROR from the headers goes on -/
def flushDelayed : Fn := call do
  modify fun s => s.setCtx { s.ctx with headersDelayed := false }
  let rc ← forwardHeader
  when (rc = ngxError) do exit ngxError
  let s ← get
  modify fun s => s.setCtx { s.ctx with pendingChain := [] }
  nextBodyFilter s.ctx.pendingChain

/-- `ngx_http_coraza_body_filter` on a request that has a context; `[]` is a NULL chain -/
def bodyFilter (inn : List Buf) : Fn := call do
  modify fun s => s.setInn inn
  when (inn = []) do exit (← nextBodyFilter [])
  let s ← get
  when s.ctx.interventionTriggered do
    when s.r.headerOnly do
      bodyFilterConsume
      exit ngxOk
    exit (← nextBodyFilter (inLinks inn))
  forEach inn.zipIdx bodyFilterBuf
  let s ← get
  when s.ctx.headersDelayed do
    -- is_request_processed: some buffer of the chain was the last one
    when (inn.any (·.lastBuf)) do exit (← flushDelayed)
    when (maxDelayedBody < s.ctx.pendingBytes) do exit (← flushDelayed)
    exit ngxOk
  nextBodyFilter (inLinks inn)

end CorazaNginx
