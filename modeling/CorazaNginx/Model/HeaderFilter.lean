/-
The response header filter (`ngx_http_coraza_header_filter.c`) and the bulk packing of headers
(`ngx_http_coraza_utils.c`).

The filter shows the engine the response headers in two passes, the dedicated fields of `headers_out` first
(`headerResolvers`, in the source's order) and then the header list (`submitEntry`), skipping in the second what the
first has taken from a slot. Both go through `addResponseHeader`, which collects while the collector is armed;
`flushResponseHeaders` submits the collected set at once or replays it. Phase 3 is evaluated and polled, and the
response is then finalized, forwarded, turned into a redirect, or delayed.
-/
import Mathlib.Tactic
import CorazaNginx.Model.BodyFilter

namespace CorazaNginx

open CorazaNginx.Core Prog Handler

/-! ## Packing -/

/-- the first loop of `ngx_http_coraza_pack_headers`: the packed length, `none` when something is out of range -/
def packTotal : List HeaderPair → ℕ → Option ℕ
  | [], total => some total
  | p :: ps, total =>
    let nlen := p.name.length
    let vlen := p.value.length
    if 0xffff < nlen ∨ intMax < vlen then none
    else if intMax - 6 < total ∨ intMax - 6 - total < nlen ∨ intMax - 6 - total - nlen < vlen then none
    else packTotal ps (total + (6 + nlen + vlen))

/-- one record: [u16 name_len BE][name][u32 value_len BE][value] -/
def packPair (p : HeaderPair) : Bytes :=
  let nlen := p.name.length
  let vlen := p.value.length
  [.ofNat ((nlen >>> 8) &&& 0xff), .ofNat (nlen &&& 0xff)] ++ p.name ++
    [.ofNat ((vlen >>> 24) &&& 0xff), .ofNat ((vlen >>> 16) &&& 0xff), .ofNat ((vlen >>> 8) &&& 0xff),
      .ofNat (vlen &&& 0xff)] ++ p.value

/-- `ngx_http_coraza_pack_headers`; `none` is NGX_ERROR -/
def packHeaders {ρ : Type} (pairs : List HeaderPair) : Handler ρ (Option Bytes) := call do
  match packTotal pairs 0 with
  | none => return none
  | some total =>
    when (total = 0) do exit (some [])
    when (!(← alloc total)) do exit none
    return some (pairs.flatMap packPair)

/-! ## Submitting one response header -/

/-- set the collector -/
def St.collect (s : St) (c : Option (List HeaderPair)) : St := s.setCtx { s.ctx with respHdrCollect := c }

/-- `ngx_http_coraza_add_response_header`. The push has counted the pair, so one whose copies fail stays in the
collector with what it has by then: a NULL pointer holds no bytes. -/
def addResponseHeader (p : HeaderPair) : Fn := call do
  match (← get).ctx.respHdrCollect with
  | some pairs =>
    when (!(← alloc 32)) do exit ngxError
    modify fun s => s.collect (some (pairs ++ [{ p with name := [], value := [] }]))
    when (p.name ≠ []) do
      when (!(← alloc p.name.length)) do exit ngxError
    modify fun s => s.collect (some (pairs ++ [{ p with value := [] }]))
    when (p.value ≠ []) do
      when (!(← alloc p.value.length)) do exit ngxError
    modify fun s => s.collect (some (pairs ++ [p]))
    return ngxOk
  | none =>
    when ((← engine (.addResponseHeader p (cInt p.name.length) (cInt p.value.length))) < 0) do exit ngxError
    return ngxOk

/-- the entry a slot points to -/
def HeadersOut.entry (h : HeadersOut) (i : ℕ) : TableElt := h.headers.toList.getD i ⟨0, [], []⟩

/-- `%O` and `%T` -/
def decimal (n : ℤ) : Bytes := ascii (toString n)

/-- `ngx_http_coraza_resolv_header_server` -/
def resolvHeaderServer (name : Bytes) : Fn := call do
  let e ← ask
  let s ← get
  match s.r.headersOut.server with
  | none => addResponseHeader ⟨name, if s.r.clcf.serverTokens then e.nginxVer else ascii "nginx", none⟩
  | some i => addResponseHeader ⟨name, (s.r.headersOut.entry i).value, some i⟩

/-- `ngx_http_coraza_resolv_header_date` -/
def resolvHeaderDate (name : Bytes) : Fn := call do
  let e ← ask
  let s ← get
  match s.r.headersOut.date with
  | none => addResponseHeader ⟨name, e.cachedHttpTime, none⟩
  | some i => addResponseHeader ⟨name, (s.r.headersOut.entry i).value, some i⟩

/-- `ngx_http_coraza_resolv_header_content_length` -/
def resolvHeaderContentLength (name : Bytes) : Fn := call do
  let s ← get
  when (0 ≤ s.r.headersOut.contentLengthN) do
    exit (← addResponseHeader ⟨name, decimal s.r.headersOut.contentLengthN, none⟩)
  return ngxOk

/-- `ngx_http_coraza_resolv_header_content_type` -/
def resolvHeaderContentType (name : Bytes) : Fn := call do
  let s ← get
  when (s.r.headersOut.contentType ≠ []) do exit (← addResponseHeader ⟨name, s.r.headersOut.contentType, none⟩)
  return ngxOk

/-- `ngx_http_coraza_resolv_header_last_modified`: the value is formatted from the time, also when the slot points to an
entry of the list, which the list pass then skips -/
def resolvHeaderLastModified (name : Bytes) : Fn := call do
  let e ← ask
  let s ← get
  when (s.r.headersOut.lastModifiedTime = -1) do exit ngxOk
  addResponseHeader ⟨name, e.httpTime s.r.headersOut.lastModifiedTime, s.r.headersOut.lastModified⟩

/-- `ngx_http_coraza_resolv_header_connection` -/
def resolvHeaderConnection (name : Bytes) : Fn := call do
  let s ← get
  when (ngxHttpVersion20 ≤ s.r.httpVersion) do exit ngxOk
  when (s.r.headersOut.status = ngxHttpSwitchingProtocols) do
    exit (← addResponseHeader ⟨name, ascii "upgrade", none⟩)
  when s.r.keepalive do
    when (s.r.clcf.keepaliveHeader ≠ 0) do
      let rc ← addResponseHeader
        ⟨ascii "Keep-Alive", ascii "timeout=" ++ decimal s.r.clcf.keepaliveHeader, none⟩
      when (rc ≠ ngxOk) do exit ngxError
    exit (← addResponseHeader ⟨name, ascii "keep-alive", none⟩)
  addResponseHeader ⟨name, ascii "close", none⟩

/-- `ngx_http_coraza_resolv_header_transfer_encoding` -/
def resolvHeaderTransferEncoding (name : Bytes) : Fn := call do
  let s ← get
  when (s.r.chunked) do exit (← addResponseHeader ⟨name, ascii "chunked", none⟩)
  return ngxOk

/-- `ngx_http_coraza_resolv_header_vary`, with gzip compiled in -/
def resolvHeaderVary (name : Bytes) : Fn := call do
  let s ← get
  when (s.r.gzipVary && s.r.clcf.gzipVary) do exit (← addResponseHeader ⟨name, ascii "Accept-Encoding", none⟩)
  return ngxOk

/-- `ngx_http_coraza_headers_out` -/
def headerResolvers {ρ : Type} : List (Handler ρ ℤ) :=
  [resolvHeaderServer (ascii "Server"), resolvHeaderDate (ascii "Date"),
    resolvHeaderContentLength (ascii "Content-Length"), resolvHeaderContentType (ascii "Content-Type"),
    resolvHeaderLastModified (ascii "Last-Modified"), resolvHeaderConnection (ascii "Connection"),
    resolvHeaderTransferEncoding (ascii "Transfer-Encoding"), resolvHeaderVary (ascii "Vary")]

/-- whether the first pass has taken the entry at address `i` from a dedicated slot -/
def HeadersOut.taken (h : HeadersOut) (i : ℕ) : Bool :=
  h.server = some i || h.date = some i || (h.lastModified = some i && h.lastModifiedTime ≠ -1)

/-- one iteration of the list pass -/
def submitEntry (x : TableElt × ℕ) : Handler ℤ Unit := do
  let s ← get
  if x.1.hash = 0 then pure ()
  else if s.r.headersOut.taken x.2 then pure ()
  else
    let rc ← addResponseHeader ⟨x.1.key, x.1.value, some x.2⟩
    when (rc ≠ ngxOk) do exit rc

/-- both passes; a failure leaves the filter with its code -/
def submitResponseHeaders : Handler ℤ Unit := do
  forEach headerResolvers fun resolver => do
    let rc ← resolver
    when (rc ≠ ngxOk) do exit rc
  let s ← get
  forEach s.r.headersOut.headers.toList.zipIdx submitEntry

/-- the bulk submission: whether the engine took the whole set -/
def bulkResponseHeaders {ρ : Type} (collected : List HeaderPair) : Handler ρ Bool := do
  if collected = [] then return false
  else
    match ← packHeaders collected with
    | none => return false
    | some packed =>
      return 0 ≤ (← engine (.addResponseHeaders collected packed (cInt packed.length) (cInt collected.length)))

/-- detach the collector and submit what it holds, in bulk or one by one -/
def flushResponseHeaders : Handler ℤ Unit := do
  match (← get).ctx.respHdrCollect with
  | none => pure ()
  | some collected =>
    modify fun s => s.setCtx { s.ctx with respHdrCollect := none }
    let bulkOk ← bulkResponseHeaders collected
    when (!bulkOk) do
      forEach collected fun p => do
        let rc ← addResponseHeader p
        when (rc ≠ ngxOk) do exit rc

/-! ## The filter -/

/-- ASCII lower case, as `ngx_strncasecmp` folds it -/
def lower (c : UInt8) : UInt8 := if 65 ≤ c ∧ c ≤ 90 then c ||| 0x20 else c

/-- `ngx_http_coraza_is_sse_response` on the content type -/
def isSseResponse (ct : Bytes) : Bool :=
  let sse := ascii "text/event-stream"
  if ct.length < sse.length then false
  else if (ct.take sse.length).map lower ≠ sse then false
  else match (ct.drop sse.length).find? fun c => !(c = 0x20 || c = 0x09) with
    | some c => c = 0x3b
    | none => true

/-- the protocol version reported for the response -/
def httpResponseVer (version : ℕ) : Bytes :=
  if version = ngxHttpVersion30 then ascii "HTTP/3.0"
  else if version = ngxHttpVersion20 then ascii "HTTP/2.0"
  else ascii "HTTP/1.1"

/-- the condition under which the filter holds the headers back until phase 4 -/
def delaysHeaders (r : Request) : Bool :=
  r.loc.delayResponseHeaders ≠ 0 && r.method ≠ ngxHttpHead && !r.headerOnly && !r.errorPage && r.isMain
    && r.headersOut.status ≠ ngxHttpSwitchingProtocols && !isSseResponse r.headersOut.contentType

/-- evaluate phase 3, learn whether the body is inspected, and poll -/
def processResponseHeaders : Handler ℤ ℤ := do
  let s ← get
  let status := if s.r.errStatus ≠ 0 then s.r.errStatus else s.r.headersOut.status
  let pret ← engine (.processResponseHeaders status (httpResponseVer s.r.httpVersion))
  let processable ← engine .isResponseBodyProcessable
  -- a one-bit field
  modify fun s => s.setCtx { s.ctx with responseBodyProcessable := decide (processable % 2 = 1) }
  pollAfterProcess false pret

/-- start the delay -/
def St.delay (s : St) : St :=
  (s.setR { s.r with filterNeedInMemory := s.r.filterNeedInMemory || s.ctx.responseBodyProcessable }).setCtx
    { s.ctx with headersDelayed := true, pendingChain := [] }

/-- what the filter does with the response once phase 3 has been polled -/
def dispatchHeaders (ret : ℤ) : Handler ℤ Unit := do
  let s ← get
  when (s.r.errorPage) do exit (← nextHeaderFilter)
  when (0 < ret) do
    trigger
    when (isRedirectStatus ret && s.r.headersOut.location.isSome) do
      modify fun s => s.setR (prepareRedirect s.r ret)
      exit (← nextHeaderFilter)
    exit (← filterFinalizeRequest ret)
  when (delaysHeaders s.r) do
    modify St.delay
    exit ngxOk
  exit (← nextHeaderFilter)

/-- `ngx_http_coraza_header_filter` on a request that has a context -/
def headerFilter : Fn := call do
  let s ← get
  when (s.ctx.interventionTriggered) do exit (← nextHeaderFilter)
  when (s.ctx.processed) do exit (← nextHeaderFilter)
  modify fun s => s.setCtx { s.ctx with processed := true }
  let armed ← alloc 512
  modify fun s => s.setCtx { s.ctx with respHdrCollect := if armed then some [] else none }
  submitResponseHeaders
  flushResponseHeaders
  dispatchHeaders (← processResponseHeaders)
  return ngxOk

end CorazaNginx
