/-
The two request phase handlers: `ngx_http_coraza_rewrite.c` (connection, URI, request headers, phase 1) and
`ngx_http_coraza_pre_access.c` (request body, phase 2).

The pre-access handler is re-entered: reading the body may suspend the request, and nginx may run the phase again. What
it has done is in four flags of the context (`waitingMoreBody`, `bodyRequested`, `bodySubmitted`,
`interventionTriggered`); `requestRead` is the callback that ends a suspension.
-/
import Mathlib.Tactic
import CorazaNginx.Model.HeaderFilter

namespace CorazaNginx

open CorazaNginx.Core Prog Handler

/-- the branch on a poll's result, the same at every poll of the two phase handlers except the one in the file loop -/
def afterPhasePoll (ret : ℤ) : Handler ℤ Unit := do
  let s ← get
  when (s.r.errorPage) do exit ngxDeclined
  when (ret < 0) do
    trigger
    exit ngxHttpInternalServerError
  when (0 < ret) do
    trigger
    exit ret

/-! ## Rewrite -/

/-- the protocol version reported for the request -/
def httpRequestVer (version : ℕ) : Bytes :=
  if version = ngxHttpVersion9 then ascii "HTTP/0.9"
  else if version = ngxHttpVersion10 then ascii "HTTP/1.0"
  else if version = ngxHttpVersion11 then ascii "HTTP/1.1"
  else if version = ngxHttpVersion20 then ascii "HTTP/2.0"
  else if version = ngxHttpVersion30 then ascii "HTTP/3.0"
  else ascii "HTTP/1.0"

/-- the counting pass over the request headers -/
def countLive (l : List TableElt) : ℕ := l.countP fun e => e.hash ≠ 0

/-- the filling pass over the request headers -/
def livePairs (l : List TableElt) : List HeaderPair :=
  (l.zipIdx.filter fun x => x.1.hash ≠ 0).map fun x => ⟨x.1.key, x.1.value, some x.2⟩

/-- the bulk submission: `bulk_done` -/
def bulkRequestHeaders {ρ : Type} : Handler ρ Bool := call do
  let s ← get
  let headers := s.r.headersIn.toList
  when (countLive headers = 0) do exit true
  when (!(← alloc (countLive headers * 32))) do exit false
  let pairs := livePairs headers
  match ← packHeaders pairs with
  | none => return false
  | some packed =>
    return 0 ≤ (← engine (.addRequestHeaders pairs packed (cInt packed.length) (cInt pairs.length)))

/-- one iteration of the per-header loop; the engine's answer is not looked at -/
def submitRequestHeader (x : TableElt × ℕ) : Handler ℤ Unit := do
  if x.1.hash = 0 then pure ()
  else
    when (intMax < x.1.key.length ∨ intMax < x.1.value.length) do
      trigger
      exit ngxHttpInternalServerError
    let _ ← engine (.addRequestHeader ⟨x.1.key, x.1.value, some x.2⟩ (cInt x.1.key.length) (cInt x.1.value.length))

/-- `ngx_str_to_char` -/
def strToChar {ρ : Type} (a : Bytes) : Handler ρ Bool := alloc (a.length + 1)

/-- `ngx_http_coraza_rewrite_handler` from the point where the context has been created -/
def rewriteInspect : Fn := call do
  let s ← get
  let c := s.r.connection
  when (!c.unix) do
    when (!(← strToChar c.addrText)) do exit ngxHttpInternalServerError
  when ((← invoke .localSockaddr) ≠ ngxOk) do exit ngxHttpInternalServerError
  when (!c.localUnix) do
    when (!(← strToChar c.localAddr)) do exit ngxHttpInternalServerError
  let _ ← engine (.processConnection (if c.unix then ascii "unix" else c.addrText) (if c.unix then 0 else c.port)
    (if c.localUnix then ascii "unix" else c.localAddr) (if c.localUnix then 0 else c.localPort))
  when (!(← strToChar s.r.unparsedUri)) do exit ngxHttpInternalServerError
  when (!(← strToChar s.r.methodName)) do exit ngxHttpInternalServerError
  let _ ← engine (.processUri s.r.unparsedUri s.r.methodName (httpRequestVer s.r.httpVersion))
  let bulkDone ← bulkRequestHeaders
  when (!bulkDone) do
    forEach s.r.headersIn.toList.zipIdx submitRequestHeader
  let pret ← engine .processRequestHeaders
  afterPhasePoll (← pollAfterProcess true pret)
  return ngxDeclined

/-! ## Pre-access -/

/-- NGX_HTTP_CORAZA_REQUEST_BODY_FILE_CHUNK_SIZE -/
def requestBodyFileChunkSize : ℕ := 64 * 1024

/-- `r->main->count--` -/
def Request.release (r : Request) : Request := { r with count := r.count - 1 }

@[simp] theorem Request.release_requestBody (r : Request) : r.release.requestBody = r.requestBody := rfl
@[simp] theorem Request.release_errorPage (r : Request) : r.release.errorPage = r.errorPage := rfl

/-- `ngx_http_coraza_request_read`; the phase run it starts is the next invocation of the handler -/
def requestRead {ρ : Type} : Handler ρ Unit := do
  modify fun s => s.setR s.r.release
  let s ← get
  when s.ctx.waitingMoreBody do
    modify fun s => s.setCtx { s.ctx with waitingMoreBody := false }
    let _ ← invoke .runPhases

/-- the request as `ngx_http_read_client_request_body` leaves it, having answered `rc`: it keeps a reference on r->main
for the callback, except where it refuses the request -/
def Request.bodyRead (r : Request) (e : Env) (rc : ℤ) : Request :=
  { r with
    requestBody := e.requestBody r
    count := if ngxHttpSpecialResponse ≤ rc then r.count else r.count + 1 }

@[simp] theorem Request.bodyRead_requestBody (r : Request) (e : Env) (rc : ℤ) :
    (r.bodyRead e rc).requestBody = e.requestBody r := rfl
@[simp] theorem Request.bodyRead_errorPage (r : Request) (e : Env) (rc : ℤ) :
    (r.bodyRead e rc).errorPage = r.errorPage := rfl

/-- `ngx_http_read_client_request_body`: it calls the handler itself when the whole body is already there -/
def readClientRequestBody {ρ : Type} : Handler ρ ℤ := do
  let e ← ask
  let rc ← invoke .readClientRequestBody
  modify fun s => s.setR (s.r.bodyRead e rc)
  when (rc = ngxOk) requestRead
  return rc

/-- `ngx_http_coraza_process_request_body_phase` -/
def processRequestBodyPhase : Fn := call do
  let pret ← engine .processRequestBody
  when (processBodyFailed pret) do
    trigger
    exit ngxHttpInternalServerError
  afterPhasePoll (← pollAfterProcess false pret)
  return ngxDeclined

/-- the poll between two chunks of a file: `some rc` leaves the loop with `rc` -/
def pollChunk {ρ : Type} : Handler ρ (Option ℤ) := call do
  let ret ← processIntervention false
  let s ← get
  when (s.r.errorPage) do exit (some ngxDeclined)
  when (ret < 0) do exit (some ngxHttpInternalServerError)
  when (0 < ret) do
    trigger
    exit (some ret)
  return none

/-- the poll before the chunk at `offset`, if there is one -/
def pollBefore {ρ : Type} (t : TempFile) (offset : ℤ) : Handler ρ (Option ℤ) :=
  if offset < t.offset then pollChunk else pure none

/-- the loop of `ngx_http_coraza_append_request_body_file`: its `rc` at `done` -/
def requestFileLoop {ρ : Type} (t : TempFile) (offset : ℤ) : Handler ρ ℤ :=
  if _h : offset < t.offset then do
    match ← readFile (min (t.offset - offset).toNat requestBodyFileChunkSize) offset with
    | .error => return ngxHttpInternalServerError
    | .bytes n _ =>
      if _hn : n = 0 then return ngxHttpInternalServerError
      else do
        let e ← ask
        let ret ← engine (.appendRequestBody (e.content.range true t.file.id offset n) (cInt n))
        if ret ≠ 0 then return ngxHttpInternalServerError
        else do
          match ← pollBefore t (offset + n) with
          | some rc => return rc
          | none => requestFileLoop t (offset + n)
  else return ngxOk
termination_by (t.offset - offset).toNat

/-- `ngx_http_coraza_append_request_body_file` -/
def appendRequestBodyFile (t : TempFile) : Fn := call do
  when (t.offset = 0) do exit ngxOk
  when (t.offset < 0) do
    trigger
    exit ngxHttpInternalServerError
  when ((← invoke .openFile) < 0) do
    trigger
    exit ngxHttpInternalServerError
  let rc ← requestFileLoop t 0
  let _ ← invoke .closeFile
  when (rc ≠ ngxOk ∧ rc ≠ ngxDeclined) trigger
  return rc

/-- the loop over an in-memory body -/
def appendChain : List Buf → Handler ℤ Unit
  | [] => pure ()
  | b :: chain => do
    let e ← ask
    let blen := sizeT (b.last - b.pos)
    when (intMax < blen) do
      trigger
      exit ngxHttpInternalServerError
    when (0 < blen) do
      let ret ← engine (.appendRequestBody (b.memBytes e.content) (cInt blen))
      when (ret ≠ 0) do
        trigger
        exit ngxHttpInternalServerError
    if b.lastBuf then pure ()
    else
      afterPhasePoll (← processIntervention false)
      appendChain chain

/-- submit the body, from the temp file if it was spilled, else from memory -/
def appendBody (rb : RequestBody) : Handler ℤ Unit :=
  match rb.tempFile with
  | some t => do
    let rc ← appendRequestBodyFile t
    when (rc ≠ ngxOk) do exit rc
  | none => appendChain rb.bufs

/-- submit the body and evaluate phase 2 -/
def submitRequestBody : Handler ℤ Unit := do
  match (← get).r.requestBody with
  | none => exit ngxDeclined
  | some rb =>
    modify fun s => s.setCtx { s.ctx with bodySubmitted := true }
    appendBody rb
    afterPhasePoll (← processIntervention false)
    exit (← processRequestBodyPhase)

/-- ask nginx for the body, once per context; an access-off transaction goes straight to phase 2 -/
def requestBodyAccess : Handler ℤ Unit := do
  let accessible ← engine .isRequestBodyAccessible
  when (accessible = 0) do exit (← processRequestBodyPhase)
  modify fun s => (s.setCtx { s.ctx with bodyRequested := true }).setR { s.r with
    requestBodyInPersistentFile := true
    requestBodyInCleanFile := s.r.requestBodyInCleanFile || !s.r.requestBodyInFileOnly }
  let rc ← readClientRequestBody
  when (rc = ngxError ∨ ngxHttpSpecialResponse ≤ rc) do exit rc
  when (rc = ngxAgain) do
    modify fun s => s.setCtx { s.ctx with waitingMoreBody := true }
    exit ngxDone

/-- `ngx_http_coraza_pre_access_handler` on a request that has a context -/
def preAccessHandler : Fn := call do
  let s ← get
  when (s.r.loc.enable ≠ 1) do exit ngxDeclined
  when s.ctx.interventionTriggered do exit ngxDeclined
  when s.ctx.waitingMoreBody do exit ngxDone
  when (!s.ctx.bodyRequested) requestBodyAccess
  let s ← get
  when (!s.ctx.waitingMoreBody && !s.ctx.bodySubmitted) submitRequestBody
  return ngxDeclined

end CorazaNginx
