/-
The module's per-request context, the calls it makes out of its own code, and the state its handlers run on.

Everything outside the module's source (libcoraza, the nginx core, the filters further down, the allocator, files) is a
`Call` with its arguments. `Env.ret` answers a call from the whole history of calls before it, so quantifying over `Env`
quantifies over every behaviour of the engine and of nginx. Each call is appended to `trace` with its answer as an
`Event`; the results about what is called, in which order and with which bytes are statements about `trace`. A poll
(`coraza_intervention`) is an event of its own and also records whether the headers were out, on which
`ngx_http_coraza_process_intervention` makes its return code depend.
`St` is what a handler sees once `ngx_http_get_module_ctx` has found a context: the request, that context, the buffers
of the chain in hand (the filters mark them consumed in place) and the trace.
-/
import Mathlib.Tactic
import CorazaNginx.Core.Prog
import CorazaNginx.Model.Nginx

namespace CorazaNginx

open CorazaNginx.Core

/-- a link of `pending_chain`: a buffer the module made, or the i-th buffer of the chain in hand itself -/
inductive Link where
  | own (b : Buf)
  | input (i : ℕ)
deriving DecidableEq, Repr

/-- `ngx_http_coraza_header_t`; `src` is the address of the header-list entry the pair stands for, if there is one -/
structure HeaderPair where
  name : Bytes
  value : Bytes
  src : Option ℕ := none
deriving DecidableEq, Repr

/-- `ngx_http_coraza_ctx_t`. `pending_chain_last` is the end of the list `pendingChain`. -/
structure Ctx where
  corazaTransaction : ℕ := 0
  transactionId : Bytes := []
  pendingChain : List Link := []
  pendingBytes : ℕ := 0
  respHdrCollect : Option (List HeaderPair) := none
  waitingMoreBody : Bool := false
  bodyRequested : Bool := false
  bodySubmitted : Bool := false
  processed : Bool := false
  logged : Bool := false
  interventionTriggered : Bool := false
  headersDelayed : Bool := false
  responseBodyProcessable : Bool := false
deriving DecidableEq, Repr

/-- `coraza_intervention_t`; `data` is a C string -/
structure Intervention where
  status : ℤ
  data : Option Bytes := none
deriving DecidableEq, Repr

/-- a buffer as the next body filter receives it; `input` is its position in the chain in hand when it is one of
those -/
structure Handed where
  buf : Buf
  bytes : Bytes
  input : Option ℕ := none
deriving DecidableEq, Repr

/-- what `ngx_read_file` answers when asked for `size` bytes: NGX_ERROR, or the number of bytes read -/
inductive ReadResult (size : ℕ) where
  | error
  | bytes (n : ℕ) (le : n ≤ size)

def ReadResult.of (size : ℕ) (ret : ℤ) : ReadResult size :=
  if ret < 0 then .error else .bytes (min ret.toNat size) (min_le_right _ _)

theorem ReadResult.of_error {size : ℕ} {ret : ℤ} (h : ReadResult.of size ret = .error) : ret < 0 := by
  unfold ReadResult.of at h
  split_ifs at h with hr
  exact hr

theorem ReadResult.of_bytes {size n : ℕ} {ret : ℤ} {le : n ≤ size} (h : ReadResult.of size ret = .bytes n le) :
    0 ≤ ret ∧ n = min ret.toNat size := by
  unfold ReadResult.of at h
  split_ifs at h with hr
  cases h
  exact ⟨by omega, rfl⟩

/-- the bytes of a read that returned some: the event did not fail -/
theorem ReadResult.of_pos {size n : ℕ} {ret : ℤ} {le : n ≤ size} (h : ReadResult.of size ret = .bytes n le)
    (hn : n ≠ 0) : 0 < ret := by
  obtain ⟨h0, rfl⟩ := ReadResult.of_bytes h
  omega

/-- an empty read of a non-empty range is a failure -/
theorem ReadResult.of_zero {size : ℕ} {ret : ℤ} {le : 0 ≤ size} (h : ReadResult.of size ret = .bytes 0 le)
    (hs : size ≠ 0) : ret ≤ 0 := by
  obtain ⟨h0, h1⟩ := ReadResult.of_bytes h
  omega

/-! ## Calls and events -/

/-- the coraza_* functions that take a transaction; the bulk calls also record the pairs that were packed -/
inductive EngineCall where
  | processConnection (clientAddr : Bytes) (clientPort : ℕ) (serverAddr : Bytes) (serverPort : ℕ)
  | processUri (uri method httpVersion : Bytes)
  | addRequestHeaders (pairs : List HeaderPair) (packed : Bytes) (packedLen count : ℤ)
  | addRequestHeader (pair : HeaderPair) (nameLen valueLen : ℤ)
  | processRequestHeaders
  | isRequestBodyAccessible
  | appendRequestBody (data : Bytes) (len : ℤ)
  | processRequestBody
  | addResponseHeaders (pairs : List HeaderPair) (packed : Bytes) (packedLen count : ℤ)
  | addResponseHeader (pair : HeaderPair) (nameLen valueLen : ℤ)
  | processResponseHeaders (status : ℤ) (version : Bytes)
  | isResponseBodyProcessable
  | appendResponseBody (data : Bytes) (len : ℤ)
  | processResponseBody
  | updateStatusCode (status : ℤ)
  | processLogging
  | freeTransaction
deriving DecidableEq, Repr

inductive Call where
  | engine (tx : ℕ) (c : EngineCall)
  /-- `coraza_new_transaction` or `coraza_new_transaction_with_id`: the answer is the handle -/
  | newTransaction (waf : ℕ) (id : Option Bytes)
  | complexValue
  | alloc (size : ℕ)
  | cleanupAdd
  | localSockaddr
  | openFile
  | closeFile
  | readFile (size : ℕ) (offset : ℤ)
  | directioOff
  | directioOn
  | freeScratch
  | readClientRequestBody
  | runPhases
  | nextHeader (h : HeadersOut) (headerOnly : Bool)
  | nextBody (out : List Handed)
  | finalizeRequest (status : ℤ)
  /-- a read through a NULL context, which ends the worker: no real run goes on behind it -/
  | nullContext
deriving DecidableEq

inductive Event where
  | call (c : Call) (ret : ℤ)
  /-- `coraza_intervention(tx)` answered `iv` while `r->header_sent` was `sent` -/
  | poll (tx : ℕ) (sent : Bool) (iv : Option Intervention)
deriving DecidableEq

abbrev Trace := List Event

/-- everything outside the module's source -/
structure Env where
  ret : Trace → Call → ℤ
  intervention : Trace → Option Intervention
  complexValue : Trace → Bytes
  content : Content
  /-- `r->header_only` as the next header filter leaves it -/
  headerOnly : Request → Bool
  /-- `r->header_sent` as the next header filter leaves it -/
  headerSent : Request → Bool
  /-- the request as `ngx_http_filter_finalize_request` leaves it -/
  finalized : Request → Request
  /-- the request body as `ngx_http_read_client_request_body` leaves it -/
  requestBody : Request → Option RequestBody
  httpTime : ℤ → Bytes
  cachedHttpTime : Bytes
  nginxVer : Bytes

/-- an environment in which nothing fails and the engine has no objection, over the given content -/
def Env.calm (c : Content) : Env where
  ret := fun _ call => match call with
    | .alloc _ => 1
    | .readFile size _ => size
    | _ => 0
  intervention := fun _ => none
  complexValue := fun _ => []
  content := c
  headerOnly := Request.headerOnly
  headerSent := fun _ => true
  finalized := id
  requestBody := Request.requestBody
  httpTime := fun _ => []
  cachedHttpTime := []
  nginxVer := []

/-- memory and temp files full of `x` -/
def Content.fill (x : UInt8) : Content := ⟨fun _ => x, fun _ _ => 0, fun _ _ => x⟩

/-! ## State -/

structure St where
  r : Request
  ctx : Ctx
  /-- the buffers of the chain in hand -/
  inn : List Buf := []
  trace : Trace := []

namespace St

def log (s : St) (ev : Event) : St := { s with trace := s.trace ++ [ev] }
def setCtx (s : St) (c : Ctx) : St := { s with ctx := c }
def setR (s : St) (r : Request) : St := { s with r := r }
def setInn (s : St) (l : List Buf) : St := { s with inn := l }
/-- `ctx->intervention_triggered = 1` -/
def trigger (s : St) : St := s.setCtx { s.ctx with interventionTriggered := true }
/-- append a stretch of events -/
def logs (s : St) (evs : Trace) : St := { s with trace := s.trace ++ evs }

variable (s : St)

@[simp] theorem logs_r (evs : Trace) : (s.logs evs).r = s.r := rfl
@[simp] theorem logs_ctx (evs : Trace) : (s.logs evs).ctx = s.ctx := rfl
@[simp] theorem logs_inn (evs : Trace) : (s.logs evs).inn = s.inn := rfl
@[simp] theorem logs_trace (evs : Trace) : (s.logs evs).trace = s.trace ++ evs := rfl
@[simp] theorem logs_nil : s.logs [] = s := by simp [logs]
@[simp] theorem logs_logs (a b : Trace) : (s.logs a).logs b = s.logs (a ++ b) := by simp [logs]
theorem log_eq (ev : Event) : s.log ev = s.logs [ev] := rfl
theorem log_logs (a : Event) (evs : Trace) : (s.log a).logs evs = s.logs ([a] ++ evs) := logs_logs s [a] evs
theorem log_log (a b : Event) : (s.log a).log b = s.logs ([a] ++ [b]) := logs_logs s [a] [b]
theorem log_log_logs (a b : Event) (evs : Trace) : ((s.log a).log b).logs evs = s.logs ([a] ++ [b] ++ evs) := by
  rw [log_log, logs_logs]
@[simp] theorem logs_log (a : Trace) (ev : Event) : (s.logs a).log ev = s.logs (a ++ [ev]) := by simp [logs, log]

@[simp] theorem log_r (ev : Event) : (s.log ev).r = s.r := rfl
@[simp] theorem log_ctx (ev : Event) : (s.log ev).ctx = s.ctx := rfl
@[simp] theorem log_inn (ev : Event) : (s.log ev).inn = s.inn := rfl
@[simp] theorem log_trace (ev : Event) : (s.log ev).trace = s.trace ++ [ev] := rfl
@[simp] theorem setCtx_r (c : Ctx) : (s.setCtx c).r = s.r := rfl
@[simp] theorem setCtx_ctx (c : Ctx) : (s.setCtx c).ctx = c := rfl
@[simp] theorem setCtx_inn (c : Ctx) : (s.setCtx c).inn = s.inn := rfl
@[simp] theorem setCtx_trace (c : Ctx) : (s.setCtx c).trace = s.trace := rfl
@[simp] theorem setR_r (r : Request) : (s.setR r).r = r := rfl
@[simp] theorem setR_ctx (r : Request) : (s.setR r).ctx = s.ctx := rfl
@[simp] theorem setR_inn (r : Request) : (s.setR r).inn = s.inn := rfl
@[simp] theorem setR_trace (r : Request) : (s.setR r).trace = s.trace := rfl
@[simp] theorem setInn_r (l : List Buf) : (s.setInn l).r = s.r := rfl
@[simp] theorem setInn_ctx (l : List Buf) : (s.setInn l).ctx = s.ctx := rfl
@[simp] theorem setInn_trace (l : List Buf) : (s.setInn l).trace = s.trace := rfl
@[simp] theorem trigger_r : s.trigger.r = s.r := rfl
@[simp] theorem trigger_ctx : s.trigger.ctx = { s.ctx with interventionTriggered := true } := rfl
@[simp] theorem trigger_inn : s.trigger.inn = s.inn := rfl
@[simp] theorem trigger_trace : s.trigger.trace = s.trace := rfl

end St

/-- a block of a handler; `ρ` is what the enclosing function returns -/
abbrev Handler (ρ α : Type) := Prog Env St ρ α

/-- a C function returning `ngx_int_t`, called from any other -/
abbrev Fn := ∀ {ρ : Type}, Handler ρ ℤ

namespace Handler

open Prog

variable {ρ : Type}

/-- call out: the answer comes from the environment and both are recorded -/
def invoke (c : Call) : Handler ρ ℤ := fun e s => (.go (e.ret s.trace c), s.log (.call c (e.ret s.trace c)))

/-- a coraza_* call on this context's transaction -/
def engine (c : EngineCall) : Handler ρ ℤ := do
  let s ← get
  invoke (.engine s.ctx.corazaTransaction c)

/-- an allocation: `true` is a non-NULL result -/
def alloc (size : ℕ) : Handler ρ Bool := do
  return (← invoke (.alloc size)) ≠ 0

def readFile (size : ℕ) (offset : ℤ) : Handler ρ (ReadResult size) := do
  return .of size (← invoke (.readFile size offset))

/-- `ctx->intervention_triggered = 1` -/
def trigger : Handler ρ Unit := modify St.trigger

variable {α : Type} {Q : α → St → Prop} {E : ρ → St → Prop} {e : Env} {s : St}

@[simp] theorem wp_invoke (c : Call) {Q : ℤ → St → Prop} :
    wp (invoke c : Handler ρ ℤ) Q E e s ↔ Q (e.ret s.trace c) (s.log (.call c (e.ret s.trace c))) := Iff.rfl

@[simp] theorem wp_engine (c : EngineCall) {Q : ℤ → St → Prop} :
    wp (engine c : Handler ρ ℤ) Q E e s ↔
      Q (e.ret s.trace (.engine s.ctx.corazaTransaction c))
        (s.log (.call (.engine s.ctx.corazaTransaction c) (e.ret s.trace (.engine s.ctx.corazaTransaction c)))) :=
  Iff.rfl

@[simp] theorem wp_alloc (n : ℕ) {Q : Bool → St → Prop} :
    wp (alloc n : Handler ρ Bool) Q E e s ↔
      Q (decide (e.ret s.trace (.alloc n) ≠ 0)) (s.log (.call (.alloc n) (e.ret s.trace (.alloc n)))) := Iff.rfl

@[simp] theorem wp_readFile (n : ℕ) (o : ℤ) {Q : ReadResult n → St → Prop} :
    wp (readFile n o : Handler ρ (ReadResult n)) Q E e s ↔
      Q (.of n (e.ret s.trace (.readFile n o))) (s.log (.call (.readFile n o) (e.ret s.trace (.readFile n o)))) :=
  Iff.rfl

@[simp] theorem wp_trigger {Q : Unit → St → Prop} : wp (trigger : Handler ρ Unit) Q E e s ↔ Q () s.trigger := Iff.rfl

end Handler

end CorazaNginx
