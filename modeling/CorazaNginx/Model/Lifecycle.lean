/-
The contexts of one client request, from `ngx_http_coraza_create_ctx` to `ngx_http_coraza_cleanup`, and the handlers as
nginx calls them.

`St` is what a handler sees once it has found a context. `World` is what nginx keeps across handlers: the request, every
context that was ever installed on it, the one installed now, if any (an internal redirect clears the pointer and leaves
the context to the pool), and the cleanups registered on the pool. A handler looks for the context first and has a way
out of its own when there is none; with one, it runs the code of `Model/*` on it (`onCtx`). `Step` is one thing nginx
does with the request. Every handler call has an environment and a request of its own, since nginx, the other modules
and the client do what they like in between.
-/
import Mathlib.Tactic
import CorazaNginx.Model.RequestPhases

namespace CorazaNginx

open CorazaNginx.Core Prog Handler

/-- how far nginx has come with the response; the module does not look at it -/
inductive ResponseStage where
  /-- no header filter has been run -/
  | phases
  /-- the header filters have let the response through -/
  | sending
  /-- a header filter has failed, which makes nginx close the request -/
  | failed
  /-- the LOG phase has begun -/
  | logging
deriving DecidableEq, Repr

/-- one client request as nginx keeps it -/
structure World where
  r : Request
  /-- `mmcf->waf` -/
  mainWaf : ℕ := 0
  /-- the contexts, at their addresses -/
  ctxs : ℕ → Ctx := fun _ => {}
  ctxCount : ℕ := 0
  /-- `r->ctx[ngx_http_coraza_module.ctx_index]` -/
  installed : Option ℕ := none
  /-- the contexts that have `ngx_http_coraza_cleanup` registered on r->pool, the last registered first -/
  cleanups : List ℕ := []
  inn : List Buf := []
  trace : Trace := []
  stage : ResponseStage := .phases

namespace World

def log (w : World) (ev : Event) : World := { w with trace := w.trace ++ [ev] }
def setCtx (w : World) (a : ℕ) (c : Ctx) : World := { w with ctxs := Function.update w.ctxs a c }

/-- what a handler sees of a request whose context is at `a` -/
def view (a : ℕ) (w : World) : St := ⟨w.r, w.ctxs a, w.inn, w.trace⟩

/-- what a handler has made of it -/
def put (a : ℕ) (w : World) (s : St) : World :=
  { w with r := s.r, ctxs := Function.update w.ctxs a s.ctx, inn := s.inn, trace := s.trace }

/-- without a context -/
def bare (w : World) : St := ⟨w.r, {}, w.inn, w.trace⟩

def putBare (w : World) (s : St) : World := { w with r := s.r, inn := s.inn, trace := s.trace }

/-- `mcf->waf`, or the main WAF -/
def waf (w : World) : ℕ := if w.r.loc.waf ≠ 0 then w.r.loc.waf else w.mainWaf

/-- `ngx_http_set_ctx` of a context for the transaction `tx` -/
def install (w : World) (tx : ℕ) : World :=
  { w with
    ctxs := Function.update w.ctxs w.ctxCount { corazaTransaction := tx }
    ctxCount := w.ctxCount + 1
    installed := some w.ctxCount }

end World

/-- code that runs on a request which may have no context -/
abbrev Hook (ρ α : Type) := Prog Env World ρ α

namespace Hook

variable {ρ α : Type}

def invoke (c : Call) : Hook ρ ℤ := fun e w => (.go (e.ret w.trace c), w.log (.call c (e.ret w.trace c)))

/-- run a handler on the context at `a` -/
def onCtx (a : ℕ) (m : Handler ρ α) : Hook ρ α := focus (World.view a) (World.put a) m

/-- run a part of a handler that uses no context -/
def offCtx (m : Handler ρ α) : Hook ρ α := focus World.bare World.putBare m

/-! ## Creating a context -/

/-- a handle from `coraza_new_transaction` or `coraza_new_transaction_with_id`; NULL is 0 -/
def newTransaction (waf : ℕ) (id : Option Bytes) : Hook ρ ℕ := do
  return (← invoke (.newTransaction waf id)).toNat

/-- the transaction id the location asks for; `none` when it could not be evaluated -/
def evaluateId : Hook ρ (Option (Option Bytes)) := do
  let e ← ask
  let w ← get
  if w.r.loc.transactionId then
    let rc ← invoke .complexValue
    return if rc = ngxOk then some (some (e.complexValue w.trace)) else none
  else return some none

/-- keep a copy of the transaction id in the context at `a`; `false` when it could not be allocated -/
def keepId (a : ℕ) : Option Bytes → Hook ρ Bool
  | none => return true
  | some id => do
    let copied ← invoke (.alloc id.length)
    if copied = 0 then return false
    else
      modify fun w => w.setCtx a { w.ctxs a with transactionId := id }
      return true

/-- register `ngx_http_coraza_cleanup` for the context at `a`, or give up its transaction -/
def addCleanup (a : ℕ) : Hook ρ Bool := do
  let cln ← invoke .cleanupAdd
  if cln = 0 then
    let w ← get
    let _ ← invoke (.engine (w.ctxs a).corazaTransaction .freeTransaction)
    modify fun w => w.setCtx a { w.ctxs a with corazaTransaction := 0 }
    return false
  else
    modify fun w => { w with cleanups := a :: w.cleanups }
    return true

/-- `ngx_http_coraza_create_ctx`: the address of the context, `none` for NULL -/
def createCtx : Hook ρ (Option ℕ) := call do
  let ctx ← invoke (.alloc 128)
  when (ctx = 0) do exit none
  let w ← get
  when (w.waf = 0) do exit none
  match ← evaluateId with
  | none => return none
  | some id =>
    let tx ← newTransaction w.waf id
    when (tx = 0) do exit none
    let a := w.ctxCount
    modify fun w => w.install tx
    let registered ← addCleanup a
    when (!registered) do exit none
    let kept ← keepId a id
    when (!kept) do exit none
    return some a

/-! ## The handlers -/

/-- `ngx_http_coraza_rewrite_handler` -/
def rewrite : Hook ℤ ℤ := do
  let w ← get
  when (w.r.loc.enable ≠ 1) do exit ngxDeclined
  match w.installed with
  | some _ => return ngxDeclined
  | none =>
    match ← createCtx with
    | none => return ngxHttpInternalServerError
    | some a => onCtx a rewriteInspect

/-- `ngx_http_coraza_pre_access_handler` -/
def preAccess : Hook ℤ ℤ := do
  let w ← get
  when (w.r.loc.enable ≠ 1) do exit ngxDeclined
  match w.installed with
  | none => return ngxHttpInternalServerError
  | some a => onCtx a preAccessHandler

/-- `ngx_http_coraza_request_read`, as nginx calls it back. It does not ask whether there is a context: without one it
has given the reference back when it reads through NULL. -/
def requestReadBack : Hook ℤ ℤ := do
  let w ← get
  match w.installed with
  | none =>
    offCtx do
      modify fun s => s.setR s.r.release
      let _ ← Handler.invoke .nullContext
    return ngxOk
  | some a =>
    onCtx a requestRead
    return ngxOk

/-- `ngx_http_coraza_header_filter` -/
def header : Hook ℤ ℤ := do
  let w ← get
  match w.installed with
  | none => offCtx nextHeaderFilter
  | some a => onCtx a headerFilter

/-- `ngx_http_coraza_body_filter` on the chain `inn` -/
def body (inn : List Buf) : Hook ℤ ℤ := do
  let w ← get
  match w.installed with
  | none => offCtx do
    modify fun s => s.setInn inn
    nextBodyFilter (inLinks inn)
  | some a => onCtx a (bodyFilter inn)

/-- `ngx_http_coraza_log_handler` -/
def logPhase : Hook ℤ ℤ := do
  let w ← get
  match w.installed with
  | none => return ngxOk
  | some a => onCtx a logHandler

/-- `ngx_http_coraza_cleanup`: log what has not been logged, and free the transaction -/
def cleanup (a : ℕ) : Hook ρ Unit := onCtx a do
  let s ← get
  when (!s.ctx.logged) do
    let _ ← engine .processLogging
    modify fun s => s.setCtx { s.ctx with logged := true }
  let _ ← engine .freeTransaction

end Hook

/-! ## Runs -/

/-- the handlers nginx calls on a request -/
inductive Callback where
  | rewrite
  | preAccess
  | requestRead
  | header
  | body (inn : List Buf)
  | log
deriving DecidableEq

def Callback.code : Callback → Hook ℤ ℤ
  | .rewrite => Hook.rewrite
  | .preAccess => Hook.preAccess
  | .requestRead => Hook.requestReadBack
  | .header => Hook.header
  | .body inn => Hook.body inn
  | .log => Hook.logPhase

/-- one thing nginx does with the request: call a handler, in the environment `e` and on the request as it is then, or
clear r->ctx, as an internal redirect does and a filter finalize of another module. Where nginx calls handlers out of a
handler (finalizing the request is the last thing a filter does), their calls come behind it. -/
inductive Step where
  | call (callback : Callback) (e : Env) (r : Request)
  | clearCtx

/-- the world when the handler is called -/
def World.setR (w : World) (r : Request) : World := { w with r := r }

/-- the events of a handler call -/
def World.events (w : World) (callback : Callback) (e : Env) (r : Request) : Trace :=
  (callback.code.run e (w.setR r)).2.trace.drop w.trace.length

theorem World.events_eq {w : World} {callback : Callback} {e : Env} {r : Request} {evs : Trace}
    (htr : (callback.code.run e (w.setR r)).2.trace = w.trace ++ evs) : w.events callback e r = evs := by
  rw [World.events, htr, List.drop_left]

/-- the response behind a handler call that answered `rc` and made `evs`; a request that was finalized starts over -/
def Callback.stage (rc : ℤ) (evs : Trace) (p : ResponseStage) : Callback → ResponseStage
  | .rewrite => .phases
  | .header =>
    if rc = ngxError then
      if evs.any fun | .call (.finalizeRequest _) _ => true | _ => false then .phases else .failed
    else .sending
  | .log => .logging
  | _ => p

def World.next (w : World) : Step → World
  | .call callback e r => { (callback.code.run e (w.setR r)).2 with
      stage := callback.stage (callback.code.run e (w.setR r)).1 (w.events callback e r) w.stage }
  | .clearCtx => { w with installed := none, stage := .phases }

def World.run (w : World) (steps : List Step) : World := steps.foldl World.next w

/-- `ngx_destroy_pool` runs the cleanups, the last registered first -/
def World.destroyed (w : World) (e : Env) : World := ((forEach w.cleanups Hook.cleanup : Hook Unit Unit).run e w).2

/-- a request as nginx has just accepted it -/
def World.start (r : Request) (mainWaf : ℕ) : World := { r := r, mainWaf := mainWaf }

end CorazaNginx
