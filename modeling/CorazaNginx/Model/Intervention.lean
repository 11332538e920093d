/-
Polling the engine and acting on an interruption (`ngx_http_coraza_module.c`, `ngx_http_coraza_log.c`,
`ngx_http_coraza_common.h`).

`processIntervention` overloads one integer: NGX_OK for no interruption, NGX_ERROR once the headers are out, else the
status the engine reports, whatever it is. `interventionRc` is that integer as a function of what the engine answered.
-/
import Mathlib.Tactic
import CorazaNginx.Model.World

namespace CorazaNginx

open CorazaNginx.Core Prog Handler

/-- the bytes of an ASCII text -/
def ascii (s : String) : Bytes := s.toList.map fun c => UInt8.ofNat c.toNat

/-- the value of the enumerator CORAZA_INTERRUPTION -/
@[simp] abbrev corazaInterruption : ℤ := 1

/-- what `ngx_http_coraza_process_intervention` returns for the engine's answer -/
def interventionRc (headerSent : Bool) : Option Intervention → ℤ
  | none => ngxOk
  | some iv => if iv.status = 200 then ngxOk else if headerSent then ngxError else iv.status

/-- `coraza_intervention` -/
def pollEngine {ρ : Type} : Handler ρ (Option Intervention) := fun e s =>
  (.go (e.intervention s.trace), s.log (.poll s.ctx.corazaTransaction s.r.headerSent (e.intervention s.trace)))

@[simp] theorem wp_pollEngine {ρ : Type} {Q : Option Intervention → St → Prop} {E : ρ → St → Prop} {e : Env} {s : St} :
    wp (pollEngine : Handler ρ (Option Intervention)) Q E e s ↔
      Q (e.intervention s.trace)
        (s.log (.poll s.ctx.corazaTransaction s.r.headerSent (e.intervention s.trace))) := Iff.rfl

/-- `ngx_http_coraza_log_handler` on a request that has a context -/
def logHandler : Fn := call do
  let s ← get
  when (s.r.loc.enable ≠ 1) do exit ngxOk
  when s.ctx.logged do exit ngxOk
  let _ ← engine .processLogging
  modify fun s => s.setCtx { s.ctx with logged := true }
  return ngxOk

/-- the statuses for which an interruption's data is a redirect target; also `ngx_http_coraza_is_redirect_status` -/
def isRedirectStatus (status : ℤ) : Bool :=
  status = ngxHttpMovedPermanently || status = ngxHttpMovedTemporarily || status = ngxHttpSeeOther
    || status = ngxHttpTemporaryRedirect || status = ngxHttpPermanentRedirect

/-- the redirect target cut at its first control byte -/
def safeLocation (data : Bytes) : Bytes := data.takeWhile fun c => 0x20 ≤ c && c ≠ 0x7f

/-- `ngx_list_push` of a Location entry that is not live yet -/
def HeadersOut.pushLocation (h : HeadersOut) : HeadersOut :=
  { h with headers := h.headers.push ⟨0, ascii "Location", []⟩ }

/-- fill the entry at address `i` and make it the Location -/
def HeadersOut.setLocation (h : HeadersOut) (i : ℕ) (value : Bytes) : HeadersOut :=
  { h with headers := h.headers.modify i fun x => { x with hash := 1, value := value }, location := some i }

/-- push a Location entry; it goes live only when the copy of its value could be allocated -/
def installLocation {ρ : Type} (data : Bytes) : Handler ρ Unit := do
  let pushed ← alloc 1
  when pushed do
    let s ← get
    modify fun s => s.setR (s.r.setHeadersOut s.r.headersOut.pushLocation)
    let copied ← alloc (safeLocation data).length
    when copied do
      modify fun t => t.setR (t.r.setHeadersOut
        (t.r.headersOut.setLocation s.r.headersOut.headers.toList.length (safeLocation data)))

/-- the redirect target of an interruption, if it has one -/
def redirectTarget (iv : Intervention) : Option Bytes := if isRedirectStatus iv.status then iv.data else none

def installRedirect {ρ : Type} (iv : Intervention) : Handler ρ Unit :=
  match redirectTarget iv with
  | some data => installLocation data
  | none => pure ()

/-- act on an interruption with a status other than 200 -/
def enforceIntervention (earlyLog : Bool) (iv : Intervention) : Handler ℤ ℤ := do
  let _ ← engine (.updateStatusCode iv.status)
  when earlyLog do
    let _ ← logHandler
    modify fun s => s.setCtx { s.ctx with logged := true }
  let s ← get
  when s.r.headerSent do exit ngxError
  installRedirect iv
  return iv.status

/-- `ngx_http_coraza_process_intervention`; every caller passes the request's own context, so `ctx` is never NULL -/
def processIntervention (earlyLog : Bool) : Fn := call do
  match ← pollEngine with
  | none => return ngxOk
  | some iv => if iv.status = 200 then return ngxOk else enforceIntervention earlyLog iv

/-- `ngx_http_coraza_process_body_failed` -/
def processBodyFailed (ret : ℤ) : Bool := ret < 0

/-- `ngx_http_coraza_poll_after_process` -/
def pollAfterProcess (earlyLog : Bool) (pret : ℤ) : Fn := call do
  when (pret < 0) do exit ngxHttpInternalServerError
  when (pret ≠ corazaInterruption) do exit ngxOk
  processIntervention earlyLog

end CorazaNginx
