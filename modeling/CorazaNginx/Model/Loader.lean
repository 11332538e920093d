/-
Loading libcoraza (`ngx_http_coraza_dl.c`, `dynlib.h`).

The module is not linked against the engine. Each worker loads it, resolves every function that the module calls, and
keeps what it has resolved in static pointers (`Slot`); the module's calls go through wrappers that follow them.
`Library` is what `dynlib_open` finds at some moment: what it exports, and the version it reports. A process may try
more than once, and find another library each time.
-/
import Mathlib.Tactic
import CorazaNginx.Core.Prog
import CorazaNginx.Model.Nginx

namespace CorazaNginx.Dl

open CorazaNginx.Core Prog

/-- the functions that coraza.h declares and the module needs -/
inductive Symbol where
  | corazaNewWafConfig
  | corazaRulesAdd
  | corazaRulesAddFile
  | corazaFreeWafConfig
  | corazaNewWaf
  | corazaFreeWaf
  | corazaFreeString
  | corazaRulesCount
  | corazaNewTransaction
  | corazaNewTransactionWithId
  | corazaFreeTransaction
  | corazaIntervention
  | corazaFreeIntervention
  | corazaProcessConnection
  | corazaProcessUri
  | corazaAddRequestHeader
  | corazaProcessRequestHeaders
  | corazaAppendRequestBody
  | corazaProcessRequestBody
  | corazaIsRequestBodyAccessible
  | corazaAddResponseHeader
  | corazaAppendResponseBody
  | corazaProcessResponseBody
  | corazaProcessResponseHeaders
  | corazaProcessLogging
  | corazaUpdateStatusCode
  | corazaIsResponseBodyProcessable
  | corazaAddRequestHeaders
  | corazaAddResponseHeaders
  | corazaVersionNum
deriving DecidableEq, Repr

/-- the static function pointers -/
inductive Slot where
  | dlNewWafConfig
  | dlRulesAdd
  | dlRulesAddFile
  | dlFreeWafConfig
  | dlNewWaf
  | dlFreeWaf
  | dlFreeString
  | dlRulesCount
  | dlNewTransaction
  | dlNewTransactionWithId
  | dlFreeTransaction
  | dlIntervention
  | dlFreeIntervention
  | dlProcessConnection
  | dlProcessUri
  | dlAddRequestHeader
  | dlProcessRequestHeaders
  | dlAppendRequestBody
  | dlProcessRequestBody
  | dlIsRequestBodyAccessible
  | dlAddResponseHeader
  | dlAppendResponseBody
  | dlProcessResponseBody
  | dlProcessResponseHeaders
  | dlProcessLogging
  | dlUpdateStatusCode
  | dlIsResponseBodyProcessable
  | dlAddRequestHeaders
  | dlAddResponseHeaders
  | dlVersionNum
deriving DecidableEq, Repr

/-- a library file: the address of each function it exports, 0 for none, and what its `coraza_version_num` answers -/
structure Library where
  exports : Symbol → ℕ
  version : ℤ

/-- a call on the dynamic linker, or a call through a pointer -/
inductive DlCall where
  | opened
  | notFound
  | looked (sym : Symbol) (addr : ℕ)
  | closed
  | called (addr : ℕ)
deriving DecidableEq

abbrev DlTrace := List DlCall

/-- the library that is found after a record of calls -/
structure DlEnv where
  dynlibOpen : DlTrace → Option Library

/-- the static variables of the file -/
structure Loader where
  handle : Option Library := none
  ptr : Slot → ℕ := fun _ => 0
  trace : DlTrace := []

namespace Loader

def log (d : Loader) (c : DlCall) : Loader := { d with trace := d.trace ++ [c] }
def setHandle (d : Loader) (lib : Option Library) : Loader := { d with handle := lib }
def setPtr (d : Loader) (p : Slot) (addr : ℕ) : Loader := { d with ptr := Function.update d.ptr p addr }

end Loader

/-- code of the file -/
abbrev DlCode (ρ α : Type) : Type := Prog DlEnv Loader ρ α

section
variable {ρ : Type}

def dynlibOpen : DlCode ρ (Option Library) := do
  let lib := (← ask).dynlibOpen (← get).trace
  modify fun d => d.log (if lib.isSome then .opened else .notFound)
  return lib

def dynlibSym (sym : Symbol) : DlCode ρ ℕ := do
  let addr := match (← get).handle with
    | some lib => lib.exports sym
    | none => 0
  modify fun d => d.log (.looked sym addr)
  return addr

def dynlibClose : DlCode ρ Unit := modify fun d => d.log .closed

/-- call the function a pointer points to -/
def follow (p : Slot) : DlCode ρ Unit := modify fun d => d.log (.called (d.ptr p))

/-- DL_SYM -/
def dlSym (x : Slot × Symbol) : DlCode ℤ Unit := do
  let addr ← dynlibSym x.2
  modify fun d => d.setPtr x.1 addr
  when (addr = 0) do
    dynlibClose
    modify fun d => d.setHandle none
    exit ngxError

/-- what `ngx_http_coraza_dl_open` resolves, in its order -/
def dlSyms : List (Slot × Symbol) :=
  [(.dlNewWafConfig, .corazaNewWafConfig), (.dlRulesAdd, .corazaRulesAdd), (.dlRulesAddFile, .corazaRulesAddFile),
    (.dlFreeWafConfig, .corazaFreeWafConfig), (.dlNewWaf, .corazaNewWaf), (.dlFreeWaf, .corazaFreeWaf),
    (.dlFreeString, .corazaFreeString), (.dlRulesCount, .corazaRulesCount),
    (.dlNewTransaction, .corazaNewTransaction), (.dlNewTransactionWithId, .corazaNewTransactionWithId),
    (.dlFreeTransaction, .corazaFreeTransaction), (.dlIntervention, .corazaIntervention),
    (.dlFreeIntervention, .corazaFreeIntervention), (.dlProcessConnection, .corazaProcessConnection),
    (.dlProcessUri, .corazaProcessUri), (.dlAddRequestHeader, .corazaAddRequestHeader),
    (.dlProcessRequestHeaders, .corazaProcessRequestHeaders), (.dlAppendRequestBody, .corazaAppendRequestBody),
    (.dlProcessRequestBody, .corazaProcessRequestBody),
    (.dlIsRequestBodyAccessible, .corazaIsRequestBodyAccessible),
    (.dlAddResponseHeader, .corazaAddResponseHeader), (.dlAppendResponseBody, .corazaAppendResponseBody),
    (.dlProcessResponseBody, .corazaProcessResponseBody),
    (.dlProcessResponseHeaders, .corazaProcessResponseHeaders), (.dlProcessLogging, .corazaProcessLogging),
    (.dlUpdateStatusCode, .corazaUpdateStatusCode),
    (.dlIsResponseBodyProcessable, .corazaIsResponseBodyProcessable),
    (.dlAddRequestHeaders, .corazaAddRequestHeaders), (.dlAddResponseHeaders, .corazaAddResponseHeaders),
    (.dlVersionNum, .corazaVersionNum)]

/-- `dl_version_num()`, resolved from the library that is open -/
def dlVersionNum : DlCode ρ ℤ := do
  follow .dlVersionNum
  return match (← get).handle with
    | some lib => lib.version
    | none => 0

/-- `ngx_http_coraza_dl_open` -/
def dlOpen : DlCode ρ ℤ := call do
  when (← get).handle.isSome do exit ngxOk
  let lib ← dynlibOpen
  modify fun d => d.setHandle lib
  when lib.isNone do exit ngxError
  forEach dlSyms dlSym
  when ((← dlVersionNum) < 10700) do
    dynlibClose
    modify fun d => d.setHandle none
    exit ngxError
  return ngxOk

end

/-- the pointer that the wrapper of an engine function follows; the wrappers of the two predicates have ngx_http_ in
front of their names, and `coraza_version_num`, which has none, is called through its pointer -/
def Symbol.wrapper : Symbol → Slot
  | .corazaNewWafConfig => .dlNewWafConfig
  | .corazaRulesAdd => .dlRulesAdd
  | .corazaRulesAddFile => .dlRulesAddFile
  | .corazaFreeWafConfig => .dlFreeWafConfig
  | .corazaNewWaf => .dlNewWaf
  | .corazaFreeWaf => .dlFreeWaf
  | .corazaFreeString => .dlFreeString
  | .corazaRulesCount => .dlRulesCount
  | .corazaNewTransaction => .dlNewTransaction
  | .corazaNewTransactionWithId => .dlNewTransactionWithId
  | .corazaFreeTransaction => .dlFreeTransaction
  | .corazaIntervention => .dlIntervention
  | .corazaFreeIntervention => .dlFreeIntervention
  | .corazaProcessConnection => .dlProcessConnection
  | .corazaProcessUri => .dlProcessUri
  | .corazaAddRequestHeader => .dlAddRequestHeader
  | .corazaProcessRequestHeaders => .dlProcessRequestHeaders
  | .corazaAppendRequestBody => .dlAppendRequestBody
  | .corazaProcessRequestBody => .dlProcessRequestBody
  | .corazaIsRequestBodyAccessible => .dlIsRequestBodyAccessible
  | .corazaAddResponseHeader => .dlAddResponseHeader
  | .corazaAppendResponseBody => .dlAppendResponseBody
  | .corazaProcessResponseBody => .dlProcessResponseBody
  | .corazaProcessResponseHeaders => .dlProcessResponseHeaders
  | .corazaProcessLogging => .dlProcessLogging
  | .corazaUpdateStatusCode => .dlUpdateStatusCode
  | .corazaIsResponseBodyProcessable => .dlIsResponseBodyProcessable
  | .corazaAddRequestHeaders => .dlAddRequestHeaders
  | .corazaAddResponseHeaders => .dlAddResponseHeaders
  | .corazaVersionNum => .dlVersionNum

/-- a call on an engine function, through its wrapper -/
def callEngine (d : Loader) (sym : Symbol) : Loader := d.log (.called (d.ptr sym.wrapper))

end CorazaNginx.Dl
