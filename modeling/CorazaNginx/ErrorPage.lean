/-
What a poll does to an error page that is already on its way.

On an error page the module still polls, and each caller then yields: whatever the poll returned, the request goes on as
it was. By then `processIntervention` has acted on the answer. `PollSite` lists the eight places where the engine is
polled; `poll` is the call of the helper there and `code` the statement that makes it and decides.
`yielded_poll_keeps_iff` says that every one of them yields, and that the response is left alone exactly when the poll
has no Location to install (`PollSite.Installs`): no redirect is reported, the headers are out, or the entry cannot be
allocated.
-/
import Mathlib.Tactic
import CorazaNginx.Redirect

namespace CorazaNginx

open CorazaNginx.Core Prog Handler

variable {ρ : Type} {e : Env} {s t : St}

/-! ## The helper -/

/-- the response is as it was: `headers_out` with its list, its Location and its status, and `err_status` -/
structure KeepsResponse (s t : St) : Prop where
  headersOut : t.r.headersOut = s.r.headersOut
  errStatus : t.r.errStatus = s.r.errStatus

theorem KeepsResponse.of_r (h : t.r = s.r) : KeepsResponse s t := ⟨by rw [h], by rw [h]⟩

theorem KeepsResponse.congr {u : St} (h : u.r = s.r) : KeepsResponse u t ↔ KeepsResponse s t := by
  constructor
  · intro hk
    exact ⟨by rw [hk.headersOut, h], by rw [hk.errStatus, h]⟩
  · intro hk
    exact ⟨by rw [hk.headersOut, h], by rw [hk.errStatus, h]⟩

theorem pushLocation_ne (h : HeadersOut) : h.pushLocation ≠ h := by
  intro heq
  have hlen := congrArg (fun h : HeadersOut => h.headers.toList.length) heq
  simp [HeadersOut.pushLocation] at hlen

theorem setLocation_ne (h : HeadersOut) (i : ℕ) (v : Bytes) : h.pushLocation.setLocation i v ≠ h := by
  intro heq
  have hlen := congrArg (fun h : HeadersOut => h.headers.toList.length) heq
  simp [HeadersOut.pushLocation, HeadersOut.setLocation] at hlen

/-- the trace behind the early log -/
def St.loggedTrace (e : Env) (s : St) : Trace :=
  let c := Call.engine s.ctx.corazaTransaction .processLogging
  if s.r.loc.enable = 1 ∧ s.ctx.logged = false then s.trace ++ [.call c (e.ret s.trace c)] else s.trace

/-- the trace when the list entry for a Location is asked for: the poll, the status code, the early log if there is
one -/
def St.pushTrace (early : Bool) (iv : Intervention) (e : Env) (s : St) : Trace :=
  let c := Call.engine s.ctx.corazaTransaction (.updateStatusCode iv.status)
  let u := s.log (pollEvent e s)
  let u := u.log (.call c (e.ret u.trace c))
  if early then u.loggedTrace e else u.trace

/-- the engine reports a redirect, the headers are not sent, and the list has room for an entry -/
def St.InstallsLocation (early : Bool) (e : Env) (s : St) : Prop :=
  s.r.headerSent = false ∧ ∃ iv data, e.intervention s.trace = some iv ∧ redirectTarget iv = some data ∧
    e.ret (s.pushTrace early iv e) (.alloc 1) ≠ 0

/-- installing a redirect keeps the response exactly when there is no target or no room -/
theorem installRedirect_keeps_iff (iv : Intervention) {E : ρ → St → Prop} :
    wp (installRedirect iv : Handler ρ Unit)
      (fun _ t => KeepsResponse s t ↔ ¬ ∃ data, redirectTarget iv = some data ∧ e.ret s.trace (.alloc 1) ≠ 0)
        E e s := by
  unfold installRedirect
  cases redirectTarget iv with
  | none =>
    rw [wp_pure]
    refine iff_of_true (.of_r rfl) ?_
    rintro ⟨data, hd, -⟩
    cases hd
  | some data =>
    simp only [installLocation, wp_bind, wp_alloc, wp_when, wp_get, wp_modify, decide_eq_true_eq]
    refine ⟨fun hpush => ?_, fun hpush => ?_⟩
    · -- whether its value can be copied or not, the entry is in the list
      have hinst : ∃ d, some data = some d ∧ e.ret s.trace (.alloc 1) ≠ 0 := ⟨data, rfl, hpush⟩
      refine ⟨fun _ => iff_of_false (fun h => ?_) (not_not.2 hinst),
        fun _ => iff_of_false (fun h => ?_) (not_not.2 hinst)⟩
      · exact setLocation_ne _ _ _ h.headersOut
      · exact pushLocation_ne _ h.headersOut
    · refine iff_of_true (.of_r rfl) ?_
      rintro ⟨d, -, hne⟩
      exact hpush hne

/-- the condition for an interruption already fetched: `tr` is the trace when the list entry is asked for -/
def KeepsUnlessInstalled (iv : Intervention) (tr : Trace) (e : Env) (s : St) {α : Type} (_ : α) (t : St) : Prop :=
  KeepsResponse s t ↔
    ¬ (s.r.headerSent = false ∧ ∃ data, redirectTarget iv = some data ∧ e.ret tr (.alloc 1) ≠ 0)

/-- what follows the early log: `u` is `s` with the log behind it -/
theorem enforce_keeps_iff (iv : Intervention) {u : St} {tr : Trace} (hr : u.r = s.r) (htr : u.trace = tr) :
    wp (do
      let s ← get
      when s.r.headerSent do exit ngxError
      installRedirect iv
      return iv.status : Handler ℤ ℤ) (KeepsUnlessInstalled iv tr e s) (KeepsUnlessInstalled iv tr e s) e u := by
  simp only [wp_bind, wp_get, wp_when, wp_exit]
  refine ⟨fun hsent => ?_, fun hsent => ?_⟩
  · rw [hr] at hsent
    refine iff_of_true (.of_r hr) ?_
    rintro ⟨hno, -⟩
    rw [hsent] at hno
    cases hno
  · have hsent' : s.r.headerSent = false := by simpa [hr] using hsent
    refine wp_mono (installRedirect_keeps_iff iv) (fun _ t ht => ?_) fun _ _ h => h
    rw [KeepsResponse.congr hr, htr] at ht
    rw [wp_pure, KeepsUnlessInstalled, ht]
    simp [hsent']

theorem logHandler_loggedTrace {Q : ℤ → St → Prop} {E : ρ → St → Prop}
    (h : ∀ rc u, u.r = s.r → u.trace = s.loggedTrace e → Q rc u) : wp (logHandler : Handler ρ ℤ) Q E e s := by
  simp only [logHandler, wp_call, wp_bind, wp_get, wp_when, wp_exit, wp_engine, wp_modify, wp_pure]
  refine ⟨fun hen => h _ _ rfl ?_, fun hen => ⟨fun hlog => h _ _ rfl ?_, fun hlog => h _ _ rfl ?_⟩⟩
  · rw [St.loggedTrace, if_neg fun hc => hen hc.1]
  · rw [St.loggedTrace, if_neg fun hc => by rw [hc.2] at hlog; cases hlog]
  · rw [St.loggedTrace, if_pos ⟨not_not.1 hen, by simpa using hlog⟩]
    rfl

/-- **One poll.** It keeps the response exactly when it installs no Location. -/
theorem processIntervention_keeps_iff (early : Bool) {E : ρ → St → Prop} :
    wp (processIntervention early : Handler ρ ℤ) (fun _ t => KeepsResponse s t ↔ ¬ s.InstallsLocation early e)
      E e s := by
  rw [processIntervention, wp_call, wp_bind, wp_pollEngine]
  cases hiv : e.intervention s.trace with
  | none =>
    refine iff_of_true (.of_r rfl) ?_
    rintro ⟨-, iv, data, hiv', -⟩
    rw [hiv] at hiv'
    cases hiv'
  | some iv =>
    -- the answer is known: what is left of the condition is about `iv`
    have hinst : s.InstallsLocation early e ↔ s.r.headerSent = false ∧
        ∃ data, redirectTarget iv = some data ∧ e.ret (s.pushTrace early iv e) (.alloc 1) ≠ 0 := by
      refine and_congr_right fun _ => ?_
      constructor
      · rintro ⟨iv', data, hiv', hd⟩
        rw [hiv] at hiv'
        injection hiv' with hiv'
        exact ⟨data, hiv' ▸ hd⟩
      · rintro ⟨data, hd⟩
        exact ⟨iv, data, hiv, hd⟩
    rw [hinst]
    refine (wp_ite _ _ _).2 ⟨fun h200 => ?_, fun h200 => ?_⟩
    · refine iff_of_true (.of_r rfl) ?_
      rintro ⟨-, data, hd, -⟩
      simp [redirectTarget, isRedirectStatus, h200] at hd
    · rw [enforceIntervention, wp_bind, wp_engine, wp_bind]
      refine (wp_when _ _).2 ⟨fun hearly => ?_, fun hearly => ?_⟩
      · rw [wp_bind]
        apply logHandler_loggedTrace
        intro rc u hr htr
        have htr' : u.trace = s.pushTrace early iv e := by
          rw [htr, St.pushTrace, if_pos hearly, pollEvent, hiv]
          rfl
        rw [wp_modify]
        exact enforce_keeps_iff (s := s) iv hr htr'
      · refine enforce_keeps_iff (s := s) iv rfl ?_
        rw [St.pushTrace, if_neg hearly, pollEvent, hiv]
        rfl

/-- a poll made on CORAZA_INTERRUPTION only -/
theorem pollAfterProcess_keeps_iff (early : Bool) (pret : ℤ) {E : ρ → St → Prop} :
    wp (pollAfterProcess early pret : Handler ρ ℤ)
      (fun _ t => KeepsResponse s t ↔ ¬ (pret = corazaInterruption ∧ s.InstallsLocation early e)) E e s := by
  apply pollAfterProcess_spec
  · intro hneg
    refine iff_of_true (.of_r rfl) fun h => ?_
    rw [h.1] at hneg
    exact absurd hneg (by decide)
  · intro _ hne
    exact iff_of_true (.of_r rfl) fun h => hne h.1
  · intro hp
    refine wp_mono (processIntervention_keeps_iff (E := fun _ _ => False) early) (fun _ t ht => ?_) fun _ _ h => h.elim
    rw [ht]
    simp [hp]

/-! ## The callers -/

/-- a place where the engine is polled; `pret` is the phase's answer there -/
inductive PollSite where
  /-- rewrite, after phase 1 -/
  | requestHeaders (pret : ℤ)
  /-- pre-access, between two chunks of a spilled body -/
  | requestChunk
  /-- pre-access, behind a buffer of a body in memory -/
  | requestBuffer
  /-- pre-access, before phase 2 -/
  | requestBody
  /-- pre-access, after phase 2 -/
  | requestPhase (pret : ℤ)
  /-- the header filter, after phase 3 -/
  | responseHeaders (pret : ℤ)
  /-- the body filter, behind a buffer -/
  | responseBuffer
  /-- the body filter, after phase 4 -/
  | responsePhase (pret : ℤ)

namespace PollSite

/-- the call of the helper -/
def poll : PollSite → Handler ℤ ℤ
  | .requestHeaders pret => pollAfterProcess true pret
  | .requestPhase pret | .responseHeaders pret | .responsePhase pret => pollAfterProcess false pret
  | .requestChunk | .requestBuffer | .requestBody | .responseBuffer => processIntervention false

/-- the statement that polls and decides -/
def code : PollSite → Handler ℤ Unit
  | .requestHeaders pret => do afterPhasePoll (← pollAfterProcess true pret)
  | .requestChunk => do
    match ← pollChunk with
    | some rc => exit rc
    | none => pure ()
  | .requestBuffer | .requestBody => do afterPhasePoll (← processIntervention false)
  | .requestPhase pret => do afterPhasePoll (← pollAfterProcess false pret)
  | .responseHeaders pret => do dispatchHeaders (← pollAfterProcess false pret)
  | .responseBuffer => do afterPoll (← processIntervention false)
  | .responsePhase pret => do afterPoll (← pollAfterProcess false pret)

/-- what yielding is there: decline the phase, or pass on what came in -/
def yield : PollSite → Handler ℤ ℤ
  | .responseHeaders _ => nextHeaderFilter
  | .responseBuffer | .responsePhase _ => do nextBodyFilter (inLinks (← get).inn)
  | _ => pure ngxDeclined

/-- the state the helper leaves -/
def polled (site : PollSite) (e : Env) (s : St) : St := (site.poll.run e s).2

/-- the poll is made, and installs a Location -/
def Installs (site : PollSite) (e : Env) (s : St) : Prop :=
  match site with
  | .requestHeaders pret => pret = corazaInterruption ∧ s.InstallsLocation true e
  | .requestPhase pret | .responseHeaders pret | .responsePhase pret =>
    pret = corazaInterruption ∧ s.InstallsLocation false e
  | .requestChunk | .requestBuffer | .requestBody | .responseBuffer => s.InstallsLocation false e

/-- the caller yields: its return value and what it leaves are those of yielding from where the helper left off -/
def Yields (site : PollSite) (e : Env) (s : St) : Prop :=
  (do site.code; return ngxOk : Handler ℤ ℤ).run e s = site.yield.run e (site.polled e s)

/-! The statements are those of the handlers. -/

theorem processRequestBodyPhase_polls : (processRequestBodyPhase : Handler ρ ℤ) = (call do
    let pret ← engine .processRequestBody
    when (processBodyFailed pret) do
      trigger
      exit ngxHttpInternalServerError
    (requestPhase pret).code
    return ngxDeclined) := rfl

theorem submitRequestBody_polls : submitRequestBody = (do
    match (← get).r.requestBody with
    | none => exit ngxDeclined
    | some rb =>
      modify fun s => s.setCtx { s.ctx with bodySubmitted := true }
      appendBody rb
      requestBody.code
      exit (← processRequestBodyPhase)) := rfl

theorem appendChain_polls (b : Buf) (chain : List Buf) : appendChain (b :: chain) = (do
    let e ← ask
    let blen := sizeT (b.last - b.pos)
    when (intMax < blen) do
      trigger
      exit ngxHttpInternalServerError
    when (0 < blen) do
      let ret ← engine (.appendRequestBody (b.memBytes e.content) (cInt blen))
      when (ret ≠ 0) do
        trigger
        exit ngxHttpInternalServerError
    if b.lastBuf then pure ()
    else
      requestBuffer.code
      appendChain chain) := rfl

theorem rewriteInspect_polls : (rewriteInspect : Handler ρ ℤ) = (call do
    let s ← get
    let c := s.r.connection
    when (!c.unix) do
      when (!(← strToChar c.addrText)) do exit ngxHttpInternalServerError
    when ((← invoke .localSockaddr) ≠ ngxOk) do exit ngxHttpInternalServerError
    when (!c.localUnix) do
      when (!(← strToChar c.localAddr)) do exit ngxHttpInternalServerError
    let _ ← engine (.processConnection (if c.unix then ascii "unix" else c.addrText) (if c.unix then 0 else c.port)
      (if c.localUnix then ascii "unix" else c.localAddr) (if c.localUnix then 0 else c.localPort))
    when (!(← strToChar s.r.unparsedUri)) do exit ngxHttpInternalServerError
    when (!(← strToChar s.r.methodName)) do exit ngxHttpInternalServerError
    let _ ← engine (.processUri s.r.unparsedUri s.r.methodName (httpRequestVer s.r.httpVersion))
    let bulkDone ← bulkRequestHeaders
    when (!bulkDone) do
      forEach s.r.headersIn.toList.zipIdx submitRequestHeader
    let pret ← engine .processRequestHeaders
    (requestHeaders pret).code
    return ngxDeclined) := rfl

theorem processResponseHeaders_polls : (do dispatchHeaders (← processResponseHeaders)) = (do
    let s ← get
    let status := if s.r.errStatus ≠ 0 then s.r.errStatus else s.r.headersOut.status
    let pret ← engine (.processResponseHeaders status (httpResponseVer s.r.httpVersion))
    let processable ← engine .isResponseBodyProcessable
    modify fun s => s.setCtx { s.ctx with responseBodyProcessable := decide (processable % 2 = 1) }
    (responseHeaders pret).code) := rfl

theorem inspectBuf_polls (b : Buf) : inspectBuf b = (do appendBuf b; responseBuffer.code) := rfl

theorem finishBody_polls : finishBody = (do
    let pret ← engine .processResponseBody
    when (processBodyFailed pret) do block ngxHttpInternalServerError
    (responsePhase pret).code) := rfl

/-- the response is left alone by the poll exactly when nothing is installed, on an error page or not -/
theorem keeps_iff (site : PollSite) : KeepsResponse s (site.polled e s) ↔ ¬ site.Installs e s := by
  cases site with
  | requestHeaders pret | requestPhase pret | responseHeaders pret | responsePhase pret =>
    exact (wp_run _).1 (pollAfterProcess_keeps_iff _ pret)
  | requestChunk | requestBuffer | requestBody | responseBuffer =>
    exact (wp_run _).1 (processIntervention_keeps_iff false)

end PollSite

/-! ## Yielding -/

theorem processIntervention_errorPage (early : Bool) {E : ρ → St → Prop} :
    wp (processIntervention early : Handler ρ ℤ) (fun _ t => t.r.errorPage = s.r.errorPage) E e s := by
  apply processIntervention_spec
  intro t evs h' l ht
  rw [ht]
  intros
  rfl

theorem pollAfterProcess_errorPage (early : Bool) (pret : ℤ) {E : ρ → St → Prop} :
    wp (pollAfterProcess early pret : Handler ρ ℤ) (fun _ t => t.r.errorPage = s.r.errorPage) E e s := by
  apply pollAfterProcess_spec
  · exact fun _ => rfl
  · exact fun _ _ => rfl
  · intro _
    exact wp_mono (processIntervention_errorPage (E := fun _ _ => False) early) (fun _ _ h => h) fun _ _ h => h.elim

theorem PollSite.polled_errorPage (site : PollSite) : (site.polled e s).r.errorPage = s.r.errorPage := by
  cases site with
  | requestHeaders pret | requestPhase pret | responseHeaders pret | responsePhase pret =>
    exact (wp_run _).1 (pollAfterProcess_errorPage _ pret)
  | requestChunk | requestBuffer | requestBody | responseBuffer =>
    exact (wp_run _).1 (processIntervention_errorPage false)

/-- the helper is a function of its own: it has one outcome, wherever it is called -/
theorem wp_processIntervention (early : Bool) {Q : ℤ → St → Prop} {E : ρ → St → Prop} :
    wp (processIntervention early : Handler ρ ℤ) Q E e s ↔
      Q ((processIntervention early : Handler ℤ ℤ).run e s).1
        ((processIntervention early : Handler ℤ ℤ).run e s).2 := by
  rw [processIntervention, wp_call, wp_run]
  rfl

theorem wp_pollAfterProcess (early : Bool) (pret : ℤ) {Q : ℤ → St → Prop} {E : ρ → St → Prop} :
    wp (pollAfterProcess early pret : Handler ρ ℤ) Q E e s ↔
      Q ((pollAfterProcess early pret : Handler ℤ ℤ).run e s).1
        ((pollAfterProcess early pret : Handler ℤ ℤ).run e s).2 := by
  rw [pollAfterProcess, wp_call, wp_run]
  rfl

theorem afterPhasePoll_yields {ret : ℤ} {Q : Unit → St → Prop} {E : ℤ → St → Prop} (hep : s.r.errorPage = true)
    (h : E ngxDeclined s) : wp (afterPhasePoll ret) Q E e s := by
  rw [afterPhasePoll, wp_bind, wp_get, wp_bind, wp_when]
  exact ⟨fun _ => h, fun hno => absurd hep hno⟩

theorem dispatchHeaders_yields {ret : ℤ} {Q : Unit → St → Prop} {E : ℤ → St → Prop} (hep : s.r.errorPage = true)
    (h : wp (nextHeaderFilter : Handler ℤ ℤ) E E e s) : wp (dispatchHeaders ret) Q E e s := by
  rw [dispatchHeaders, wp_bind, wp_get, wp_bind, wp_when]
  exact ⟨fun _ => h, fun hno => absurd hep hno⟩

theorem afterPoll_yields {ret : ℤ} {Q : Unit → St → Prop} {E : ℤ → St → Prop} (hep : s.r.errorPage = true)
    (h : wp (do nextBodyFilter (inLinks (← get).inn) : Handler ℤ ℤ) E E e s) : wp (afterPoll ret) Q E e s := by
  rw [afterPoll, wp_bind, wp_get, wp_bind, wp_when]
  exact ⟨fun _ => h, fun hno => absurd hep hno⟩

theorem PollSite.yields (site : PollSite) (hep : s.r.errorPage = true) : site.Yields e s := by
  have hep' := site.polled_errorPage (e := e) (s := s)
  rw [hep] at hep'
  refine (wp_run (Q := fun rc t => (rc, t) = site.yield.run e (site.polled e s)) _).1 ?_
  rw [wp_bind]
  cases site with
  | requestHeaders pret | requestPhase pret =>
    rw [PollSite.code, wp_bind, wp_pollAfterProcess]
    exact afterPhasePoll_yields hep' rfl
  | requestChunk =>
    rw [PollSite.code, wp_bind, pollChunk, wp_call, wp_bind, wp_processIntervention, wp_bind, wp_get, wp_bind, wp_when]
    exact ⟨fun _ => rfl, fun hno => absurd hep' hno⟩
  | requestBuffer | requestBody =>
    rw [PollSite.code, wp_bind, wp_processIntervention]
    exact afterPhasePoll_yields hep' rfl
  | responseHeaders pret =>
    rw [PollSite.code, wp_bind, wp_pollAfterProcess]
    exact dispatchHeaders_yields hep' rfl
  | responseBuffer =>
    rw [PollSite.code, wp_bind, wp_processIntervention]
    exact afterPoll_yields hep' rfl
  | responsePhase pret =>
    rw [PollSite.code, wp_bind, wp_pollAfterProcess]
    exact afterPoll_yields hep' rfl

/-- **A yielded poll.** On an error page every caller yields, and the poll it yields to has left the response alone
exactly when it had no Location to install. -/
theorem yielded_poll_keeps_iff (site : PollSite) (e : Env) (s : St) (hep : s.r.errorPage = true) :
    site.Yields e s ∧ (KeepsResponse s (site.polled e s) ↔ ¬ site.Installs e s) :=
  ⟨site.yields hep, site.keeps_iff⟩

/-- an engine that denies in every phase, without a redirect -/
def denyingEnv : Env := { redirectingEnv with intervention := fun _ => some ⟨403, none⟩ }

/-- an error page on its way, before its headers are sent -/
def errorPageState : St where
  r := { errorPage := true, headersOut := { status := 403 } }
  ctx := {}

theorem denied_error_page_kept :
    KeepsResponse errorPageState ((PollSite.responseHeaders 1).polled denyingEnv errorPageState) := by
  refine (yielded_poll_keeps_iff (.responseHeaders 1) denyingEnv errorPageState rfl).2.2 ?_
  rintro ⟨-, -, iv, data, hiv, hd, -⟩
  injection hiv with hiv
  subst hiv
  cases hd

/-- **A redirect on an error page.** At every place where the engine is polled a redirect puts its Location into the
response of the error page, and the caller yields. -/
theorem error_page_gets_location :
    [PollSite.requestHeaders 1, .requestChunk, .requestBuffer, .requestBody, .requestPhase 1,
      .responseHeaders 1, .responseBuffer, .responsePhase 1].Forall fun site =>
      site.Yields redirectingEnv errorPageState ∧
        ¬ KeepsResponse errorPageState (site.polled redirectingEnv errorPageState) := by
  rw [List.forall_iff_forall_mem]
  intro site hsite
  refine ⟨site.yields rfl, ?_⟩
  rw [site.keeps_iff, not_not]
  have hinst : ∀ early, errorPageState.InstallsLocation early redirectingEnv := by
    intro early
    refine ⟨rfl, redirectIv, ascii "/x\r\nY", rfl, rfl, ?_⟩
    cases early <;> decide +kernel
  simp only [List.mem_cons, List.not_mem_nil, or_false] at hsite
  rcases hsite with rfl | rfl | rfl | rfl | rfl | rfl | rfl | rfl
  · exact ⟨rfl, hinst true⟩
  · exact hinst false
  · exact hinst false
  · exact hinst false
  · exact ⟨rfl, hinst false⟩
  · exact ⟨rfl, hinst false⟩
  · exact hinst false
  · exact ⟨rfl, hinst false⟩

end CorazaNginx
