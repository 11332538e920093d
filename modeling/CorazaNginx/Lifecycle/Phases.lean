/-
The two handlers that evaluate a phase of headers, by the calls they make.

The header filter adds headers until it evaluates phase 3 or breaks off with NGX_ERROR (`HeaderCalls`). The rewrite
handler prepares the connection and the URI, adds headers, evaluates phase 1, and logs at once when phase 1 is
interrupted. It can give up on the way: behind a refused allocation or address it leaves the context as it is, behind a
header that is too long it marks it (`RewriteCalls`). What follows an early log is told apart by whether the context has
been marked.
-/
import Mathlib.Tactic
import CorazaNginx.Lifecycle.Confined
import CorazaNginx.Request.HeaderSubmission
import CorazaNginx.Response.HeaderOutcome

namespace CorazaNginx

open CorazaNginx.Core Prog Handler

variable {ρ α β : Type} {e : Env} {s t : St} {P : EngineCall → Prop}

/-! ## The header filter -/

/-- a response header is added -/
def EngineCall.AddsResponseHeader : EngineCall → Prop
  | .addResponseHeaders .. | .addResponseHeader .. => True
  | _ => False

/-- what is behind phase 3 -/
def EngineCall.BehindPhase : EngineCall → Prop
  | .isResponseBodyProcessable | .updateStatusCode _ => True
  | _ => False

theorem packHeaders_keeps (pairs : List HeaderPair) : Keeps P (packHeaders pairs : Handler ρ (Option Bytes)) := by
  intro e s
  refine Packing.packHeaders_framed pairs fun res evs hevs _ => ?_
  rcases hevs with rfl | ⟨n, rfl⟩
  · rw [St.logs_nil]
    exact Confined.refl s
  · exact Confined.log (s := s) trivial

/-- the steps of the submission add response headers and do nothing else -/
theorem submission_keeps : Keeps EngineCall.AddsResponseHeader
    (submitResponseHeaders >>= fun _ => flushResponseHeaders) := by
  have hsteps : Carried fun {_ _} => Keeps EngineCall.AddsResponseHeader := by
    refine ⟨Compositional.guar Confined.refl Confined.trans, Keeps.alloc, ?_, fun _ => Keeps.engine trivial,
      fun l => ?_⟩
    · exact fun _ => Keeps.modify fun _ => Confined.of_trace rfl rfl rfl rfl rfl id
    · refine Keeps.ite (Keeps.pure _) (Keeps.bind (packHeaders_keeps l) fun packed => ?_)
      cases packed with
      | none => exact Keeps.pure _
      | some packed => exact Keeps.bind (Keeps.engine trivial) fun _ => Keeps.pure _
  exact hsteps.submission

theorem dispatchHeaders_keeps (ret : ℤ) : Keeps P (dispatchHeaders ret) := by
  have next : Keeps P (do exit (← nextHeaderFilter) : Handler ℤ Unit) := Keeps.exitWith nextHeaderFilter_keeps
  refine Keeps.bind Keeps.get fun s => Keeps.bind (Keeps.when next) fun _ => ?_
  refine Keeps.bind (Keeps.when (Keeps.bind Keeps.trigger fun _ => ?_)) fun _ => ?_
  · refine Keeps.bind
      (Keeps.when (Keeps.bind (Keeps.modify fun _ => Confined.of_trace rfl rfl rfl rfl rfl id) fun _ => next))
      fun _ => Keeps.exitWith (filterFinalizeRequest_keeps ret)
  · exact Keeps.bind (Keeps.when (Keeps.bind (Keeps.modify fun _ => Confined.of_trace rfl rfl rfl rfl rfl id) fun _ =>
      Keeps.exit _)) fun _ => next

theorem Event.finalizes_of_plain {ev : Event} (h : ev.isPlain = true) : ev.finalizes = false := by
  cases ev with
  | poll => rfl
  | call c rc => cases c <;> first | rfl | cases h

/-- the calls of the header filter on a context it has not processed -/
inductive HeaderCalls (s : St) : ℤ → St → Prop where
  /-- a header was not taken -/
  | broke (evs : Trace) (t : St) (trace : t.trace = s.trace ++ evs)
      (adds : ∀ ev ∈ evs, ev.Within s.ctx.corazaTransaction EngineCall.AddsResponseHeader)
      (unfinished : ∀ ev ∈ evs, ev.finalizes = false) (tx : t.ctx.corazaTransaction = s.ctx.corazaTransaction)
      (logged : t.ctx.logged = s.ctx.logged)
      (processable : t.ctx.responseBodyProcessable = s.ctx.responseBodyProcessable) :
      HeaderCalls s ngxError t
  /-- phase 3 has been evaluated -/
  | evaluated (evs rest : Trace) (status pret rc : ℤ) (version : Bytes) (t : St)
      (trace : t.trace = s.trace ++ evs ++
        .call (.engine s.ctx.corazaTransaction (.processResponseHeaders status version)) pret :: rest)
      (adds : ∀ ev ∈ evs, ev.Within s.ctx.corazaTransaction EngineCall.AddsResponseHeader)
      (behind : ∀ ev ∈ rest, ev.Within s.ctx.corazaTransaction EngineCall.BehindPhase)
      (tx : t.ctx.corazaTransaction = s.ctx.corazaTransaction) (logged : t.ctx.logged = s.ctx.logged)
      (processed : t.ctx.processed = true) : HeaderCalls s rc t

/-- what the filter does from phase 3 on: the evaluation, and behind it nothing but what belongs to phase 3 -/
theorem evaluate3_then {u : St} {Q E : ℤ → St → Prop}
    (hQ : ∀ (status pret rc : ℤ) (version : Bytes) (rest : Trace) (t : St),
      t.trace = u.trace ++
        .call (.engine u.ctx.corazaTransaction (.processResponseHeaders status version)) pret :: rest →
      (∀ ev ∈ rest, ev.Within u.ctx.corazaTransaction EngineCall.BehindPhase) →
      t.ctx.corazaTransaction = u.ctx.corazaTransaction → t.ctx.logged = u.ctx.logged →
      t.ctx.processed = u.ctx.processed → Q rc t ∧ E rc t) : wp (do
      dispatchHeaders (← processResponseHeaders)
      return ngxOk : Handler ℤ ℤ) Q E e u := by
  rw [wp_bind, processResponseHeaders, wp_bind, wp_get, wp_bind, wp_engine, wp_bind, wp_engine, wp_bind, wp_modify]
  set status := if u.r.errStatus ≠ 0 then u.r.errStatus else u.r.headersOut.status
  set c3 :=
    Call.engine u.ctx.corazaTransaction (.processResponseHeaders status (httpResponseVer u.r.httpVersion)) with hc3
  set pret := e.ret u.trace c3
  set cp := Call.engine u.ctx.corazaTransaction .isResponseBodyProcessable with hcp
  set rp := e.ret (u.trace ++ [.call c3 pret]) cp
  set v : St := (((u.log (.call c3 pret)).log (.call cp rp)).setCtx
    { u.ctx with responseBodyProcessable := decide (rp % 2 = 1) }) with hv
  have hrest : Keeps EngineCall.BehindPhase (do
      let ret ← pollAfterProcess false pret
      dispatchHeaders ret
      return ngxOk : Handler ℤ ℤ) := by
    refine Keeps.bind (pollAfterProcess_keeps (fun _ => trivial) pret) fun ret => ?_
    exact Keeps.bind (dispatchHeaders_keeps ret) fun _ => Keeps.pure _
  have hend : ∀ rc t, Confined EngineCall.BehindPhase v t → Q rc t ∧ E rc t := by
    intro rc t ht
    obtain ⟨rest, htr, hrest⟩ := ht.trace
    refine hQ status pret rc (httpResponseVer u.r.httpVersion) (.call cp rp :: rest) t ?_ ?_
      ht.tx ht.logged ht.processed
    · rw [htr, hv, ← hc3]
      simp
    · intro ev hev
      rcases List.mem_cons.1 hev with rfl | hev
      · exact ⟨rfl, trivial⟩
      · exact hrest ev hev
  have hwp := wp_mono (hrest e v) (fun rc t ht => (hend rc t ht).1) (fun rc t ht => (hend rc t ht).2)
  rw [wp_bind] at hwp
  exact hwp

/-- the same, with the headers added -/
theorem evaluate3_calls {u : St} {evs : Trace} (htr : u.trace = s.trace ++ evs)
    (hadds : ∀ ev ∈ evs, ev.Within s.ctx.corazaTransaction EngineCall.AddsResponseHeader)
    (htx : u.ctx.corazaTransaction = s.ctx.corazaTransaction) (hlog : u.ctx.logged = s.ctx.logged)
    (hproc : u.ctx.processed = true) : wp (do
      dispatchHeaders (← processResponseHeaders)
      return ngxOk : Handler ℤ ℤ) (HeaderCalls s) (HeaderCalls s) e u := by
  refine evaluate3_then fun status pret rc version rest t htr' hrest htx' hlog' hproc' => ?_
  rw [htx] at htr' hrest
  have hcalls : HeaderCalls s rc t := by
    refine .evaluated evs rest status pret rc version t ?_ hadds hrest (htx'.trans htx) (hlog'.trans hlog)
      (hproc'.trans hproc)
    rw [htr', htr]
  exact ⟨hcalls, hcalls⟩

/-- **The header filter.** -/
theorem headerFilter_calls (ht : s.ctx.interventionTriggered = false) (hp : s.ctx.processed = false)
    {E : ρ → St → Prop} : wp (headerFilter : Handler ρ ℤ) (HeaderCalls s) E e s := by
  have hadded : ∀ {u : St}, Confined EngineCall.AddsResponseHeader (s.armed e) u → ∃ evs, u.trace = s.trace ++ evs ∧
      ∀ ev ∈ evs, ev.Within s.ctx.corazaTransaction EngineCall.AddsResponseHeader := by
    intro u hu
    obtain ⟨evs, htr, hevs⟩ := hu.trace
    refine ⟨_ :: evs, by rw [htr, St.armed_trace, List.append_assoc]; rfl, ?_⟩
    intro ev hev
    rcases List.mem_cons.1 hev with rfl | hev
    · trivial
    · exact hevs ev hev
  -- the headers are all added, or the filter breaks off, and no other call is made
  have hboth := wp_and (submission_shows (e := e) (s := s)) (submission_keeps e (s.armed e))
  refine headerFilter_then ht hp (wp_mono hboth (fun _ u hu => ?_) (fun rc u hu => ?_))
  · obtain ⟨evs, htr, hevs⟩ := hadded hu.2
    exact evaluate3_calls htr hevs hu.2.tx hu.2.logged hu.2.processed
  · obtain ⟨⟨rfl, evs', c, hu', hplain, -⟩, hconf⟩ := hu
    obtain ⟨evs, htr, hevs⟩ := hadded hconf
    have heq : evs = .call (.alloc 512) (e.ret s.trace (.alloc 512)) :: evs' := by
      apply List.append_cancel_left
      rw [← htr, hu', St.collect_trace, St.logs_trace, St.armed_trace, List.append_assoc]
      rfl
    refine .broke evs u htr hevs ?_ hconf.tx hconf.logged hconf.processable
    intro ev hev
    rw [heq] at hev
    rcases List.mem_cons.1 hev with rfl | hev
    · rfl
    · exact Event.finalizes_of_plain (hplain ev hev)

/-- the filter on a context that has been marked or processed -/
theorem headerFilter_passes (h : s.ctx.interventionTriggered = true ∨ s.ctx.processed = true) {Q : ℤ → St → Prop}
    {E : ρ → St → Prop} (hQ : ∀ rc t, Confined (fun _ => False) s t → Q rc t) :
    wp (headerFilter : Handler ρ ℤ) Q E e s := by
  have next : wp (nextHeaderFilter : Handler ℤ ℤ) Q Q e s :=
    wp_mono (nextHeaderFilter_keeps e s) (fun rc t ht => hQ rc t ht)
    (fun rc t ht => hQ rc t ht)
  rw [headerFilter, wp_call, wp_bind, wp_get, wp_bind]
  refine (wp_when _ _).2 ⟨fun _ => ?_, fun ht => ?_⟩
  · rw [wp_bind]
    exact next
  · rw [wp_bind]
    refine (wp_when _ _).2 ⟨fun _ => ?_, fun hp => ?_⟩
    · rw [wp_bind]
      exact next
    · exact absurd h (by simp [ht, hp])

/-! ## The rewrite handler -/

/-- the connection is described -/
def EngineCall.DescribesConnection : EngineCall → Prop
  | .processConnection .. => True
  | _ => False

/-- what comes before phase 1 -/
def EngineCall.BeforePhase1 : EngineCall → Prop
  | .processConnection .. | .processUri .. | .addRequestHeaders .. | .addRequestHeader .. => True
  | _ => False

/-- an allocation, an address or a registration refused -/
def Event.refused : Event → Bool
  | .call (.alloc _) rc => rc = 0
  | .call .localSockaddr rc => rc ≠ ngxOk
  | .call .cleanupAdd rc => rc = 0
  | _ => false

/-- nothing has happened between `s` and `t` but calls in `P` on the context's own transaction -/
def Calls (P : EngineCall → Prop) (s t : St) : Prop :=
  ∃ evs : Trace, t = s.logs evs ∧ ∀ ev ∈ evs, ev.Within s.ctx.corazaTransaction P

theorem Calls.refl (s : St) : Calls P s s := ⟨[], (St.logs_nil s).symm, fun _ h => absurd h List.not_mem_nil⟩

theorem Calls.log {u : St} {ev : Event} (h : Calls P s u) (hev : ev.Within s.ctx.corazaTransaction P) :
    Calls P s (u.log ev) := by
  obtain ⟨evs, rfl, hevs⟩ := h
  refine ⟨evs ++ [ev], by rw [St.logs_log], ?_⟩
  intro x hx
  rcases List.mem_append.1 hx with hx | hx
  · exact hevs x hx
  · rwa [List.mem_singleton.1 hx]

theorem Calls.logs {u : St} {evs : Trace} (h : Calls P s u) (hevs : ∀ ev ∈ evs, ev.Within s.ctx.corazaTransaction P) :
    Calls P s (u.logs evs) := by
  obtain ⟨evs', rfl, hevs'⟩ := h
  exact ⟨evs' ++ evs, by rw [St.logs_logs], List.forall_mem_append.2 ⟨hevs', hevs⟩⟩

theorem Calls.mono {P' : EngineCall → Prop} (h : Calls P s t) (hP : ∀ c, P c → P' c) : Calls P' s t := by
  obtain ⟨evs, rfl, hevs⟩ := h
  exact ⟨evs, rfl, fun ev hev => (hevs ev hev).mono hP⟩

theorem Calls.tx {u : St} (h : Calls P s u) : u.ctx.corazaTransaction = s.ctx.corazaTransaction := by
  obtain ⟨evs, rfl, -⟩ := h
  rfl

theorem Calls.engine {u : St} {c : EngineCall} (h : Calls P s u) (hc : P c) (ret : ℤ) :
    Calls P s (u.log (.call (.engine u.ctx.corazaTransaction c) ret)) :=
  h.log ⟨h.tx, hc⟩

/-- a copy, an address or nothing more was refused -/
def Stopped1 (s t : St) : Prop :=
  ∃ evs : Trace, t = s.logs evs ∧ (∀ ev ∈ evs, ev.Within s.ctx.corazaTransaction EngineCall.DescribesConnection) ∧
    ∃ ev ∈ evs, ev.refused = true

/-- the calls that precede the engine's being told the URI -/
def St.beforeHeaders (s : St) : List Call :=
  (if s.r.connection.unix then [] else [.alloc (s.r.connection.addrText.length + 1)]) ++ .localSockaddr ::
  ((if s.r.connection.localUnix then [] else [.alloc (s.r.connection.localAddr.length + 1)]) ++
  [.engine s.ctx.corazaTransaction (.processConnection
      (if s.r.connection.unix then ascii "unix" else s.r.connection.addrText)
      (if s.r.connection.unix then 0 else s.r.connection.port)
      (if s.r.connection.localUnix then ascii "unix" else s.r.connection.localAddr)
      (if s.r.connection.localUnix then 0 else s.r.connection.localPort)),
    .alloc (s.r.unparsedUri.length + 1), .alloc (s.r.methodName.length + 1)])

/-- none of the calls is refused when they are made one after the other behind a trace -/
def Granted (e : Env) (t : Trace) : List Call → Prop
  | [] => True
  | c :: cs => (Event.call c (e.ret t c)).refused = false ∧ Granted e (t ++ [.call c (e.ret t c)]) cs

/-- no copy and no address that the handler needs before the URI is refused -/
def ReachesHeaders (e : Env) (s : St) : Prop := Granted e s.trace s.beforeHeaders

/-- on the way to the URI: what has been called, and what is still to be granted -/
structure Approaching (e : Env) (s u : St) (cs : List Call) : Prop where
  calls : Calls EngineCall.DescribesConnection s u
  left : ReachesHeaders e s ↔ Granted e u.trace cs

theorem Approaching.start (e : Env) (s : St) : Approaching e s s s.beforeHeaders := ⟨Calls.refl s, Iff.rfl⟩

/-- one more call: it is refused, or the way goes on -/
theorem Approaching.next {u : St} {c : Call} {cs : List Call} (h : Approaching e s u (c :: cs))
    (hc : ∀ rc, Event.Within s.ctx.corazaTransaction EngineCall.DescribesConnection (.call c rc)) :
    ((Event.call c (e.ret u.trace c)).refused = true →
      Stopped1 s (u.log (.call c (e.ret u.trace c))) ∧ ¬ ReachesHeaders e s) ∧
    ((Event.call c (e.ret u.trace c)).refused = false → Approaching e s (u.log (.call c (e.ret u.trace c))) cs) := by
  refine ⟨fun hrefused => ⟨?_, fun hreaches => ?_⟩, fun hgranted => ⟨h.calls.log (hc _), h.left.trans ?_⟩⟩
  · obtain ⟨evs, hu, hevs⟩ := h.calls
    refine ⟨evs ++ [.call c (e.ret u.trace c)], by rw [hu, St.logs_log], ?_, _, by simp, hrefused⟩
    intro x hx
    rcases List.mem_append.1 hx with hx | hx
    · exact hevs x hx
    · rw [List.mem_singleton.1 hx]
      exact hc _
  · exact absurd ((h.left.1 hreaches).1.symm.trans hrefused) (by decide)
  · exact ⟨fun hall => hall.2, fun hrest => ⟨hgranted, hrest⟩⟩

/-- the handler looks at the answer and gives up when the call was refused -/
theorem Approaching.checked {u : St} {c : Call} {cs : List Call} (hu : Approaching e s u (c :: cs))
    (hc : ∀ rc, Event.Within s.ctx.corazaTransaction EngineCall.DescribesConnection (.call c rc)) {p : Prop}
    [Decidable p] (hp : p ↔ (Event.call c (e.ret u.trace c)).refused = true) {Q : Unit → St → Prop}
    {E : ℤ → St → Prop} (hQ : ∀ t, Approaching e s t cs → Q () t)
    (hE : ∀ rc t, Stopped1 s t → ¬ ReachesHeaders e s → E rc t) :
    wp (when p (exit ngxHttpInternalServerError) : Handler ℤ Unit) Q E e (u.log (.call c (e.ret u.trace c))) := by
  obtain ⟨hstop, hnext⟩ := hu.next hc
  refine (wp_when _ _).2 ⟨fun h => ?_, fun h => ?_⟩
  · obtain ⟨hstopped, hno⟩ := hstop (hp.1 h)
    exact hE _ _ hstopped hno
  · exact hQ _ (hnext (Bool.eq_false_iff.2 fun hrefused => h (hp.2 hrefused)))

variable {Q : β → St → Prop} {E : ℤ → St → Prop} {u : St} {k : Handler ℤ β} {cs : List Call}

/-- a copy of a string -/
theorem strToChar_then (a : Bytes) (hu : Approaching e s u (.alloc (a.length + 1) :: cs))
    (hk : ∀ t, Approaching e s t cs → wp k Q E e t) (hE : ∀ rc t, Stopped1 s t → ¬ ReachesHeaders e s → E rc t) : wp (do
      when (!(← strToChar a)) do exit ngxHttpInternalServerError
      k : Handler ℤ β) Q E e u := by
  rw [wp_bind, strToChar, wp_alloc, wp_bind]
  exact hu.checked (fun _ => trivial) (by simp [Event.refused]) hk hE

/-- the same where the address need not be copied -/
theorem address_then {unix : Bool} (a : Bytes)
    (hu : Approaching e s u ((if unix then [] else [.alloc (a.length + 1)]) ++ cs))
    (hk : ∀ t, Approaching e s t cs → wp k Q E e t) (hE : ∀ rc t, Stopped1 s t → ¬ ReachesHeaders e s → E rc t) : wp (do
      when (!unix) do
        when (!(← strToChar a)) do exit ngxHttpInternalServerError
      k : Handler ℤ β) Q E e u := by
  rw [wp_bind]
  cases unix with
  | true => exact (wp_when _ _).2 ⟨fun h => absurd h (by decide), fun _ => hk u hu⟩
  | false =>
    have hu' : Approaching e s u (.alloc (a.length + 1) :: cs) := hu
    refine (wp_when _ _).2 ⟨fun _ => ?_, fun h => absurd rfl h⟩
    rw [wp_bind, strToChar, wp_alloc]
    exact hu'.checked (fun _ => trivial) (by simp [Event.refused]) hk hE

theorem localSockaddr_then (hu : Approaching e s u (.localSockaddr :: cs))
    (hk : ∀ t, Approaching e s t cs → wp k Q E e t) (hE : ∀ rc t, Stopped1 s t → ¬ ReachesHeaders e s → E rc t) : wp (do
      when ((← invoke .localSockaddr) ≠ ngxOk) do exit ngxHttpInternalServerError
      k : Handler ℤ β) Q E e u := by
  rw [wp_bind, wp_invoke, wp_bind]
  exact hu.checked (fun _ => trivial) (by simp [Event.refused]) hk hE

/-- the connection is described; the engine's answer is not looked at -/
theorem Approaching.processConnection {a b : Bytes} {m n : ℕ}
    (hu : Approaching e s u (.engine s.ctx.corazaTransaction (.processConnection a m b n) :: cs)) :
    Approaching e s (u.log (.call (.engine u.ctx.corazaTransaction (.processConnection a m b n))
      (e.ret u.trace (.engine u.ctx.corazaTransaction (.processConnection a m b n))))) cs := by
  rw [hu.calls.tx]
  exact (hu.next fun _ => ⟨rfl, trivial⟩).2 rfl

/-! ### The headers -/

/-- the bulk submission -/
theorem BatchLog.within {tx : ℕ} {pairs : List HeaderPair} {ok : Bool} {evs : Trace} (h : BatchLog tx pairs ok evs) :
    ∀ ev ∈ evs, ev.Within tx EngineCall.BeforePhase1 := by
  have hwithin : ∀ ev : Event, ev.isAlloc = true → ev.Within tx EngineCall.BeforePhase1 := by
    intro ev hev
    cases ev with
    | poll => cases hev
    | call c rc => cases c <;> trivial
  cases h with
  | empty hnone => exact fun _ hev => absurd hev List.not_mem_nil
  | unsent evs hallocs => exact fun ev hev => hwithin ev (hallocs ev hev)
  | sent evs packed rc hallocs hf =>
    refine List.forall_mem_append.2 ⟨fun ev hev => hwithin ev (hallocs ev hev), ?_⟩
    intro ev hev
    rw [List.mem_singleton.1 hev]
    exact ⟨rfl, trivial⟩

/-- the headers submitted on their own -/
theorem within_describes (tx : ℕ) :
    Describes tx fun _ evs => ∀ ev ∈ evs, ev.Within tx EngineCall.BeforePhase1 where
  nil := fun _ hev => absurd hev List.not_mem_nil
  append := fun h h' => List.forall_mem_append.2 ⟨h, h'⟩
  single := fun p rc ev hev => by
    rw [List.mem_singleton.1 hev]
    exact ⟨rfl, trivial⟩

/-! ### Phase 1 -/

/-- the calls behind phase 1 -/
def EngineCall.BehindPhase1 : EngineCall → Prop
  | .updateStatusCode _ | .processLogging => True
  | _ => False

/-- the calls of a poll that logs nothing -/
def EngineCall.Updates : EngineCall → Prop
  | .updateStatusCode _ => True
  | _ => False

/-- phase 1 was interrupted and the poll returned what leaves the context as it is -/
def Overlooked (s : St) (rest : Trace) : Prop :=
  ∃ tx sent iv, .poll tx sent (some iv) ∈ rest ∧ iv.status ≠ 200 ∧
    (s.r.errorPage = true ∨ (iv.status = 0 ∧ sent = false))

/-- what is behind phase 1: nothing is logged, or the transaction is, once, with the context marked or not -/
structure Behind1 (s : St) (rest : Trace) (t : St) : Prop where
  within : ∀ ev ∈ rest, ev.Within s.ctx.corazaTransaction EngineCall.BehindPhase1
  tx : t.ctx.corazaTransaction = s.ctx.corazaTransaction
  processed : t.ctx.processed = s.ctx.processed
  processable : t.ctx.responseBodyProcessable = s.ctx.responseBodyProcessable
  logging : (t.ctx.logged = false ∧ .processLogging ∉ rest.calls s.ctx.corazaTransaction) ∨
    (t.ctx.logged = true ∧
      (∃ status, rest.calls s.ctx.corazaTransaction = [.updateStatusCode status, .processLogging]) ∧
      (t.ctx.interventionTriggered = true ∨ Overlooked s rest))

/-- what happens behind the evaluation of phase 1 leaves `t` -/
def Left1 (s t : St) : Prop := ∃ rest, t.trace = s.trace ++ rest ∧ Behind1 s rest t

/-- `t` is `s` behind an interruption that the early log has recorded, `rest` being what has happened since -/
structure EarlyLogged (s : St) (iv : Intervention) (rest : Trace) (t : St) : Prop where
  trace : t.trace = s.trace ++ rest
  within : ∀ ev ∈ rest, ev.Within s.ctx.corazaTransaction EngineCall.BehindPhase1
  tx : t.ctx.corazaTransaction = s.ctx.corazaTransaction
  processed : t.ctx.processed = s.ctx.processed
  processable : t.ctx.responseBodyProcessable = s.ctx.responseBodyProcessable
  logged : t.ctx.logged = true
  calls : rest.calls s.ctx.corazaTransaction = [.updateStatusCode iv.status, .processLogging]
  poll : .poll s.ctx.corazaTransaction s.r.headerSent (some iv) ∈ rest
  enforced : iv.status ≠ 200
  errorPage : t.r.errorPage = s.r.errorPage

/-- a step that makes no call on the transaction keeps the record -/
theorem EarlyLogged.confined {s u t : St} {iv : Intervention} {rest : Trace} (h : EarlyLogged s iv rest u)
    (hc : Confined (fun _ => False) u t) (hep : t.r.errorPage = u.r.errorPage) : ∃ rest', EarlyLogged s iv rest' t := by
  obtain ⟨evs, htr, hevs⟩ := hc.trace
  rw [h.tx] at hevs
  have hnone : evs.calls s.ctx.corazaTransaction = [] := by
    rw [List.eq_nil_iff_forall_not_mem]
    exact Trace.forall_calls_of_within hevs
  refine ⟨rest ++ evs, ?_, ?_, hc.tx.trans h.tx, hc.processed.trans h.processed, hc.processable.trans h.processable,
    hc.logged.trans h.logged, ?_, List.mem_append_left _ h.poll, h.enforced, hep.trans h.errorPage⟩
  · rw [htr, h.trace, List.append_assoc]
  · refine List.forall_mem_append.2 ⟨h.within, ?_⟩
    intro x hx
    exact (hevs x hx).mono fun c hc => hc.elim
  · rw [Trace.calls_append, h.calls, hnone, List.append_nil]

/-- the branch on the result of phase 1's poll, behind an early log -/
theorem EarlyLogged.afterPhasePoll {s t : St} {iv : Intervention} {rest : Trace} (h : EarlyLogged s iv rest t) :
    wp (do
      afterPhasePoll (if s.r.headerSent then ngxError else iv.status)
      return ngxDeclined : Handler ℤ ℤ)
      (fun _ => Left1 s) (fun _ => Left1 s) e t := by
  have overlooked : Overlooked s rest → Left1 s t := fun ho =>
    ⟨rest, h.trace, h.within, h.tx, h.processed, h.processable, Or.inr ⟨h.logged, ⟨_, h.calls⟩, Or.inr ho⟩⟩
  have marked : Left1 s t.trigger :=
    ⟨rest, h.trace, h.within, h.tx, h.processed, h.processable, Or.inr ⟨h.logged, ⟨_, h.calls⟩, Or.inl rfl⟩⟩
  rw [wp_bind, CorazaNginx.afterPhasePoll, wp_bind, wp_get, wp_bind]
  refine (wp_when _ _).2 ⟨fun hep => ?_, fun _ => ?_⟩
  · exact overlooked ⟨_, _, _, h.poll, h.enforced, Or.inl (h.errorPage.symm.trans hep)⟩
  rw [wp_bind]
  refine (wp_when _ _).2 ⟨fun _ => ?_, fun hneg => ?_⟩
  · rw [wp_bind, wp_trigger, wp_exit]
    exact marked
  refine (wp_when _ _).2 ⟨fun _ => ?_, fun hpos => ?_⟩
  · rw [wp_bind, wp_trigger, wp_exit]
    exact marked
  · -- the status 0 with the headers not sent
    cases hsent : s.r.headerSent with
    | true =>
      rw [hsent] at hneg
      simp at hneg
    | false =>
      rw [hsent] at hneg hpos
      exact overlooked ⟨_, _, _, h.poll, h.enforced, Or.inr ⟨by simp at hneg hpos; omega, hsent⟩⟩

/-- what an interruption makes of the response behind an early log, and the branch on it -/
theorem EarlyLogged.enforce {s u : St} {iv : Intervention} {rest : Trace} (h : EarlyLogged s iv rest u)
    (hsame : u.r.headerSent = s.r.headerSent) :
    wp (do
      let s ← get
      when s.r.headerSent do exit ngxError
      installRedirect iv
      return iv.status : Handler ℤ ℤ)
      (fun ret t => wp (do
        CorazaNginx.afterPhasePoll ret
        return ngxDeclined : Handler ℤ ℤ) (fun _ => Left1 s) (fun _ => Left1 s) e t)
      (fun ret t => wp (do
        CorazaNginx.afterPhasePoll ret
        return ngxDeclined : Handler ℤ ℤ) (fun _ => Left1 s) (fun _ => Left1 s) e t) e u := by
  rw [wp_bind, wp_get, wp_bind]
  refine (wp_when _ _).2 ⟨fun hsent => ?_, fun hsent => ?_⟩
  · have hbranch := h.afterPhasePoll (e := e)
    have hs : s.r.headerSent = true := hsame.symm.trans hsent
    rwa [if_pos hs] at hbranch
  · have hs : ¬ s.r.headerSent = true := hsame ▸ hsent
    rw [wp_bind]
    have hred : wp (installRedirect iv : Handler ℤ Unit) (fun _ t => t.r.errorPage = u.r.errorPage)
        (fun _ _ => False) e u :=
      installRedirect_spec iv fun t evs h' ht _ _ _ => by rw [ht]; rfl
    refine wp_mono (wp_and hred (installRedirect_keeps (P := fun _ => False) iv e u)) (fun _ t ht => ?_)
      (fun rc t ht => ht.1.elim)
    obtain ⟨rest', h'⟩ := h.confined ht.2 ht.1
    have hbranch := h'.afterPhasePoll (e := e)
    rwa [if_neg hs] at hbranch

/-- the branch on the result of phase 1's poll, where nothing has been logged -/
theorem Confined.afterPhasePoll {s u : St} (hu : Confined EngineCall.Updates s u) (hlog : s.ctx.logged = false)
    (ret : ℤ) :
    wp (do
      afterPhasePoll ret
      return ngxDeclined : Handler ℤ ℤ)
      (fun _ => Left1 s) (fun _ => Left1 s) e u := by
  have hkeeps : Keeps EngineCall.Updates (do
      CorazaNginx.afterPhasePoll ret
      return ngxDeclined : Handler ℤ ℤ) := Keeps.bind (afterPhasePoll_keeps ret) fun _ => Keeps.pure _
  have hend : ∀ t, Confined EngineCall.Updates u t → Left1 s t := by
    intro t ht
    have hst := Confined.trans _ _ _ hu ht
    obtain ⟨rest, htr, hrest⟩ := hst.trace
    refine ⟨rest, htr, ?_, hst.tx, hst.processed, hst.processable, Or.inl ⟨hst.logged.trans hlog, ?_⟩⟩
    · intro ev hev
      exact (hrest ev hev).mono fun c hc => by cases c <;> trivial
    · intro hmem
      exact Trace.forall_calls_of_within hrest _ hmem
  exact wp_mono (hkeeps e u) (fun _ t ht => hend t ht) (fun _ t ht => hend t ht)

/-- the poll behind phase 1, which logs at once -/
theorem earlyPoll_calls (henable : s.r.loc.enable = 1) (hlog : s.ctx.logged = false) (pret : ℤ) : wp (do
      afterPhasePoll (← pollAfterProcess true pret)
      return ngxDeclined : Handler ℤ ℤ)
      (fun _ => Left1 s) (fun _ => Left1 s) e s := by
  have hself : Confined EngineCall.Updates s s := Confined.refl s
  rw [wp_bind]
  refine pollAfterProcess_spec true pret (fun _ => hself.afterPhasePoll hlog _) (fun _ _ => hself.afterPhasePoll hlog _)
    fun _ => ?_
  rw [processIntervention, wp_call, wp_bind, wp_pollEngine]
  set ev := Event.poll s.ctx.corazaTransaction s.r.headerSent (e.intervention s.trace) with hev
  have hpolled : Confined EngineCall.Updates s (s.log ev) := Confined.log rfl
  cases hiv : e.intervention s.trace with
  | none => exact hpolled.afterPhasePoll hlog _
  | some iv =>
    refine (wp_ite _ _ _).2 ⟨fun _ => hpolled.afterPhasePoll hlog _, fun h200 => ?_⟩
    rw [enforceIntervention, wp_bind, wp_engine, wp_bind]
    set upd := Call.engine s.ctx.corazaTransaction (.updateStatusCode iv.status) with hupd
    set rc := e.ret (s.log ev).trace upd
    refine (wp_when _ _).2 ⟨fun _ => ?_, fun hno => absurd rfl hno⟩
    -- the log handler, on a location that is on and a context that has not been logged
    rw [wp_bind, logHandler, wp_call, wp_bind, wp_get, wp_bind]
    refine (wp_when _ _).2 ⟨fun hoff => absurd henable hoff, fun _ => ?_⟩
    rw [wp_bind]
    refine (wp_when _ _).2 ⟨fun hdone => absurd hdone (by simp [hlog]), fun _ => ?_⟩
    rw [wp_bind, wp_engine, wp_bind, wp_modify, wp_pure, wp_modify]
    set logging := Call.engine s.ctx.corazaTransaction .processLogging with hlogging
    set rc' := e.ret ((s.log ev).log (.call upd rc)).trace logging
    set u : St := (((s.log ev).log (.call upd rc)).log (.call logging rc')).setCtx { s.ctx with logged := true } with hu
    have hlogged : EarlyLogged s iv [ev, .call upd rc, .call logging rc'] u := by
      refine ⟨?_, ?_, rfl, rfl, rfl, rfl, ?_, ?_, h200, rfl⟩
      · rw [hu]
        simp
      · simp [hev, hupd, hlogging, Event.Within, EngineCall.BehindPhase1]
      · simp [Trace.calls, hev, hupd, hlogging]
      · rw [hev, hiv]
        exact List.mem_cons_self
    exact hlogged.enforce rfl

/-- the calls of the rewrite handler on the context it has created -/
inductive RewriteCalls (s t : St) : Prop where
  /-- a copy or an address was refused, and the context is as it was -/
  | stopped (h : Stopped1 s t)
  /-- a header is too long, and the context is marked -/
  | tooLong (evs : Trace) (marked : t = (s.logs evs).trigger)
      (before : ∀ ev ∈ evs, ev.Within s.ctx.corazaTransaction EngineCall.BeforePhase1)
  /-- phase 1 has been evaluated -/
  | evaluated (evs rest : Trace) (pret : ℤ)
      (trace : t.trace = s.trace ++ evs ++ .call (.engine s.ctx.corazaTransaction .processRequestHeaders) pret :: rest)
      (before : ∀ ev ∈ evs, ev.Within s.ctx.corazaTransaction EngineCall.BeforePhase1) (behind : Behind1 s rest t)

/-- the handler up to the headers: it has given up, or described the connection and obtained the URI and the method -/
theorem rewriteInspect_spec {Q : ℤ → St → Prop} {E : ρ → St → Prop}
    (hstop : ∀ rc t, Stopped1 s t → ¬ ReachesHeaders e s → Q rc t)
    (hgo : ∀ u, Calls EngineCall.DescribesConnection s u → ReachesHeaders e s → wp (do
      let _ ← engine (.processUri s.r.unparsedUri s.r.methodName (httpRequestVer s.r.httpVersion))
      let bulkDone ← bulkRequestHeaders
      when (!bulkDone) do forEach s.r.headersIn.toList.zipIdx submitRequestHeader
      let pret ← engine .processRequestHeaders
      afterPhasePoll (← pollAfterProcess true pret)
      return ngxDeclined : Handler ℤ ℤ) Q Q e u) : wp (rewriteInspect : Handler ρ ℤ) Q E e s := by
  rw [rewriteInspect, wp_call, wp_bind, wp_get]
  refine address_then s.r.connection.addrText (Approaching.start e s) (fun t1 h1 => ?_) hstop
  refine localSockaddr_then h1 (fun t2 h2 => ?_) hstop
  refine address_then s.r.connection.localAddr h2 (fun t3 h3 => ?_) hstop
  rw [wp_bind, wp_engine]
  refine strToChar_then s.r.unparsedUri h3.processConnection (fun t4 h4 => ?_) hstop
  refine strToChar_then s.r.methodName h4 (fun t5 h5 => ?_) hstop
  exact hgo t5 h5.calls (h5.left.2 trivial)

/-- **The rewrite handler.** -/
theorem rewriteInspect_calls (henable : s.r.loc.enable = 1) (hlog : s.ctx.logged = false) {E : ρ → St → Prop} :
    wp (rewriteInspect : Handler ρ ℤ) (fun _ => RewriteCalls s) E e s := by
  have describes : ∀ {t}, Calls EngineCall.DescribesConnection s t → Calls EngineCall.BeforePhase1 s t := by
    intro t h
    exact h.mono fun c hc => by cases c <;> trivial
  -- phase 1, with whatever has been added before it
  have phase1 : ∀ u, Calls EngineCall.BeforePhase1 s u → wp (do
      let pret ← engine .processRequestHeaders
      afterPhasePoll (← pollAfterProcess true pret)
      return ngxDeclined : Handler ℤ ℤ) (fun _ => RewriteCalls s) (fun _ => RewriteCalls s) e u := by
    rintro u ⟨evs, rfl, hevs⟩
    have hend : ∀ pret t, (∃ rest, t.trace = ((s.logs evs).log
        (.call (.engine s.ctx.corazaTransaction .processRequestHeaders) pret)).trace ++ rest ∧
          Behind1 ((s.logs evs).log (.call (.engine s.ctx.corazaTransaction .processRequestHeaders) pret)) rest t) →
        RewriteCalls s t := by
      rintro pret t ⟨rest, htr, h⟩
      refine .evaluated evs rest pret ?_ hevs ⟨h.within, h.tx, h.processed, h.processable, h.logging⟩
      rw [htr]
      simp
    rw [wp_bind, wp_engine]
    set pret := e.ret (s.logs evs).trace (.engine (s.logs evs).ctx.corazaTransaction .processRequestHeaders)
    have hpoll := earlyPoll_calls (e := e) (s := (s.logs evs).log
      (.call (.engine s.ctx.corazaTransaction .processRequestHeaders) pret)) henable hlog pret
    exact wp_mono hpoll (fun _ t ht => hend pret t ht) (fun _ t ht => hend pret t ht)
  refine rewriteInspect_spec (fun _ _ h _ => .stopped h) fun t5 h5 _ => ?_
  rw [wp_bind, wp_engine, wp_bind]
  have h6 := (describes h5).engine
    (c := .processUri s.r.unparsedUri s.r.methodName (httpRequestVer s.r.httpVersion)) trivial
    (e.ret t5.trace (.engine t5.ctx.corazaTransaction (.processUri s.r.unparsedUri s.r.methodName
      (httpRequestVer s.r.httpVersion))))
  refine bulkRequestHeaders_logs fun bulkDone evs1 hlog => ?_
  have h7 := h6.logs (by rw [← h6.tx]; exact hlog.within)
  rw [wp_bind]
  refine (wp_when _ _).2 ⟨fun _ => ?_, fun _ => phase1 _ h7⟩
  refine submitAll_spec (within_describes _) _ (fun evs2 hevs2 _ => ?_) (fun ps evs2 hevs2 _ => ?_)
  · exact phase1 _ (h7.logs (by rw [← h7.tx]; exact hevs2))
  · obtain ⟨evs, heq, hevs⟩ := h7.logs (by rw [← h7.tx]; exact hevs2)
    rw [heq]
    exact .tooLong evs rfl hevs

end CorazaNginx
