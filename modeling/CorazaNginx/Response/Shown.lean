/-
What the header filter shows the engine before phase 3.

`Shown ps s t`: between `s` and `t` the pairs `ps` have been taken, each either accepted by the engine or added to the
collector, and nothing else has changed. It composes (`Shown.trans`), so that what both passes take is the concatenation
of what each resolver and each list entry contributes (`shownPairs`); `flushResponseHeaders_spec` then says that once
the collector has been flushed the engine has accepted exactly those pairs, in bulk or one by one.
-/
import Mathlib.Tactic
import CorazaNginx.Model.HeaderFilter
import CorazaNginx.Packing

namespace CorazaNginx

open CorazaNginx.Core Prog Handler

variable {ρ : Type} {e : Env} {s : St}

/-! ## Accepted pairs -/

/-- the response header pairs an event makes the engine accept -/
def Event.pairs : Event → List HeaderPair
  | .call (.engine _ (.addResponseHeader p ..)) rc => if rc < 0 then [] else [p]
  | .call (.engine _ (.addResponseHeaders ps ..)) rc => if rc < 0 then [] else ps
  | _ => []

/-- the pairs a stretch of the trace makes the engine accept -/
def Trace.pairs (t : Trace) : List HeaderPair := t.flatMap Event.pairs

@[simp] theorem Trace.pairs_nil : Trace.pairs [] = [] := rfl
@[simp] theorem Trace.pairs_append (a b : Trace) : Trace.pairs (a ++ b) = a.pairs ++ b.pairs := by simp [Trace.pairs]
@[simp] theorem Trace.pairs_single (ev : Event) : Trace.pairs [ev] = ev.pairs := by simp [Trace.pairs]

theorem Event.pairs_of_aux {ev : Event} (h : ev.isAux = true) : ev.pairs = [] := by
  cases ev with
  | poll => rfl
  | call c rc =>
    cases c with
    | engine tx c => cases c <;> first | rfl | cases h
    | _ => rfl

theorem Trace.pairs_of_aux {evs : Trace} (h : ∀ ev ∈ evs, ev.isAux = true) : evs.pairs = [] :=
  List.flatMap_eq_nil_iff.2 fun ev hev => Event.pairs_of_aux (h ev hev)

def Trace.Plain (t : Trace) : Prop := ∀ ev ∈ t, ev.isPlain = true

theorem plain_append {a b : Trace} : Trace.Plain (a ++ b) ↔ a.Plain ∧ b.Plain := List.forall_mem_append

theorem plain_single {ev : Event} : Trace.Plain [ev] ↔ ev.isPlain = true := by simp [Trace.Plain]

theorem Trace.Plain.nil : Trace.Plain [] := fun _ h => absurd h List.not_mem_nil

theorem Trace.Plain.quiet {t : Trace} (h : t.Plain) : t.Quiet := fun ev hev => Event.isOutput_of_plain (h ev hev)

@[simp] theorem St.collect_ctx (c : Option (List HeaderPair)) :
    (s.collect c).ctx = { s.ctx with respHdrCollect := c } := rfl
@[simp] theorem St.collect_r (c : Option (List HeaderPair)) : (s.collect c).r = s.r := rfl
@[simp] theorem St.collect_trace (c : Option (List HeaderPair)) : (s.collect c).trace = s.trace := rfl
theorem St.collect_self : s.collect s.ctx.respHdrCollect = s := rfl
@[simp] theorem St.collect_collect (c d : Option (List HeaderPair)) : (s.collect c).collect d = s.collect d := rfl
theorem St.collect_logs (c : Option (List HeaderPair)) (evs : Trace) :
    (s.collect c).logs evs = (s.logs evs).collect c := rfl

/-- the pairs `ps` have been taken between `s` and `t`, by the engine or the collector -/
def Shown (ps : List HeaderPair) (s t : St) : Prop :=
  ∃ evs c, t = (s.logs evs).collect c ∧ evs.Plain ∧ c.isSome = s.ctx.respHdrCollect.isSome ∧
    evs.pairs ++ c.getD [] = s.ctx.respHdrCollect.getD [] ++ ps

/-- the submission broke off -/
def ShowFailed (s t : St) : Prop :=
  ∃ evs c, t = (s.logs evs).collect c ∧ evs.Plain ∧ ¬ evs.Clean

theorem Shown.refl (s : St) : Shown [] s s :=
  ⟨[], s.ctx.respHdrCollect, by rw [St.logs_nil, St.collect_self], Trace.Plain.nil, rfl, by simp⟩

theorem Shown.trans {ps qs : List HeaderPair} {t u : St} (h : Shown ps s t) (h' : Shown qs t u) :
    Shown (ps ++ qs) s u := by
  obtain ⟨evs, c, rfl, hplain, hsome, hpairs⟩ := h
  obtain ⟨evs', c', rfl, hplain', hsome', hpairs'⟩ := h'
  refine ⟨evs ++ evs', c', ?_, plain_append.2 ⟨hplain, hplain'⟩, hsome'.trans hsome, ?_⟩
  · rw [St.collect_logs, St.logs_logs, St.collect_collect]
  · calc Trace.pairs (evs ++ evs') ++ c'.getD [] = evs.pairs ++ (evs'.pairs ++ c'.getD []) := by simp
      _ = (evs.pairs ++ c.getD []) ++ qs := by rw [hpairs', List.append_assoc]; rfl
      _ = s.ctx.respHdrCollect.getD [] ++ (ps ++ qs) := by rw [hpairs, List.append_assoc]

theorem Shown.failed {ps : List HeaderPair} {t u : St} (h : Shown ps s t) (h' : ShowFailed t u) : ShowFailed s u := by
  obtain ⟨evs, c, rfl, hplain, -, -⟩ := h
  obtain ⟨evs', c', rfl, hplain', hbad⟩ := h'
  refine ⟨evs ++ evs', c', ?_, plain_append.2 ⟨hplain, hplain'⟩, fun hc => hbad (Trace.clean_append.1 hc).2⟩
  rw [St.collect_logs, St.logs_logs, St.collect_collect]

/-! ## One pair -/

theorem not_clean_single {ev : Event} (h : ev.failed = true) : ¬ Trace.Clean [ev] := fun hc => by
  rw [Trace.clean_single.1 hc] at h; cases h

/-- an allocation in the collecting branch -/
theorem collectAlloc_spec (n : ℕ) {Q : Unit → St → Prop} {E : ℤ → St → Prop}
    (hok : ∀ ev : Event, ev.isPlain = true → ev.pairs = [] → Q () (s.log ev))
    (hbad : ∀ t, ShowFailed s t → E ngxError t) :
    wp (do when (!(← alloc n)) do exit ngxError : Handler ℤ Unit) Q E e s := by
  rw [wp_bind, wp_alloc]
  refine (wp_when _ _).2 ⟨fun h => ?_, fun _ => hok _ rfl rfl⟩
  refine hbad _ ⟨[_], _, rfl, plain_single.2 rfl, not_clean_single ?_⟩
  simpa [Event.failed] using h

/-- **One pair.** It is taken, or the submission breaks off with NGX_ERROR. -/
theorem addResponseHeader_spec (p : HeaderPair) {Q : ℤ → St → Prop} {E : ρ → St → Prop}
    (hok : ∀ t, Shown [p] s t → Q ngxOk t) (hbad : ∀ t, ShowFailed s t → Q ngxError t) :
    wp (addResponseHeader p : Handler ρ ℤ) Q E e s := by
  rw [addResponseHeader, wp_call, wp_bind, wp_get]
  cases hc : s.ctx.respHdrCollect with
  | none =>
    rw [wp_bind, wp_engine, wp_bind]
    refine (wp_when _ _).2 ⟨fun hneg => ?_, fun hneg => ?_⟩
    · exact hbad _ ⟨[_], _, rfl, plain_single.2 rfl, not_clean_single (by simpa [Event.failed] using hneg)⟩
    · refine hok _ ⟨[_], _, rfl, plain_single.2 rfl, rfl, ?_⟩
      rw [Trace.pairs_single]
      simp [Event.pairs, hneg, hc]
  | some l =>
    -- the three assignments are to the collector, so every state of the branch is one of these
    have done : ∀ (evs : Trace) c, evs.Plain → evs.pairs = [] →
        Q ngxOk (((s.logs evs).collect c).collect (some (l ++ [p]))) := by
      intro evs c hplain hpairs
      exact hok _ ⟨evs, some (l ++ [p]), rfl, hplain, by rw [hc]; rfl, by simp [hpairs, hc]⟩
    have stop : ∀ (evs : Trace) c t, evs.Plain → ShowFailed ((s.logs evs).collect c) t → Q ngxError t := by
      intro evs c t hplain ht
      obtain ⟨evs', c', rfl, hplain', hdirty⟩ := ht
      refine hbad _ ⟨evs ++ evs', c', by rw [St.collect_logs, St.logs_logs, St.collect_collect],
        plain_append.2 ⟨hplain, hplain'⟩, fun h => ?_⟩
      exact hdirty (Trace.clean_append.1 h).2
    have value : ∀ (evs : Trace) c, evs.Plain → evs.pairs = [] → wp (do
        when (p.value ≠ []) do when (!(← alloc p.value.length)) do exit ngxError
        modify fun s => s.collect (some (l ++ [p]))
        return ngxOk : Handler ℤ ℤ) Q Q e ((s.logs evs).collect c) := by
      intro evs c hplain hpairs
      rw [wp_bind]
      refine (wp_when _ _).2 ⟨fun _ => ?_, fun _ => done evs c hplain hpairs⟩
      refine collectAlloc_spec _ (fun ev hev hevp => ?_) (fun t ht => stop evs c t hplain ht)
      rw [St.log_eq, St.collect_logs, St.logs_logs]
      exact done _ c (plain_append.2 ⟨hplain, plain_single.2 hev⟩) (by simp [hpairs, hevp])
    have name : ∀ (evs : Trace) c, evs.Plain → evs.pairs = [] → wp (do
        when (p.name ≠ []) do when (!(← alloc p.name.length)) do exit ngxError
        modify fun s => s.collect (some (l ++ [{ p with value := [] }]))
        when (p.value ≠ []) do when (!(← alloc p.value.length)) do exit ngxError
        modify fun s => s.collect (some (l ++ [p]))
        return ngxOk : Handler ℤ ℤ) Q Q e ((s.logs evs).collect c) := by
      intro evs c hplain hpairs
      rw [wp_bind]
      refine (wp_when _ _).2 ⟨fun _ => ?_, fun _ => value evs _ hplain hpairs⟩
      refine collectAlloc_spec _ (fun ev hev hevp => ?_) (fun t ht => stop evs c t hplain ht)
      rw [St.log_eq, St.collect_logs, St.logs_logs]
      exact value _ _ (plain_append.2 ⟨hplain, plain_single.2 hev⟩) (by simp [hpairs, hevp])
    rw [wp_bind, wp_alloc, wp_bind]
    refine (wp_when _ _).2 ⟨fun h => ?_, fun _ => ?_⟩
    · refine hbad _ ⟨[_], _, rfl, plain_single.2 rfl, not_clean_single ?_⟩
      simpa [Event.failed] using h
    · exact name [_] _ (plain_single.2 rfl) rfl

/-! ## The dedicated fields -/

/-- the resolver `m` takes the pairs `ps`, or breaks off -/
def Resolves (m : Handler ℤ ℤ) (ps : Env → Request → List HeaderPair) : Prop :=
  ∀ (e : Env) (s : St) (Q : ℤ → St → Prop) (E : ℤ → St → Prop), (∀ t, Shown (ps e s.r) s t → Q ngxOk t) →
    (∀ t, ShowFailed s t → Q ngxError t) → wp m Q E e s

def serverPairs (e : Env) (r : Request) : List HeaderPair :=
  match r.headersOut.server with
  | none => [⟨ascii "Server", if r.clcf.serverTokens then e.nginxVer else ascii "nginx", none⟩]
  | some i => [⟨ascii "Server", (r.headersOut.entry i).value, some i⟩]

def datePairs (e : Env) (r : Request) : List HeaderPair :=
  match r.headersOut.date with
  | none => [⟨ascii "Date", e.cachedHttpTime, none⟩]
  | some i => [⟨ascii "Date", (r.headersOut.entry i).value, some i⟩]

def contentLengthPairs (_ : Env) (r : Request) : List HeaderPair :=
  if 0 ≤ r.headersOut.contentLengthN then [⟨ascii "Content-Length", decimal r.headersOut.contentLengthN, none⟩] else []

def contentTypePairs (_ : Env) (r : Request) : List HeaderPair :=
  if r.headersOut.contentType ≠ [] then [⟨ascii "Content-Type", r.headersOut.contentType, none⟩] else []

def lastModifiedPairs (e : Env) (r : Request) : List HeaderPair :=
  if r.headersOut.lastModifiedTime = -1 then []
  else [⟨ascii "Last-Modified", e.httpTime r.headersOut.lastModifiedTime, r.headersOut.lastModified⟩]

def keepalivePairs (r : Request) : List HeaderPair :=
  if r.clcf.keepaliveHeader ≠ 0 then
    [⟨ascii "Keep-Alive", ascii "timeout=" ++ decimal r.clcf.keepaliveHeader, none⟩]
  else []

def connectionPairs (_ : Env) (r : Request) : List HeaderPair :=
  if ngxHttpVersion20 ≤ r.httpVersion then []
  else if r.headersOut.status = ngxHttpSwitchingProtocols then [⟨ascii "Connection", ascii "upgrade", none⟩]
  else if r.keepalive then keepalivePairs r ++ [⟨ascii "Connection", ascii "keep-alive", none⟩]
  else [⟨ascii "Connection", ascii "close", none⟩]

def transferEncodingPairs (_ : Env) (r : Request) : List HeaderPair :=
  if r.chunked then [⟨ascii "Transfer-Encoding", ascii "chunked", none⟩] else []

def varyPairs (_ : Env) (r : Request) : List HeaderPair :=
  if r.gzipVary && r.clcf.gzipVary then [⟨ascii "Vary", ascii "Accept-Encoding", none⟩] else []

/-- what the first pass takes, resolver by resolver -/
def resolvedPairs : List (Env → Request → List HeaderPair) :=
  [serverPairs, datePairs, contentLengthPairs, contentTypePairs, lastModifiedPairs, connectionPairs,
    transferEncodingPairs, varyPairs]

theorem server_resolves : Resolves (resolvHeaderServer (ascii "Server")) serverPairs := by
  intro e s Q E hok hbad
  rw [resolvHeaderServer, wp_call, wp_bind, wp_ask, wp_bind, wp_get]
  unfold serverPairs at hok
  cases hs : s.r.headersOut.server <;> rw [hs] at hok <;> exact addResponseHeader_spec _ hok hbad

theorem date_resolves : Resolves (resolvHeaderDate (ascii "Date")) datePairs := by
  intro e s Q E hok hbad
  rw [resolvHeaderDate, wp_call, wp_bind, wp_ask, wp_bind, wp_get]
  unfold datePairs at hok
  cases hs : s.r.headersOut.date <;> rw [hs] at hok <;> exact addResponseHeader_spec _ hok hbad

theorem contentLength_resolves : Resolves (resolvHeaderContentLength (ascii "Content-Length")) contentLengthPairs := by
  intro e s Q E hok hbad
  rw [resolvHeaderContentLength, wp_call, wp_bind, wp_get, wp_bind]
  refine (wp_when _ _).2 ⟨fun h => ?_, fun h => ?_⟩
  · rw [contentLengthPairs, if_pos h] at hok
    rw [wp_bind]
    exact addResponseHeader_spec _ hok hbad
  · rw [contentLengthPairs, if_neg h] at hok
    exact hok s (Shown.refl s)

theorem contentType_resolves : Resolves (resolvHeaderContentType (ascii "Content-Type")) contentTypePairs := by
  intro e s Q E hok hbad
  rw [resolvHeaderContentType, wp_call, wp_bind, wp_get, wp_bind]
  refine (wp_when _ _).2 ⟨fun h => ?_, fun h => ?_⟩
  · rw [contentTypePairs, if_pos h] at hok
    rw [wp_bind]
    exact addResponseHeader_spec _ hok hbad
  · rw [contentTypePairs, if_neg h] at hok
    exact hok s (Shown.refl s)

theorem lastModified_resolves : Resolves (resolvHeaderLastModified (ascii "Last-Modified")) lastModifiedPairs := by
  intro e s Q E hok hbad
  rw [resolvHeaderLastModified, wp_call, wp_bind, wp_ask, wp_bind, wp_get, wp_bind]
  refine (wp_when _ _).2 ⟨fun h => ?_, fun h => ?_⟩
  · rw [lastModifiedPairs, if_pos h] at hok
    exact hok s (Shown.refl s)
  · rw [lastModifiedPairs, if_neg h] at hok
    exact addResponseHeader_spec _ hok hbad

theorem connection_resolves : Resolves (resolvHeaderConnection (ascii "Connection")) connectionPairs := by
  intro e s Q E hok hbad
  rw [resolvHeaderConnection, wp_call, wp_bind, wp_get, wp_bind]
  unfold connectionPairs at hok
  refine (wp_when _ _).2 ⟨fun h => ?_, fun h => ?_⟩
  · rw [if_pos h] at hok
    exact hok s (Shown.refl s)
  rw [if_neg h] at hok
  rw [wp_bind]
  refine (wp_when _ _).2 ⟨fun h => ?_, fun h => ?_⟩
  · rw [if_pos h] at hok
    rw [wp_bind]
    exact addResponseHeader_spec _ hok hbad
  rw [if_neg h] at hok
  rw [wp_bind]
  refine (wp_when _ _).2 ⟨fun h => ?_, fun h => ?_⟩
  · rw [if_pos h] at hok
    rw [wp_bind]
    unfold keepalivePairs at hok
    refine (wp_when _ _).2 ⟨fun hk => ?_, fun hk => ?_⟩
    · rw [if_pos hk] at hok
      rw [wp_bind]
      refine addResponseHeader_spec _ (fun t ht => ?_) (fun t ht => ?_)
      · refine (wp_when _ _).2 ⟨fun h => absurd rfl h, fun _ => ?_⟩
        rw [wp_bind]
        exact addResponseHeader_spec _ (fun u hu => hok u (ht.trans hu)) (fun u hu => hbad u (ht.failed hu))
      · exact (wp_when _ _).2 ⟨fun _ => hbad t ht, fun h => absurd (by decide) h⟩
    · rw [if_neg hk] at hok
      rw [wp_bind]
      exact addResponseHeader_spec _ hok hbad
  · rw [if_neg h] at hok
    exact addResponseHeader_spec _ hok hbad

theorem transferEncoding_resolves :
    Resolves (resolvHeaderTransferEncoding (ascii "Transfer-Encoding")) transferEncodingPairs := by
  intro e s Q E hok hbad
  rw [resolvHeaderTransferEncoding, wp_call, wp_bind, wp_get, wp_bind]
  refine (wp_when _ _).2 ⟨fun h => ?_, fun h => ?_⟩
  · rw [transferEncodingPairs, if_pos h] at hok
    rw [wp_bind]
    exact addResponseHeader_spec _ hok hbad
  · rw [transferEncodingPairs, if_neg h] at hok
    exact hok s (Shown.refl s)

theorem vary_resolves : Resolves (resolvHeaderVary (ascii "Vary")) varyPairs := by
  intro e s Q E hok hbad
  rw [resolvHeaderVary, wp_call, wp_bind, wp_get, wp_bind]
  refine (wp_when _ _).2 ⟨fun h => ?_, fun h => ?_⟩
  · rw [varyPairs, if_pos h] at hok
    rw [wp_bind]
    exact addResponseHeader_spec _ hok hbad
  · rw [varyPairs, if_neg h] at hok
    exact hok s (Shown.refl s)

theorem headerResolvers_resolve : List.Forall₂ Resolves headerResolvers resolvedPairs := by
  refine .cons server_resolves (.cons date_resolves (.cons contentLength_resolves (.cons contentType_resolves
    (.cons lastModified_resolves (.cons connection_resolves (.cons transferEncoding_resolves
      (.cons vary_resolves .nil)))))))

/-- the first pass over any list of resolvers: by induction on the list -/
theorem resolvers_spec {ms : List (Handler ℤ ℤ)} {pss : List (Env → Request → List HeaderPair)}
    (h : List.Forall₂ Resolves ms pss) {Q : Unit → St → Prop} {E : ℤ → St → Prop}
    (hok : ∀ t, Shown (pss.flatMap (· e s.r)) s t → Q () t) (hbad : ∀ t, ShowFailed s t → E ngxError t) :
    wp (forEach ms fun resolver => do
      let rc ← resolver
      when (rc ≠ ngxOk) do exit rc) Q E e s := by
  induction h generalizing s with
  | nil => exact hok s (Shown.refl s)
  | cons hm _ ih =>
    rw [forEach, wp_bind, wp_bind]
    refine hm e s _ _ (fun t ht => ?_) (fun t ht => ?_)
    · refine (wp_when _ _).2 ⟨fun h => absurd rfl h, fun _ => ?_⟩
      have hr : t.r = s.r := by obtain ⟨evs, c, rfl, -⟩ := ht; rfl
      refine ih (fun u hu => hok u ?_) (fun u hu => hbad u (ht.failed hu))
      rw [hr] at hu
      exact ht.trans hu
    · exact (wp_when _ _).2 ⟨fun _ => hbad t ht, fun h => absurd (by decide) h⟩

/-! ## The list -/

/-- what the list pass takes of an entry -/
def entryPair (h : HeadersOut) (x : TableElt × ℕ) : Option HeaderPair :=
  if x.1.hash = 0 then none else if h.taken x.2 then none else some ⟨x.1.key, x.1.value, some x.2⟩

def listPairs (r : Request) : List HeaderPair :=
  r.headersOut.headers.toList.zipIdx.filterMap (entryPair r.headersOut)

/-- what both passes take -/
def shownPairs (e : Env) (r : Request) : List HeaderPair := resolvedPairs.flatMap (· e r) ++ listPairs r

theorem entries_spec (l : List (TableElt × ℕ)) {Q : Unit → St → Prop} {E : ℤ → St → Prop}
    (hok : ∀ t, Shown (l.filterMap (entryPair s.r.headersOut)) s t → Q () t)
    (hbad : ∀ t, ShowFailed s t → E ngxError t) :
    wp (forEach l submitEntry) Q E e s := by
  induction l generalizing s with
  | nil => exact hok s (Shown.refl s)
  | cons x l ih =>
    -- what is left of the list once this entry has contributed `ps`
    have rest : ∀ ps t, Shown ps s t → (entryPair s.r.headersOut x).toList = ps →
        wp (forEach l submitEntry) Q E e t := by
      intro ps t ht hps
      have hr : t.r = s.r := by obtain ⟨evs, c, rfl, -⟩ := ht; rfl
      refine ih (fun u hu => hok u ?_) (fun u hu => hbad u (ht.failed hu))
      rw [hr] at hu
      have := ht.trans hu
      rw [← hps] at this
      rw [List.filterMap_cons]
      cases hx : entryPair s.r.headersOut x with
      | none => simpa [hx] using this
      | some p => simpa [hx] using this
    rw [forEach, wp_bind, submitEntry, wp_bind, wp_get]
    refine (wp_ite _ _ _).2 ⟨fun h0 => ?_, fun h0 => (wp_ite _ _ _).2 ⟨fun htk => ?_, fun htk => ?_⟩⟩
    · exact rest [] s (Shown.refl s) (by rw [entryPair, if_pos h0]; rfl)
    · exact rest [] s (Shown.refl s) (by rw [entryPair, if_neg h0, if_pos htk]; rfl)
    · rw [wp_bind]
      refine addResponseHeader_spec _ (fun t ht => ?_) (fun t ht => ?_)
      · refine (wp_when _ _).2 ⟨fun h => absurd rfl h, fun _ => ?_⟩
        exact rest _ t ht (by rw [entryPair, if_neg h0, if_neg htk]; rfl)
      · exact (wp_when _ _).2 ⟨fun _ => hbad t ht, fun h => absurd (by decide) h⟩

theorem submitResponseHeaders_spec {Q : Unit → St → Prop} {E : ℤ → St → Prop}
    (hok : ∀ t, Shown (shownPairs e s.r) s t → Q () t) (hbad : ∀ t, ShowFailed s t → E ngxError t) :
    wp submitResponseHeaders Q E e s := by
  rw [submitResponseHeaders, wp_bind]
  refine resolvers_spec headerResolvers_resolve (fun t ht => ?_) hbad
  have hr : t.r = s.r := by obtain ⟨evs, c, rfl, -⟩ := ht; rfl
  rw [wp_bind, wp_get]
  refine entries_spec _ (fun u hu => hok u ?_) (fun u hu => hbad u (ht.failed hu))
  rw [hr] at hu
  exact ht.trans hu

/-! ## The collected set -/

theorem packHeaders_spec (pairs : List HeaderPair) {Q : Option Bytes → St → Prop} {E : ρ → St → Prop}
    (h : ∀ res evs, Trace.Plain evs → evs.pairs = [] → Q res (s.logs evs)) :
    wp (packHeaders pairs : Handler ρ (Option Bytes)) Q E e s := by
  refine Packing.packHeaders_framed pairs fun res evs hevs _ => h res evs (hevs.forall fun _ => rfl) ?_
  exact List.flatMap_eq_nil_iff.2 (hevs.forall fun _ => rfl)

/-- the bulk call is accepted with all pairs, or no pair has been accepted -/
theorem bulkResponseHeaders_spec (l : List HeaderPair) {Q : Bool → St → Prop} {E : ρ → St → Prop}
    (h : ∀ ok evs, Trace.Plain evs → evs.pairs = (if ok then l else []) → Q ok (s.logs evs)) :
    wp (bulkResponseHeaders l : Handler ρ Bool) Q E e s := by
  rw [bulkResponseHeaders]
  refine (wp_ite _ _ _).2 ⟨fun _ => ?_, fun _ => ?_⟩
  · have := h false [] Trace.Plain.nil rfl
    rwa [St.logs_nil] at this
  · rw [wp_bind]
    refine packHeaders_spec l fun res evs hplain hpairs => ?_
    cases res with
    | none => exact h false evs hplain hpairs
    | some packed =>
      rw [wp_bind, wp_engine, wp_pure, St.logs_log]
      refine h _ _ (plain_append.2 ⟨hplain, plain_single.2 rfl⟩) ?_
      rw [Trace.pairs_append, hpairs, Trace.pairs_single, List.nil_append]
      simp only [Event.pairs, decide_eq_true_eq]
      split_ifs <;> first | rfl | omega

/-- replaying the set one by one -/
theorem replay_spec (l : List HeaderPair) {Q : Unit → St → Prop} {E : ℤ → St → Prop}
    (hok : ∀ t, Shown l s t → Q () t) (hbad : ∀ t, ShowFailed s t → E ngxError t) :
    wp (forEach l fun p => do
      let rc ← addResponseHeader p
      when (rc ≠ ngxOk) do exit rc) Q E e s := by
  induction l generalizing s with
  | nil => exact hok s (Shown.refl s)
  | cons p l ih =>
    rw [forEach, wp_bind, wp_bind]
    refine addResponseHeader_spec p (fun t ht => ?_) (fun t ht => ?_)
    · refine (wp_when _ _).2 ⟨fun h => absurd rfl h, fun _ => ?_⟩
      exact ih (fun u hu => hok u (ht.trans hu)) (fun u hu => hbad u (ht.failed hu))
    · exact (wp_when _ _).2 ⟨fun _ => hbad t ht, fun h => absurd (by decide) h⟩

/-- the engine has accepted the pairs `ps` between `s` and `t`, and the collector is detached -/
def Accepted (ps : List HeaderPair) (s t : St) : Prop :=
  ∃ evs, t = (s.logs evs).collect none ∧ evs.Plain ∧ evs.pairs = ps

theorem flushResponseHeaders_spec {Q : Unit → St → Prop} {E : ℤ → St → Prop}
    (hok : ∀ t, Accepted (s.ctx.respHdrCollect.getD []) s t → Q () t) (hbad : ∀ t, ShowFailed s t → E ngxError t) :
    wp flushResponseHeaders Q E e s := by
  rw [flushResponseHeaders, wp_bind, wp_get]
  cases hc : s.ctx.respHdrCollect with
  | none =>
    refine hok s ⟨[], ?_, Trace.Plain.nil, by rw [hc]; rfl⟩
    rw [St.logs_nil, ← hc, St.collect_self]
  | some l =>
    rw [hc] at hok
    rw [wp_bind, wp_modify, wp_bind]
    change wp _ _ _ e (s.collect none)
    refine bulkResponseHeaders_spec l fun ok evs hplain hpairs => ?_
    cases ok with
    | true => exact (wp_when _ _).2 ⟨fun h => absurd h (by decide), fun _ => hok _ ⟨evs, rfl, hplain, hpairs⟩⟩
    | false =>
      refine (wp_when _ _).2 ⟨fun _ => ?_, fun h => absurd rfl h⟩
      refine replay_spec l (fun t ht => ?_) (fun t ht => ?_)
      · obtain ⟨evs', c, rfl, hplain', hsome, hpairs'⟩ := ht
        have hc' : c = none := by
          cases c with
          | none => rfl
          | some => cases hsome
        subst hc'
        refine hok _ ⟨evs ++ evs', by rw [St.collect_logs, St.collect_logs, St.logs_logs]; rfl,
          plain_append.2 ⟨hplain, hplain'⟩, ?_⟩
        rw [Trace.pairs_append, hpairs]
        simpa using hpairs'
      · obtain ⟨evs', c, rfl, hplain', hdirty⟩ := ht
        refine hbad _ ⟨evs ++ evs', c, by rw [St.collect_logs, St.collect_logs, St.logs_logs]; rfl,
          plain_append.2 ⟨hplain, hplain'⟩, fun h => hdirty (Trace.clean_append.1 h).2⟩

/-- **Both passes and the flush.** The engine has accepted exactly the pairs shown, or the submission broke off. -/
theorem showHeaders_spec {Q : Unit → St → Prop} {E : ℤ → St → Prop} (armed : s.ctx.respHdrCollect.getD [] = [])
    (hok : ∀ t, Accepted (shownPairs e s.r) s t → Q () t) (hbad : ∀ t, ShowFailed s t → E ngxError t) :
    wp submitResponseHeaders (fun _ => wp flushResponseHeaders Q E e) E e s := by
  refine submitResponseHeaders_spec (fun t ht => ?_) hbad
  refine flushResponseHeaders_spec (fun u hu => hok u ?_) (fun u hu => hbad u (ht.failed hu))
  obtain ⟨evs, c, rfl, hplain, hsome, hpairs⟩ := ht
  obtain ⟨evs', rfl, hplain', hpairs'⟩ := hu
  refine ⟨evs ++ evs', by rw [St.collect_logs, St.logs_logs]; rfl, plain_append.2 ⟨hplain, hplain'⟩, ?_⟩
  rw [armed, List.nil_append] at hpairs
  rw [Trace.pairs_append, hpairs', ← hpairs]
  rfl

/-! ## The submission as a block -/

/-- a property of blocks that the steps of the submission have: an allocation, a change of the collector, the call for
one pair, and the bulk submission -/
structure Carried (K : ∀ {ρ α : Type}, Handler ρ α → Prop) : Prop extends Compositional K where
  alloc : ∀ {ρ : Type} (n : ℕ), K (alloc n : Handler ρ Bool)
  collect : ∀ {ρ : Type} (g : Option (List HeaderPair) → Option (List HeaderPair)),
    K (modify fun s => s.collect (g s.ctx.respHdrCollect) : Handler ρ Unit)
  single : ∀ {ρ : Type} (p : HeaderPair),
    K (engine (.addResponseHeader p (cInt p.name.length) (cInt p.value.length)) : Handler ρ ℤ)
  bulk : ∀ {ρ : Type} (l : List HeaderPair), K (bulkResponseHeaders l : Handler ρ Bool)

namespace Carried

variable {K : ∀ {ρ α : Type}, Handler ρ α → Prop}

theorem addResponseHeader (h : Carried K) (p : HeaderPair) : K (addResponseHeader p : Handler ρ ℤ) := by
  refine h.call (h.bind h.get fun s => ?_)
  cases s.ctx.respHdrCollect with
  | none => exact h.bind (h.single p) fun rc => h.bind (h.when (h.exit _)) fun _ => h.pure _
  | some l =>
    have copy : ∀ n : ℕ, K (do when (!(← Handler.alloc n)) do exit ngxError : Handler ℤ Unit) := fun n =>
      h.bind (h.alloc n) fun _ => h.when (h.exit _)
    refine h.bind (h.alloc _) fun ok => h.bind (h.when (h.exit _)) fun _ => ?_
    refine h.bind (h.collect fun _ => _) fun _ => h.bind (h.when (copy _)) fun _ => ?_
    refine h.bind (h.collect fun _ => _) fun _ => h.bind (h.when (copy _)) fun _ => ?_
    exact h.bind (h.collect fun _ => _) fun _ => h.pure _

/-- every dedicated field goes through `addResponseHeader` -/
theorem headerResolvers (h : Carried K) : ∀ m ∈ (headerResolvers : List (Handler ρ ℤ)), K m := by
  have add : ∀ p : HeaderPair, K (CorazaNginx.addResponseHeader p : Handler ℤ ℤ) := h.addResponseHeader
  have last : ∀ p : HeaderPair, K (do exit (← CorazaNginx.addResponseHeader p) : Handler ℤ Unit) := fun p =>
    h.bind (add p) fun _ => h.exit _
  simp only [CorazaNginx.headerResolvers, List.forall_mem_cons, List.not_mem_nil, false_imp_iff, implies_true, and_true]
  refine ⟨?_, ?_, ?_, ?_, ?_, ?_, ?_, ?_⟩
  · refine h.call (h.bind h.ask fun e => h.bind h.get fun s => ?_)
    cases s.r.headersOut.server <;> exact add _
  · refine h.call (h.bind h.ask fun e => h.bind h.get fun s => ?_)
    cases s.r.headersOut.date <;> exact add _
  · exact h.call (h.bind h.get fun s => h.bind (h.when (last _)) fun _ => h.pure _)
  · exact h.call (h.bind h.get fun s => h.bind (h.when (last _)) fun _ => h.pure _)
  · refine h.call (h.bind h.ask fun e => h.bind h.get fun s => ?_)
    exact h.bind (h.when (h.exit _)) fun _ => add _
  · refine h.call (h.bind h.get fun s => h.bind (h.when (h.exit _)) fun _ => ?_)
    refine h.bind (h.when (last _)) fun _ => h.bind (h.when ?_) fun _ => add _
    exact h.bind (h.when (h.bind (add _) fun rc => h.when (h.exit _))) fun _ => last _
  · exact h.call (h.bind h.get fun s => h.bind (h.when (last _)) fun _ => h.pure _)
  · exact h.call (h.bind h.get fun s => h.bind (h.when (last _)) fun _ => h.pure _)

theorem submitResponseHeaders (h : Carried K) : K submitResponseHeaders := by
  have first : K (forEach CorazaNginx.headerResolvers fun resolver => do
      let rc ← resolver
      when (rc ≠ ngxOk) do exit rc : Handler ℤ Unit) :=
    h.forEach fun m hm => h.bind (h.headerResolvers m hm) fun rc => h.when (h.exit _)
  refine h.bind first fun _ => h.bind h.get fun s => ?_
  refine h.forEach fun x _ => h.bind h.get fun s => ?_
  refine h.ite (h.pure _) (h.ite (h.pure _) ?_)
  exact h.bind (h.addResponseHeader _) fun rc => h.when (h.exit _)

theorem flushResponseHeaders (h : Carried K) : K flushResponseHeaders := by
  refine h.bind h.get fun s => ?_
  cases s.ctx.respHdrCollect with
  | none => exact h.pure ()
  | some l =>
    refine h.bind (h.collect fun _ => none) fun _ => h.bind (h.bulk l) fun ok => h.when ?_
    exact h.forEach fun p _ => h.bind (h.addResponseHeader p) fun rc => h.when (h.exit _)

/-- **The submission.** What the steps have, both passes with the flush behind them have. -/
theorem submission (h : Carried K) :
    K (CorazaNginx.submitResponseHeaders >>= fun _ => CorazaNginx.flushResponseHeaders) :=
  h.bind h.submitResponseHeaders fun _ => h.flushResponseHeaders

end Carried

end CorazaNginx
