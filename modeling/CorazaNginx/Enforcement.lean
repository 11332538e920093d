/-
Is every interruption enforced at every poll site?

A `Site` is one of the four places where the module polls the engine while a request or a response is under way. The
helper they share returns one integer (`interventionRc`), and each site decodes it. `Site.Reads sent status` says when a
site's decoding takes an interruption with that status for one, `sent` being `r->header_sent` at the poll: the two phase
handlers and the body filter compare with NGX_OK, which an interruption of status 0 is returned as, and the header
filter tests for a positive code, which leaves out every negative one as well. `interruption_enforced_iff`: a site
enforces every interruption with a given status that it fetches, whatever else happens, exactly when it reads it.
-/
import Mathlib.Tactic
import CorazaNginx.Request.Heeding
import CorazaNginx.Response.HeaderOutcome
import CorazaNginx.Response.Run

namespace CorazaNginx

open CorazaNginx.Core Prog Handler

variable {e : Env} {s t : St}

/-- where the engine is polled -/
inductive Site where
  | rewrite
  | preAccess
  | headerFilter
  | bodyFilter
deriving DecidableEq

/-- one call; the chain is the body filter's argument -/
def Site.run (site : Site) (inn : List Buf) (e : Env) (s : St) : ℤ × St :=
  match site with
  | .rewrite => (rewriteInspect : Handler ℤ ℤ).run e s
  | .preAccess => (preAccessHandler : Handler ℤ ℤ).run e s
  | .headerFilter => (CorazaNginx.headerFilter : Handler ℤ ℤ).run e s
  | .bodyFilter => (CorazaNginx.bodyFilter inn : Handler ℤ ℤ).run e s

/-- what the call adds to the trace -/
def Site.events (site : Site) (inn : List Buf) (e : Env) (s : St) : Trace :=
  (site.run inn e s).2.trace.drop s.trace.length

/-- the context is marked and the traffic does not go on -/
def Site.Enforced (site : Site) (inn : List Buf) (e : Env) (s : St) (status : ℤ) : Prop :=
  (site.run inn e s).2.ctx.interventionTriggered = true ∧
  match site with
  | .rewrite | .preAccess => (site.run inn e s).1 ≠ ngxDeclined ∧ (site.run inn e s).1 ≠ ngxOk
  | .headerFilter => (site.run inn e s).2.ctx.headersDelayed = s.ctx.headersDelayed ∧
      ∀ h only rc, .call (.nextHeader h only) rc ∈ site.events inn e s → only = true ∧ h.status = status
  | .bodyFilter => (∀ ev ∈ site.events inn e s, ev.isBody = false) ∧
      ∀ l ∈ (site.run inn e s).2.ctx.pendingChain, l ∈ s.ctx.pendingChain

/-- the site takes an interruption with this status for one -/
def Site.Reads (site : Site) (sent : Bool) (status : ℤ) : Prop :=
  match site with
  | .headerFilter => sent = false ∧ 0 < status
  | _ => sent = true ∨ status ≠ 0

theorem interventionRc_ne_zero {sent : Bool} {iv : Intervention} (h200 : iv.status ≠ 200)
    (h : sent = true ∨ iv.status ≠ 0) : interventionRc sent (some iv) ≠ 0 := by
  intro hrc
  rcases (interventionRc_eq_zero sent iv).1 hrc with h' | ⟨h0, hsent⟩
  · exact h200 h'
  · rcases h with h | h
    · rw [h] at hsent
      cases hsent
    · exact h h0

/-! ## The phase handlers -/

theorem drop_of_trace {u v : Trace} {evs : Trace} (h : v = u ++ evs) : v.drop u.length = evs := by
  rw [h, List.drop_left]

/-- a return that heeded its polls, one of which interrupted -/
theorem Heeded.enforced {rc : ℤ} (h : Heeded s rc t) {ev : Event} (hev : ev ∈ t.trace.drop s.trace.length)
    (hint : ev.interrupts = true) : t.ctx.interventionTriggered = true ∧ rc ≠ ngxDeclined ∧ rc ≠ ngxOk := by
  refine h.resolve_left fun hu => ?_
  obtain ⟨evs, htr, hevs⟩ := hu.trace
  rw [drop_of_trace htr] at hev
  rw [hevs ev hev] at hint
  cases hint

theorem rewrite_enforces {tx : ℕ} {sent : Bool} {iv : Intervention} {inn : List Buf} (hep : s.r.errorPage = false)
    (hmem : .poll tx sent (some iv) ∈ Site.rewrite.events inn e s) (hrc : interventionRc sent (some iv) ≠ 0) :
    Site.rewrite.Enforced inn e s iv.status := by
  have h : Heeded s (Site.rewrite.run inn e s).1 (Site.rewrite.run inn e s).2 :=
    (wp_run (Q := Heeded s) rewriteInspect).1 (rewriteInspect_heeds hep)
  exact h.enforced hmem (by simpa [Event.interrupts] using hrc)

theorem preAccess_enforces {tx : ℕ} {sent : Bool} {iv : Intervention} {inn : List Buf} (hep : s.r.errorPage = false)
    (hmem : .poll tx sent (some iv) ∈ Site.preAccess.events inn e s) (hrc : interventionRc sent (some iv) ≠ 0) :
    Site.preAccess.Enforced inn e s iv.status := by
  have h : Heeded s (Site.preAccess.run inn e s).1 (Site.preAccess.run inn e s).2 :=
    (wp_run (Q := Heeded s) preAccessHandler).1 (preAccessHandler_heeds hep)
  exact h.enforced hmem (by simpa [Event.interrupts] using hrc)

/-! ## The body filter -/

theorem not_mem_of_clean {evs : Trace} {tx : ℕ} {sent : Bool} {iv : Intervention} (h : evs.Clean)
    (hrc : interventionRc sent (some iv) ≠ 0) : .poll tx sent (some iv) ∉ evs := by
  intro hmem
  have hfail := h _ hmem
  simp [Event.failed] at hfail
  exact hrc hfail

theorem bodyFilter_enforces {tx : ℕ} {sent : Bool} {iv : Intervention} {inn : List Buf} (hep : s.r.errorPage = false)
    (hmem : .poll tx sent (some iv) ∈ Site.bodyFilter.events inn e s) (hrc : interventionRc sent (some iv) ≠ 0) :
    Site.bodyFilter.Enforced inn e s iv.status := by
  unfold Site.Enforced
  unfold Site.events at hmem ⊢
  simp only [Site.run] at hmem ⊢
  rcases bodyFilter_clean_or_blocked (e := e) inn hep with ⟨evs, htr, hclean⟩ | hb
  · -- a call that adds nothing that failed has fetched no interruption
    rw [drop_of_trace htr] at hmem
    exact absurd hmem (not_mem_of_clean hclean hrc)
  generalize ((bodyFilter inn : Handler ℤ ℤ).run e s).2 = t at hmem hb ⊢
  obtain ⟨evs, ev, status, htr, href, hend, -⟩ := hb.trace
  rw [List.append_assoc, St.setInn_trace] at htr
  rw [drop_of_trace htr]
  refine ⟨hb.triggered, fun x hx => ?_, fun l hl => ?_⟩
  · rcases List.mem_append.1 hx with hx | hx
    · exact Event.isBody_of_not_output (href.quiet x hx)
    · rw [List.mem_singleton.1 hx]
      exact hend.notBody
  · rw [hb.queue] at hl
    split_ifs at hl with hd
    · cases hl
    · exact hl

/-! ## The header filter -/

/-- headers in a stretch all come from what ended it -/
theorem header_mem_of_quiet {a b : Trace} {h : HeadersOut} {only : Bool} {rc : ℤ} (ha : a.Quiet)
    (hmem : .call (.nextHeader h only) rc ∈ a ++ b) : .call (.nextHeader h only) rc ∈ b := by
  rcases List.mem_append.1 hmem with h' | h'
  · have hq := ha _ h'
    cases hq
  · exact h'

theorem Polled3.quiet {upTo : Trace} {ret : ℤ} {v : St} (h : Polled3 e upTo s ret v) :
    ∃ evs : Trace, v.trace = s.trace ++ evs ∧ evs.Quiet := by
  cases h with
  | skipped => exact ⟨[], (List.append_nil _).symm, Trace.Quiet.nil⟩
  | polled evs h aux zero sound inst =>
    refine ⟨_, rfl, fun ev hev => ?_⟩
    rcases List.mem_cons.1 hev with rfl | hev
    · rfl
    · exact Event.isOutput_of_aux (aux ev hev)

theorem headerFilter_enforces {tx : ℕ} {sent : Bool} {iv : Intervention} {inn : List Buf} (hep : s.r.errorPage = false)
    (hmem : .poll tx sent (some iv) ∈ Site.headerFilter.events inn e s)
    (hpos : 0 < interventionRc sent (some iv)) :
    Site.headerFilter.Enforced inn e s (interventionRc sent (some iv)) := by
  unfold Site.Enforced
  unfold Site.events at hmem ⊢
  simp only [Site.run] at hmem ⊢
  by_cases hpass : s.ctx.interventionTriggered = true ∨ s.ctx.processed = true
  · rw [headerFilter_passive hpass, drop_of_trace (St.forwarded_trace _), List.mem_singleton] at hmem
    cases hmem
  rw [not_or, Bool.not_eq_true, Bool.not_eq_true] at hpass
  have ho := headerFilter_outcome (e := e) hpass.1 hpass.2
  generalize ((headerFilter : Handler ℤ ℤ).run e s).2 = t at hmem ho ⊢
  cases ho with
  | broken evs c plain dirty =>
    rw [St.setCtx_trace, St.logs_trace, List.drop_left] at hmem
    have hp := plain _ hmem
    cases hp
  | dispatched evs p ret v _ upTo poll out =>
    obtain ⟨evs2, h2, hq2⟩ := poll.quiet
    have hevs : ∀ evs3, t.trace = v.trace ++ evs3 → t.trace.drop s.trace.length = (evs ++ evs2) ++ evs3 := by
      intro evs3 h3
      refine drop_of_trace ?_
      rw [h3, h2, St.phase3_trace, List.append_assoc, List.append_assoc, List.append_assoc]
    have hq : Trace.Quiet (evs ++ evs2) := Trace.quiet_append.2 ⟨upTo.quiet, hq2⟩
    -- the interruption fetched is the one the code returned comes from
    have hret : .poll tx sent (some iv) ∈ evs2 → ret = interventionRc sent (some iv) := by
      intro hin
      cases poll with
      | skipped ret failed =>
        obtain rfl := trace_cancel h2 (List.append_nil _).symm
        cases hin
      | polled evs' h aux zero sound inst =>
        obtain rfl := trace_cancel h2 (St.polled_trace _ _ _ _)
        rcases List.mem_cons.1 hin with heq | hin
        · injection heq with _ h1 h2
          rw [h1, h2]
        · have := aux _ hin
          cases this
    have hlocal : .poll tx sent (some iv) ∈ evs2 := by
      obtain ⟨evs3, h3, hp3⟩ := out.trace_noPoll
      rw [hevs evs3 h3] at hmem
      rcases List.mem_append.1 hmem with hin | hin
      · rcases List.mem_append.1 hin with hin | hin
        · have hno := upTo.noPoll _ hin
          cases hno
        · exact hin
      · have hno := hp3 _ hin
        cases hno
    rw [← hret hlocal] at hpos ⊢
    have hv : v.r.errorPage = s.r.errorPage ∧ v.ctx.headersDelayed = s.ctx.headersDelayed := by
      cases poll with
      | skipped => exact ⟨rfl, rfl⟩
      | polled => exact ⟨rfl, rfl⟩
    cases out with
    | yielded rc hep' => rw [hv.1, hep] at hep'; cases hep'
    | redirected rc _ _ _ =>
      refine ⟨rfl, hv.2, fun h only rc' hin => ?_⟩
      rw [hevs [_] (St.forwarded_trace _)] at hin
      have heq := List.mem_singleton.1 (header_mem_of_quiet hq hin)
      injection heq with heq _
      injection heq with hh honly
      exact ⟨honly, by rw [hh]; rfl⟩
    | finalized rc _ _ _ =>
      refine ⟨rfl, hv.2, fun h only rc' hin => ?_⟩
      rw [hevs [_] rfl] at hin
      have heq := List.mem_singleton.1 (header_mem_of_quiet hq hin)
      cases heq
    | delayed _ hnon _ => exact absurd hpos (not_lt.2 hnon)
    | forwarded rc _ hnon _ => exact absurd hpos (not_lt.2 hnon)

/-! ## Where an interruption is not enforced -/

/-- an unmarked context shows that the interruption was not enforced -/
theorem not_enforced_of_untriggered {site : Site} {inn : List Buf} {status : ℤ}
    (h : (site.run inn e s).2.ctx.interventionTriggered = false) : ¬ site.Enforced inn e s status := by
  intro henf
  have htrig := henf.1
  rw [h] at htrig
  cases htrig

/-- an engine that has only this interruption to offer, in an environment where allocations fail in the header filter's
collector, so that every pair is submitted on its own -/
def interruptingEnv (iv : Intervention) : Env := { Env.calm (.fill 1) with
  intervention := fun _ => some iv
  ret := fun t call => match call with
    | .engine _ .processRequestHeaders => 1
    | .engine _ (.processResponseHeaders ..) => 1
    | .alloc n => if n = 512 then 0 else 1
    | _ => (Env.calm (.fill 1)).ret t call }

/-- a request whose response headers are neither delayed nor sent through `errorPage` -/
def plainState (sent : Bool) : St :=
  { r := { headerSent := sent, requestBody := some {}, loc := { delayResponseHeaders := 0 } },
    ctx := { bodyRequested := true, responseBodyProcessable := true } }

/-- status 0, headers not sent: read as NGX_OK everywhere -/
theorem status_zero_passes (site : Site) :
    .poll 0 false (some ⟨0, none⟩) ∈ site.events [{ last := 1, memory := true }] (interruptingEnv ⟨0, none⟩)
      (plainState false) ∧
    ¬ site.Enforced [{ last := 1, memory := true }] (interruptingEnv ⟨0, none⟩) (plainState false) 0 := by
  refine ⟨?_, not_enforced_of_untriggered ?_⟩
  · cases site <;> decide +kernel
  · cases site <;> decide +kernel

/-- the interruption has been fetched and the context is not marked -/
def PassedBy (iv : Intervention) (sent : Bool) (t : St) : Prop :=
  Event.poll 0 sent (some iv) ∈ t.trace ∧ t.ctx.interventionTriggered = false

/-- the state in which the headers are submitted when the collector could not be allocated -/
def uncollected (s : St) : St :=
  (s.log (.call (.alloc 512) 0)).setCtx { s.ctx with processed := true, respHdrCollect := none }

/-- a submission that does not break off, without a collector, only logs -/
theorem submit_logs (hcol : s.ctx.respHdrCollect = none) (hgo : (submitResponseHeaders e s).1 = .go ())
    {E : ℤ → St → Prop} :
    wp submitResponseHeaders (fun _ t => ∃ evs, t = s.logs evs) E e s := by
  have hshown : wp submitResponseHeaders (fun _ t => Shown (shownPairs e s.r) s t) (fun _ => ShowFailed s) e s :=
    submitResponseHeaders_spec (fun _ ht => ht) fun _ ht => ht
  refine wp_of_go hgo ?_
  obtain ⟨evs, c, ht, -, hsome, -⟩ := of_wp_go hgo hshown
  have hc : c = none := by
    rw [hcol] at hsome
    exact Option.isNone_iff_eq_none.1 (by simpa using hsome)
  refine ⟨evs, ht.trans ?_⟩
  rw [hc, ← hcol]
  rfl

theorem submit_uncollected (iv : Intervention) (sent : Bool) :
    (submitResponseHeaders (interruptingEnv iv) (uncollected (plainState sent))).1 = .go () := by
  rfl

/-- a code that is not positive marks nothing -/
theorem Dispatched.untriggered {ret : ℤ} (h : Dispatched e ret s t) (hret : ret ≤ 0) :
    (∃ evs, t.trace = s.trace ++ evs) ∧ t.ctx.interventionTriggered = s.ctx.interventionTriggered := by
  cases h with
  | yielded rc _ => exact ⟨⟨_, St.forwarded_trace rc⟩, rfl⟩
  | redirected _ _ pos _ => exact absurd pos (not_lt.2 hret)
  | finalized _ _ pos _ => exact absurd pos (not_lt.2 hret)
  | delayed _ _ _ => exact ⟨⟨[], (List.append_nil _).symm⟩, rfl⟩
  | forwarded rc _ _ _ => exact ⟨⟨_, St.forwarded_trace rc⟩, rfl⟩

/-- from the submission on: phase 3, the poll, and the response forwarded -/
theorem flush_passedBy {iv : Intervention} {sent : Bool} (h : interventionRc sent (some iv) ≤ 0)
    (he : e.intervention = fun _ => some iv)
    (h3 : ∀ t tx st v, e.ret t (.engine tx (.processResponseHeaders st v)) = corazaInterruption)
    (hsent : s.r.headerSent = sent) (htx : s.ctx.corazaTransaction = 0) (hcol : s.ctx.respHdrCollect = none)
    (ht : s.ctx.interventionTriggered = false) :
    wp (do
      flushResponseHeaders
      dispatchHeaders (← processResponseHeaders)
      return ngxOk : Handler ℤ ℤ) (fun _ => PassedBy iv sent) (fun _ => PassedBy iv sent) e s := by
  rw [wp_bind, flushResponseHeaders, wp_bind, wp_get, hcol, wp_pure, wp_bind, processResponseHeaders, wp_bind, wp_get,
    wp_bind, wp_engine, wp_bind, wp_engine, wp_bind, wp_modify, h3]
  refine pollAfterProcess_spec false corazaInterruption (fun h => absurd h (by decide)) (fun _ h => absurd rfl h)
    fun _ => ?_
  refine processIntervention_spec false fun u evs h' l hu _ _ _ _ => ?_
  subst hu
  rw [wp_bind]
  refine dispatchHeaders_spec _ fun rc v hv => ?_
  rw [he] at hv
  have hret : interventionRc s.r.headerSent (some iv) ≤ 0 := by rw [hsent]; exact h
  obtain ⟨⟨evs', htr⟩, htrig⟩ := hv.untriggered hret
  refine ⟨?_, htrig.trans ht⟩
  have hev : ∀ u : St, u.ctx.corazaTransaction = 0 → u.r.headerSent = sent →
      pollEvent e u = .poll 0 sent (some iv) := by
    intro u hu hus
    rw [pollEvent, hus, hu, he]
  rw [htr]
  refine List.mem_append_left _ (List.mem_append_right _ ?_)
  refine List.mem_cons.2 (Or.inl (Eq.symm (hev _ ?_ ?_)))
  · exact htx
  · exact hsent

theorem headerFilter_passedBy (sent : Bool) (iv : Intervention) (h : interventionRc sent (some iv) ≤ 0) :
    PassedBy iv sent ((headerFilter : Handler ℤ ℤ).run (interruptingEnv iv) (plainState sent)).2 := by
  refine run_state (m := headerFilter) (P := PassedBy iv sent) ?_
  have hgo := submit_uncollected iv sent
  have halloc : (interruptingEnv iv).ret (plainState sent).trace (.alloc 512) = 0 := rfl
  have he : (interruptingEnv iv).intervention = fun _ => some iv := rfl
  have h3 : ∀ t tx st v, (interruptingEnv iv).ret t (.engine tx (.processResponseHeaders st v)) = corazaInterruption :=
    fun _ _ _ _ => rfl
  have hs : (plainState sent).ctx.interventionTriggered = false ∧ (plainState sent).ctx.processed = false ∧
    (plainState sent).ctx.corazaTransaction = 0 ∧ (plainState sent).r.headerSent = sent := ⟨rfl, rfl, rfl, rfl⟩
  generalize interruptingEnv iv = e at *
  generalize plainState sent = s at *
  obtain ⟨ht, hp, htx, hsent⟩ := hs
  rw [headerFilter, wp_call, wp_bind, wp_get, wp_bind]
  refine (wp_when _ _).2 ⟨fun h => absurd h (by simp [ht]), fun _ => ?_⟩
  rw [wp_bind]
  refine (wp_when _ _).2 ⟨fun h => absurd h (by simp [hp]), fun _ => ?_⟩
  rw [wp_bind, wp_modify, wp_bind, wp_alloc, wp_bind, wp_modify, wp_bind]
  have hstate : uncollected s = (((s.setCtx { s.ctx with processed := true }).log (.call (.alloc 512)
      (e.ret s.trace (.alloc 512)))).setCtx { s.ctx with
        processed := true, respHdrCollect :=
          if decide (e.ret s.trace (.alloc 512) ≠ 0) = true then some [] else none }) := by
    rw [halloc]
    rfl
  change wp _ _ _ e (((s.setCtx { s.ctx with processed := true }).log (.call (.alloc 512)
      (e.ret s.trace (.alloc 512)))).setCtx { s.ctx with
        processed := true, respHdrCollect := if decide (e.ret s.trace (.alloc 512) ≠ 0) = true then some [] else none })
  rw [← hstate]
  refine wp_mono (submit_logs rfl hgo (E := fun _ _ => False)) (fun _ t ht' => ?_) (fun _ _ h => h.elim)
  obtain ⟨evs, rfl⟩ := ht'
  exact flush_passedBy h he h3 hsent htx rfl ht

/-- a code that is not positive is read as no intervention in the header filter -/
theorem nonpositive_passes (sent : Bool) (iv : Intervention) (h : interventionRc sent (some iv) ≤ 0) (inn : List Buf) :
    .poll 0 sent (some iv) ∈ Site.headerFilter.events inn (interruptingEnv iv) (plainState sent) ∧
      ∀ status, ¬ Site.headerFilter.Enforced inn (interruptingEnv iv) (plainState sent) status := by
  have hpass := headerFilter_passedBy sent iv h
  have hnil : (plainState sent).trace = [] := rfl
  generalize interruptingEnv iv = e at *
  generalize plainState sent = s at *
  constructor
  · rw [Site.events, hnil, List.length_nil, List.drop_zero]
    exact hpass.1
  · exact fun status => not_enforced_of_untriggered hpass.2

/-! ## The exact condition -/

theorem interventionRc_pos {sent : Bool} {iv : Intervention} (h200 : iv.status ≠ 200) :
    0 < interventionRc sent (some iv) ↔ sent = false ∧ 0 < iv.status := by
  cases sent with
  | false => simp [interventionRc_unsent h200]
  | true => simp [interventionRc_sent h200]

/-- **Enforced exactly where read.** A site enforces every interruption it fetches with a given status, whatever the
engine and nginx answer and whatever the request, if and only if it reads that status as one. -/
theorem interruption_enforced_iff (site : Site) (sent : Bool) (status : ℤ) (h200 : status ≠ 200) :
    (∀ (e : Env) (s : St) (inn : List Buf) (tx : ℕ) (iv : Intervention), s.r.errorPage = false → iv.status = status →
      .poll tx sent (some iv) ∈ site.events inn e s → site.Enforced inn e s status) ↔ site.Reads sent status := by
  constructor
  · intro hall
    by_cases hreads : site.Reads sent status
    · exact hreads
    exfalso
    -- what is not read is status 0 with the headers not sent, and more at the header filter
    have hzero : ∀ site : Site, ¬ (sent = true ∨ status ≠ 0) → (∀ (e : Env) (s : St) (inn : List Buf) (tx : ℕ)
        (iv : Intervention), s.r.errorPage = false → iv.status = status →
        .poll tx sent (some iv) ∈ site.events inn e s → site.Enforced inn e s status) → False := by
      intro site hnot hall
      rw [not_or, Bool.not_eq_true, not_not] at hnot
      obtain ⟨rfl, rfl⟩ := hnot
      obtain ⟨hpoll, hnot⟩ := status_zero_passes site
      exact hnot (hall _ _ _ _ _ rfl rfl hpoll)
    cases site with
    | rewrite => exact hzero _ hreads hall
    | preAccess => exact hzero _ hreads hall
    | bodyFilter => exact hzero _ hreads hall
    | headerFilter =>
      have hrc : interventionRc sent (some ⟨status, none⟩) ≤ 0 :=
        not_lt.1 fun hpos => hreads ((interventionRc_pos h200).1 hpos)
      obtain ⟨hpoll, hnot⟩ := nonpositive_passes sent ⟨status, none⟩ hrc []
      exact hnot status (hall _ _ _ _ _ rfl rfl hpoll)
  · intro hreads e s inn tx iv hep hst hmem
    subst hst
    cases site with
    | rewrite => exact rewrite_enforces hep hmem (interventionRc_ne_zero h200 hreads)
    | preAccess => exact preAccess_enforces hep hmem (interventionRc_ne_zero h200 hreads)
    | bodyFilter => exact bodyFilter_enforces hep hmem (interventionRc_ne_zero h200 hreads)
    | headerFilter =>
      obtain ⟨hsent, hpos⟩ := hreads
      subst hsent
      have h := headerFilter_enforces hep hmem ((interventionRc_pos h200).2 ⟨rfl, hpos⟩)
      rw [interventionRc_unsent h200] at h
      exact h

theorem forbidden_enforced :
    Site.bodyFilter.Enforced [{ last := 1, memory := true }] (interruptingEnv ⟨403, none⟩) (plainState false) 403 :=
  (interruption_enforced_iff .bodyFilter false 403 (by decide)).2 (Or.inr (by decide)) _ _ _ 0 ⟨403, none⟩ rfl rfl
    (by decide +kernel)

/-- **Not every status is enforced.** At status 0 with the headers not sent the rewrite handler returns NGX_DECLINED
with the interruption fetched. -/
theorem interruption_status_zero_passes :
    (Site.rewrite.run [] (interruptingEnv ⟨0, none⟩) (plainState false)).1 = ngxDeclined ∧
    ¬ ∀ (site : Site) (e : Env) (s : St) (inn : List Buf) (tx : ℕ) (sent : Bool) (iv : Intervention),
      s.r.errorPage = false → iv.status ≠ 200 → .poll tx sent (some iv) ∈ site.events inn e s →
      site.Enforced inn e s iv.status := by
  refine ⟨by decide +kernel, fun h => ?_⟩
  obtain ⟨hpoll, hnot⟩ := status_zero_passes .rewrite
  exact hnot (h .rewrite _ _ _ 0 false ⟨0, none⟩ rfl (by decide) hpoll)

end CorazaNginx
