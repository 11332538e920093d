/-
What one poll of the engine does, whoever makes it.

- `processIntervention_spec`: a call of `processIntervention` records exactly one poll, returns `interventionRc` of the
  answer, and otherwise touches only `headers_out` and, with an early log, `ctx->logged`. When it returns NGX_OK the
  request is as it was and nothing failed.
- `pollAfterProcess_spec`: the same for a poll made on the engine's CORAZA_INTERRUPTION answer.
- `interventionRc_eq_zero`: the one integer status other than 200 that is returned as NGX_OK.
-/
import Mathlib.Tactic
import CorazaNginx.Spec.Stretch

namespace CorazaNginx

open CorazaNginx.Core Prog Handler

variable {ρ : Type} {e : Env} {s : St}

/-! ## The returned integer -/

@[simp] theorem interventionRc_none (sent : Bool) : interventionRc sent none = 0 := rfl

/-- NGX_OK is returned for an interruption exactly when its status is 200, or 0 with the headers not sent -/
theorem interventionRc_eq_zero (sent : Bool) (iv : Intervention) :
    interventionRc sent (some iv) = 0 ↔ iv.status = 200 ∨ (iv.status = 0 ∧ sent = false) := by
  unfold interventionRc
  by_cases h : iv.status = 200
  · simp [h]
  · cases sent <;> simp [h]

/-- once the headers are out every interruption but status 200 is NGX_ERROR -/
theorem interventionRc_sent {iv : Intervention} (h : iv.status ≠ 200) : interventionRc true (some iv) = -1 := by
  simp [interventionRc, h]

theorem interventionRc_unsent {iv : Intervention} (h : iv.status ≠ 200) :
    interventionRc false (some iv) = iv.status := by
  simp [interventionRc, h]

/-! ## The poll -/

@[simp] theorem Request.setHeadersOut_self (r : Request) : r.setHeadersOut r.headersOut = r := rfl

/-- what a poll may change: it records `evs`, sets `headers_out` to `h` and `ctx->logged` to `l` -/
def St.polled (s : St) (evs : Trace) (h : HeadersOut) (l : Bool) : St :=
  ((s.logs evs).setR (s.r.setHeadersOut h)).setCtx { s.ctx with logged := l }

@[simp] theorem St.polled_r (s : St) (evs : Trace) (h : HeadersOut) (l : Bool) :
    (s.polled evs h l).r = s.r.setHeadersOut h := rfl
@[simp] theorem St.polled_ctx (s : St) (evs : Trace) (h : HeadersOut) (l : Bool) :
    (s.polled evs h l).ctx = { s.ctx with logged := l } := rfl
@[simp] theorem St.polled_inn (s : St) (evs : Trace) (h : HeadersOut) (l : Bool) : (s.polled evs h l).inn = s.inn := rfl
@[simp] theorem St.polled_trace (s : St) (evs : Trace) (h : HeadersOut) (l : Bool) :
    (s.polled evs h l).trace = s.trace ++ evs := rfl
theorem St.polled_self (s : St) (evs : Trace) : s.polled evs s.r.headersOut s.ctx.logged = s.logs evs := rfl

theorem St.eq_polled {s' : St} {evs : Trace} {h : HeadersOut} {l : Bool} (hr : s'.r = s.r.setHeadersOut h)
    (hc : s'.ctx = { s.ctx with logged := l }) (hi : s'.inn = s.inn) (ht : s'.trace = s.trace ++ evs) :
    s' = s.polled evs h l := by
  cases s'
  simp only at hr hc hi ht
  subst hr hc hi ht
  rfl

/-- the log handler records at most the logging call and sets at most the flag -/
theorem logHandler_spec {Q : ℤ → St → Prop} {E : ρ → St → Prop}
    (h : ∀ rc s' (evs : Trace) l, s' = s.polled evs s.r.headersOut l → (∀ ev ∈ evs, ev.isAux = true) → evs.Clean →
      Q rc s') :
    wp (logHandler : Handler ρ ℤ) Q E e s := by
  simp only [logHandler, wp_call, wp_bind, wp_get, wp_when, wp_exit, wp_engine, wp_modify, wp_pure]
  have h0 : Q ngxOk s :=
    h ngxOk s [] s.ctx.logged (by rw [St.polled_self, St.logs_nil]) (by simp) Trace.Clean.nil
  refine ⟨fun _ => h0, fun _ => ⟨fun _ => h0, fun _ => ?_⟩⟩
  refine h ngxOk _ [_] true rfl ?_ ?_
  · simp [Event.isAux]
  · exact Trace.clean_single.2 rfl

/-- `headers_out` with the Location of an interruption installed, if it has one -/
def HeadersOut.installed (h : HeadersOut) (iv : Intervention) : HeadersOut :=
  match redirectTarget iv with
  | some data => h.pushLocation.setLocation h.headers.toList.length (safeLocation data)
  | none => h

/-- installing a redirect changes `headers_out` only, and nothing when there is no redirect target -/
theorem installRedirect_spec (iv : Intervention) {Q : Unit → St → Prop} {E : ρ → St → Prop}
    (h : ∀ s' (evs : Trace) h', s' = s.polled evs h' s.ctx.logged → (∀ ev ∈ evs, ev.isAux = true) →
      (redirectTarget iv = none → evs = [] ∧ h' = s.r.headersOut) →
      (evs.Clean → h' = s.r.headersOut.installed iv) → Q () s') :
    wp (installRedirect iv : Handler ρ Unit) Q E e s := by
  unfold installRedirect
  cases hd : redirectTarget iv with
  | none =>
    refine h s [] s.r.headersOut (by rw [St.polled_self, St.logs_nil]) (by simp) (fun _ => ⟨rfl, rfl⟩) fun _ => ?_
    rw [HeadersOut.installed, hd]
  | some data =>
    have hne : ¬ redirectTarget iv = none := by simp [hd]
    -- an allocation that failed is no clean stretch
    have dirty : ∀ (n : ℕ) (rc : ℤ) (evs : Trace), rc = 0 → Event.call (.alloc n) rc ∈ evs → ¬ evs.Clean := by
      intro n rc evs hrc hmem hc
      have hfail := hc _ hmem
      simp [Event.failed, hrc] at hfail
    simp only [installLocation, wp_bind, wp_alloc, wp_when, wp_get, wp_modify]
    refine ⟨fun _ => ⟨fun _ => ?_, fun hcopy => ?_⟩, fun hpush => ?_⟩
    · refine h _ ([_] ++ [_]) _ (St.eq_polled rfl rfl rfl (List.append_assoc _ _ _)) ?_ (fun hn => absurd hn hne) ?_
      · simp [Event.isAux]
      · intro _
        rw [HeadersOut.installed, hd]
        rfl
    · refine h _ ([_] ++ [_]) _ (St.eq_polled rfl rfl rfl (List.append_assoc _ _ _)) ?_ (fun hn => absurd hn hne) ?_
      · simp [Event.isAux]
      · exact fun hc => absurd hc (dirty _ _ _ (not_not.1 fun h => hcopy (decide_eq_true h))
          (List.mem_append_right _ (List.mem_singleton_self _)))
    · refine h _ [_] s.r.headersOut rfl ?_ (fun hn => absurd hn hne) ?_
      · simp [Event.isAux]
      · exact fun hc => absurd hc
          (dirty _ _ _ (not_not.1 fun h => hpush (decide_eq_true h)) (List.mem_singleton_self _))

theorem redirectTarget_of_zero {iv : Intervention} (h : iv.status = 0) : redirectTarget iv = none := by
  simp [redirectTarget, isRedirectStatus, h]

/-- what follows the early log: the code returned, and the frame -/
theorem enforce_after_log (iv : Intervention) {Q : ℤ → St → Prop}
    (h : ∀ s' (evs : Trace) h', s' = s.polled evs h' s.ctx.logged → (∀ ev ∈ evs, ev.isAux = true) →
      (s.r.headerSent = false → iv.status = 0 → evs.Clean ∧ h' = s.r.headersOut) →
      (s.r.headerSent = false → evs.Clean → h' = s.r.headersOut.installed iv) →
      Q (if s.r.headerSent then ngxError else iv.status) s') :
    wp (do
      let s ← get
      when s.r.headerSent do exit ngxError
      installRedirect iv
      return iv.status : Handler ℤ ℤ) Q Q e s := by
  simp only [wp_bind, wp_get, wp_when, wp_exit]
  refine ⟨fun hsent => ?_, fun hsent => ?_⟩
  · rw [if_pos hsent] at h
    exact h s [] s.r.headersOut (by rw [St.polled_self, St.logs_nil]) (by simp) (fun _ _ => ⟨Trace.Clean.nil, rfl⟩)
      fun hu => absurd (hu.symm.trans hsent) (by decide)
  · rw [if_neg hsent] at h
    refine installRedirect_spec iv fun s' evs h' hs' haux hnone hinst =>
      h s' evs h' hs' haux (fun _ hz => ?_) fun _ => hinst
    obtain ⟨rfl, hh⟩ := hnone (redirectTarget_of_zero hz)
    exact ⟨Trace.Clean.nil, hh⟩

/-- acting on an interruption: the code returned, and the frame -/
theorem enforceIntervention_spec (early : Bool) (iv : Intervention) {Q : ℤ → St → Prop}
    (h : ∀ s' (evs : Trace) h' l, s' = s.polled evs h' l → (∀ ev ∈ evs, ev.isAux = true) →
      (early = false → l = s.ctx.logged) →
      (s.r.headerSent = false → iv.status = 0 → evs.Clean ∧ h' = s.r.headersOut) →
      (s.r.headerSent = false → evs.Clean → h' = s.r.headersOut.installed iv) →
      Q (if s.r.headerSent then ngxError else iv.status) s') :
    wp (enforceIntervention early iv) Q Q e s := by
  rw [enforceIntervention, wp_bind, wp_engine, wp_bind]
  set upd := Event.call (.engine s.ctx.corazaTransaction (.updateStatusCode iv.status))
    (e.ret s.trace (.engine s.ctx.corazaTransaction (.updateStatusCode iv.status)))
  have haux : ∀ ev ∈ [upd], ev.isAux = true := by simp [upd, Event.isAux]
  have hclean : Trace.Clean [upd] := Trace.clean_single.2 rfl
  refine (wp_when _ _).2 ⟨fun hearly => ?_, fun hearly => ?_⟩
  · rw [wp_bind]
    refine logHandler_spec fun _ s1 evs l hs1 hevs hevsClean => ?_
    subst hs1
    rw [wp_modify]
    refine enforce_after_log iv fun s2 evs' h' hs2 haux' hzero hinst => ?_
    refine h s2 (([upd] ++ evs) ++ evs') h' true ?_ ?_ (fun h0 => absurd hearly (by simp [h0])) (fun hs hz => ?_)
      fun hs hc => hinst hs (Trace.clean_append.1 hc).2
    · subst hs2
      exact St.eq_polled rfl rfl rfl (by simp)
    · exact List.forall_mem_append.2 ⟨List.forall_mem_append.2 ⟨haux, hevs⟩, haux'⟩
    · obtain ⟨h1, h2⟩ := hzero hs hz
      exact ⟨Trace.clean_append.2 ⟨Trace.clean_append.2 ⟨hclean, hevsClean⟩, h1⟩, h2⟩
  · refine enforce_after_log iv fun s2 evs' h' hs2 haux' hzero hinst => ?_
    refine h s2 ([upd] ++ evs') h' s.ctx.logged ?_ ?_ (fun _ => rfl) (fun hs hz => ?_)
      fun hs hc => hinst hs (Trace.clean_append.1 hc).2
    · subst hs2
      exact St.eq_polled rfl rfl rfl (by simp)
    · exact List.forall_mem_append.2 ⟨haux, haux'⟩
    · obtain ⟨h1, h2⟩ := hzero hs hz
      exact ⟨Trace.clean_append.2 ⟨hclean, h1⟩, h2⟩

/-- the poll a call of `processIntervention` records -/
def pollEvent (e : Env) (s : St) : Event :=
  .poll s.ctx.corazaTransaction s.r.headerSent (e.intervention s.trace)

/-- what an interruption makes of `headers_out` when it can still be acted on and nothing fails -/
def Installs (e : Env) (s : St) (evs : Trace) (h' : HeadersOut) : Prop :=
  ∀ iv, e.intervention s.trace = some iv → iv.status ≠ 200 → s.r.headerSent = false → evs.Clean →
    h' = s.r.headersOut.installed iv

/-- **One poll.** It is recorded, the code returned is `interventionRc`, and on NGX_OK nothing else has changed. -/
theorem processIntervention_spec (early : Bool) {Q : ℤ → St → Prop} {E : ρ → St → Prop}
    (h : ∀ s' (evs : Trace) h' l, s' = s.polled (pollEvent e s :: evs) h' l → (∀ ev ∈ evs, ev.isAux = true) →
      (early = false → l = s.ctx.logged) →
      (interventionRc s.r.headerSent (e.intervention s.trace) = 0 → evs.Clean ∧ h' = s.r.headersOut) →
      Installs e s evs h' → Q (interventionRc s.r.headerSent (e.intervention s.trace)) s') :
    wp (processIntervention early : Handler ρ ℤ) Q E e s := by
  rw [processIntervention, wp_call, wp_bind, wp_pollEngine]
  change wp _ Q Q e (s.log (pollEvent e s))
  have h0 : interventionRc s.r.headerSent (e.intervention s.trace) = 0 →
      (∀ iv, e.intervention s.trace = some iv → iv.status = 200) → Q 0 (s.log (pollEvent e s)) := by
    intro hrc h200
    rw [hrc] at h
    exact h _ [] s.r.headersOut s.ctx.logged rfl (by simp) (fun _ => rfl) (fun _ => ⟨Trace.Clean.nil, rfl⟩)
      fun iv hiv hne => absurd (h200 iv hiv) hne
  cases hiv : e.intervention s.trace with
  | none =>
    rw [hiv] at h0
    exact h0 rfl nofun
  | some iv =>
    have hinstalls : ∀ evs h', Installs e s evs h' ↔
        (iv.status ≠ 200 → s.r.headerSent = false → evs.Clean → h' = s.r.headersOut.installed iv) := by
      intro evs h'
      refine ⟨fun hi => hi iv hiv, fun hi iv' hiv' => ?_⟩
      rw [hiv] at hiv'
      injection hiv' with hiv'
      exact hiv' ▸ hi
    rw [hiv] at h0 h
    refine (wp_ite _ _ _).2 ⟨fun h200 => ?_, fun h200 => ?_⟩
    · refine h0 ((interventionRc_eq_zero _ _).2 (Or.inl h200)) fun iv' hiv' => ?_
      injection hiv' with hiv'
      rw [← hiv', h200]
    · have hrc : interventionRc s.r.headerSent (some iv) = if s.r.headerSent then ngxError else iv.status := by
        rw [interventionRc, if_neg h200]
      refine enforceIntervention_spec early iv fun s' evs h' l hs' haux hlate hclean hinst => ?_
      rw [St.log_r, ← hrc]
      refine h s' evs h' l ?_ haux hlate (fun hz => ?_) ((hinstalls evs h').2 fun _ => hinst)
      · subst hs'
        exact St.eq_polled rfl rfl rfl (by simp)
      · rcases (interventionRc_eq_zero _ _).1 hz with h' | ⟨h', hs⟩
        · exact absurd h' h200
        · exact hclean hs h'

/-- the poll that follows a phase: made on CORAZA_INTERRUPTION only -/
theorem pollAfterProcess_spec (early : Bool) (pret : ℤ) {Q : ℤ → St → Prop} {E : ρ → St → Prop}
    (hneg : pret < 0 → Q ngxHttpInternalServerError s) (hskip : 0 ≤ pret → pret ≠ corazaInterruption → Q ngxOk s)
    (hpoll : pret = corazaInterruption → wp (processIntervention early : Handler ℤ ℤ) Q Q e s) :
    wp (pollAfterProcess early pret : Handler ρ ℤ) Q E e s := by
  simp only [pollAfterProcess, wp_call, wp_bind, wp_when, wp_exit]
  refine ⟨hneg, fun h0 => ⟨hskip (by omega), fun h1 => hpoll (by simpa using h1)⟩⟩

end CorazaNginx
