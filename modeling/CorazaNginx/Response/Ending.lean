/-
Ending a response early from inside the body filter.

`Exit e status s t`: from `s`, `bodyFilterFinalize` with that status left `t`. Either the delayed headers are replaced
by a redirect that carries the status and is header-only, or the request is finalized with the status; in both cases the
delay and everything queued are given up. `Stopped` is what a failing branch has done before it gets there, and
`Blocked` the two in sequence: no buffer went out, and something failed, was interrupted, or could not be inspected. The
status is that of an internal error or the one a poll has just returned.
-/
import Mathlib.Tactic
import CorazaNginx.Spec.Poll

namespace CorazaNginx

open CorazaNginx.Core Prog Handler

variable {ρ : Type} {e : Env} {s : St}

/-- how `bodyFilterFinalize` ends the response -/
inductive Exit (e : Env) (status : ℤ) (s : St) : St → Prop where
  | redirect (rc : ℤ) (delayed : s.ctx.headersDelayed = true) (code : isRedirectStatus status = true) :
      Exit e status s (((s.dropDelayed.setR (prepareRedirect s.r status)).setInn (s.inn.map Buf.drain)).log
        (.call (.nextHeader (prepareRedirect s.r status).headersOut true) rc) |>.setR
          ((prepareRedirect s.r status).afterHeader e))
  | finalize (rc : ℤ) (unredirected : ¬ (s.ctx.headersDelayed = true ∧ isRedirectStatus status = true ∧
      s.r.headersOut.location.isSome = true)) :
      Exit e status s
        (((if s.ctx.headersDelayed then s.dropDelayed else s).log (.call (.finalizeRequest status) rc)).setR
        (e.finalized s.r))

/-- the two events that end a response with a status -/
inductive IsEnd (status : ℤ) : Event → Prop where
  | redirect (h : HeadersOut) (rc : ℤ) (code : isRedirectStatus status = true) (carries : h.status = status) :
      IsEnd status (.call (.nextHeader h true) rc)
  | finalize (rc : ℤ) : IsEnd status (.call (.finalizeRequest status) rc)

theorem IsEnd.evals {status : ℤ} {ev : Event} (h : IsEnd status ev) : ev.isEval = false := by
  cases h <;> rfl

theorem IsEnd.notBody {status : ℤ} {ev : Event} (h : IsEnd status ev) : ev.isBody = false := by
  cases h <;> rfl

namespace Exit

variable {status : ℤ} {t : St}

theorem triggered (h : Exit e status s t) : t.ctx.interventionTriggered = s.ctx.interventionTriggered := by
  cases h with
  | redirect => rfl
  | finalize => cases hd : s.ctx.headersDelayed <;> simp

theorem delayed (h : Exit e status s t) : t.ctx.headersDelayed = false := by
  cases h with
  | redirect => rfl
  | finalize => cases hd : s.ctx.headersDelayed <;> simp [hd]

/-- the queue is dropped when the headers were delayed, and left alone otherwise -/
theorem queue (h : Exit e status s t) :
    t.ctx.pendingChain = if s.ctx.headersDelayed then [] else s.ctx.pendingChain := by
  cases h with
  | redirect rc hd => simp [hd]
  | finalize => cases hd : s.ctx.headersDelayed <;> simp

theorem trace (h : Exit e status s t) : ∃ ev, t.trace = s.trace ++ [ev] ∧ IsEnd status ev := by
  cases h with
  | redirect rc hd hs => exact ⟨_, rfl, .redirect _ rc hs rfl⟩
  | finalize rc =>
    refine ⟨.call (.finalizeRequest status) rc, ?_, .finalize rc⟩
    cases s.ctx.headersDelayed <;> simp

/-- a forwarded redirect leaves the chain in hand consumed and the request as the next header filter left it -/
theorem redirected (h : Exit e status s t) (hdr : HeadersOut) (only : Bool) (rc : ℤ)
    (hev : t.trace = s.trace ++ [.call (.nextHeader hdr only) rc]) :
    t.inn = s.inn.map Buf.drain ∧ ∃ r : Request, r.headerOnly = true ∧ t.r = r.afterHeader e := by
  cases h with
  | redirect rc' hd hs => exact ⟨rfl, _, rfl, rfl⟩
  | finalize rc' =>
    exfalso
    cases hd : s.ctx.headersDelayed <;> simp [hd] at hev

end Exit

theorem bodyFilterFinalize_spec (status : ℤ) {Q : ℤ → St → Prop} {E : ρ → St → Prop}
    (h : ∀ rc t, Exit e status s t → Q rc t) : wp (bodyFilterFinalize status : Handler ρ ℤ) Q E e s := by
  set ret := e.ret s.trace (.finalizeRequest status) with hret
  have final := fun hu => h ret _ (Exit.finalize ret hu)
  rw [hret] at final
  simp only [bodyFilterFinalize, forwardHeader, nextHeaderFilter, filterFinalizeRequest, bodyFilterConsume, wp_call,
    wp_bind, wp_get, wp_modify, wp_exit, wp_ask, wp_invoke, wp_pure, wp_when]
  refine ⟨fun hd => ⟨fun hc => ?_, fun hc => ?_⟩, fun hd => ⟨fun hc => ?_, fun hc => ?_⟩⟩
  · simp only [Bool.and_eq_true] at hc
    exact h _ _ (Exit.redirect _ hd hc.1.2)
  · rw [if_pos hd] at final
    refine final fun hu => hc ?_
    simpa using ⟨⟨hu.1, hu.2.1⟩, hu.2.2⟩
  · simp only [Bool.and_eq_true] at hc
    exact absurd hc.1.1 hd
  · rw [if_neg hd] at final
    exact final fun hu => hd hu.1

theorem block_spec (status : ℤ) {Q : Unit → St → Prop} {E : ℤ → St → Prop}
    (h : ∀ rc t, Exit e status s.trigger t → E rc t) : wp (block status) Q E e s := by
  rw [block, wp_bind, wp_trigger, wp_bind]
  exact bodyFilterFinalize_spec status h

theorem bodyFilterInternalError_spec {Q : ℤ → St → Prop} {E : ρ → St → Prop}
    (h : ∀ rc t, Exit e ngxHttpInternalServerError s.trigger t → Q rc t) :
    wp (bodyFilterInternalError : Handler ρ ℤ) Q E e s := by
  rw [bodyFilterInternalError, wp_call, wp_bind, wp_trigger]
  exact bodyFilterFinalize_spec _ h

/-! ## A failing branch -/

/-- the status a failing branch ends the response with: that of an internal error, or the one a poll has returned -/
def StatusOf (evs : Trace) (status : ℤ) : Prop :=
  status = ngxHttpInternalServerError ∨ ∃ tx sent iv, Event.poll tx sent iv ∈ evs ∧ interventionRc sent iv = status

/-- the status the branch on a poll's result ends the response with -/
def blockStatus (ret : ℤ) : ℤ := if 0 < ret then ret else ngxHttpInternalServerError

/-- why a failing branch ends the response with this status, and what it has made of `headers_out`: no poll was the
reason, or the poll behind a stretch in which nothing failed -/
inductive Account (sent : Bool) (h : HeadersOut) : Trace → ℤ → HeadersOut → Prop where
  | internal (evs : Trace) (silent : ∀ ev ∈ evs, ev.interrupts = false) :
      Account sent h evs ngxHttpInternalServerError h
  | polled (pre post : Trace) (tx : ℕ) (iv : Option Intervention) (h' : HeadersOut) (clean : pre.Clean)
      (aux : ∀ ev ∈ post, ev.isAux = true) (rc : interventionRc sent iv ≠ 0)
      (inst : ∀ iv', iv = some iv' → iv'.status ≠ 200 → sent = false → post.Clean → h' = h.installed iv') :
      Account sent h (pre ++ .poll tx sent iv :: post) (blockStatus (interventionRc sent iv)) h'

theorem Account.statusOf {sent : Bool} {h h' : HeadersOut} {evs : Trace} {status : ℤ}
    (ha : Account sent h evs status h') :
    StatusOf evs status := by
  cases ha with
  | internal => exact Or.inl rfl
  | polled pre post tx iv =>
    unfold blockStatus
    split_ifs
    · exact Or.inr ⟨tx, sent, iv, by simp, rfl⟩
    · exact Or.inl rfl

/-- behind a stretch in which nothing failed -/
theorem Account.after {sent : Bool} {h h' : HeadersOut} {evs l : Trace} {status : ℤ} (hl : l.Clean)
    (ha : Account sent h evs status h') : Account sent h (l ++ evs) status h' := by
  cases ha with
  | internal evs silent => exact .internal _ (List.forall_mem_append.2 ⟨hl.silent, silent⟩)
  | polled pre post tx iv h' clean aux rc inst =>
    rw [← List.append_assoc]
    exact .polled _ post tx iv h' (Trace.clean_append.2 ⟨hl, clean⟩) aux rc inst

/-- with something failed that is neither a poll nor bookkeeping -/
theorem Account.internal_of {sent : Bool} {h h' : HeadersOut} {evs : Trace} {status : ℤ}
    (ha : Account sent h evs status h') {ev : Event} (hev : ev ∈ evs) (hf : ev.failed = true) (hp : ev.isPoll = false)
    (hx : ev.isAux = false) : status = ngxHttpInternalServerError := by
  cases ha with
  | internal => rfl
  | polled pre post tx iv h' clean aux =>
    exfalso
    rcases List.mem_append.1 hev with hin | hin
    · rw [clean ev hin] at hf
      cases hf
    · rcases List.mem_cons.1 hin with rfl | hin
      · cases hp
      · rw [aux ev hin] at hx
        cases hx

/-- with bookkeeping behind -/
theorem Account.append {sent : Bool} {h h' : HeadersOut} {evs l : Trace} {status : ℤ}
    (ha : Account sent h evs status h') (hl : ∀ ev ∈ l, ev.isAux = true) : Account sent h (evs ++ l) status h' := by
  cases ha with
  | internal evs silent =>
    exact .internal _ (List.forall_mem_append.2 ⟨silent, fun ev hev => Event.interrupts_of_aux (hl ev hev)⟩)
  | polled pre post tx iv h' clean aux rc inst =>
    rw [List.append_assoc, List.cons_append]
    exact .polled pre _ tx iv h' clean (List.forall_mem_append.2 ⟨aux, hl⟩) rc fun iv' h1 h2 h3 hc =>
      inst iv' h1 h2 h3 (Trace.clean_append.1 hc).1

/-- a failing branch before the response is ended: the context is marked and the rest is as it was -/
structure Stopped (n : ℕ) (P : Prop) (status : ℤ) (s t : St) : Prop where
  trace : ∃ evs, t.trace = s.trace ++ evs ∧ Refused evs n P ∧
    Account s.r.headerSent s.r.headersOut evs status t.r.headersOut
  req : ∃ h, t.r = s.r.setHeadersOut h
  triggered : t.ctx.interventionTriggered = true
  delayed : t.ctx.headersDelayed = s.ctx.headersDelayed
  queue : s.ctx.headersDelayed = false → t.ctx.pendingChain = s.ctx.pendingChain
  chain : t.inn.length = s.inn.length

/-- a failing branch, then the end of the response -/
def Blocked (e : Env) (n : ℕ) (P : Prop) (s t : St) : Prop :=
  ∃ m status, Stopped n P status s m ∧ Exit e status m t

theorem Stopped.mono {n n' : ℕ} {P P' : Prop} {status : ℤ} {t : St} (h : Stopped n P status s t) (hn : n ≤ n')
    (hP : P → P') : Stopped n' P' status s t := by
  obtain ⟨evs, ht, hr, hst⟩ := h.trace
  exact ⟨⟨evs, ht, hr.mono hn hP, hst⟩, h.req, h.triggered, h.delayed, h.queue, h.chain⟩

theorem Blocked.mono {n n' : ℕ} {P P' : Prop} {t : St} (h : Blocked e n P s t) (hn : n ≤ n') (hP : P → P') :
    Blocked e n' P' s t := by
  obtain ⟨m, status, hm, hx⟩ := h
  exact ⟨m, status, hm.mono hn hP, hx⟩

/-- a branch that logs a refused stretch and marks the context -/
theorem Stopped.of_logs {n : ℕ} {P : Prop} {l : Trace} (h : Refused l n P)
    (hs : ∀ ev ∈ l, ev.interrupts = false) : Stopped n P ngxHttpInternalServerError s (s.logs l).trigger :=
  ⟨⟨l, rfl, h, .internal l hs⟩, ⟨_, rfl⟩, rfl, rfl, fun _ => rfl, rfl⟩

/-- a stretch before a failing branch -/
theorem Stopped.after {n k : ℕ} {P : Prop} {status : ℤ} {d : Bytes} {m t : St}
    (hs : ∃ evs, m.trace = s.trace ++ evs ∧ Stretch evs d k) (hr : m.r = s.r)
    (hd : m.ctx.headersDelayed = s.ctx.headersDelayed)
    (hq : s.ctx.headersDelayed = false → m.ctx.pendingChain = s.ctx.pendingChain) (hc : m.inn.length = s.inn.length)
    (h : Stopped n P status m t) : Stopped (k + n) P status s t := by
  obtain ⟨evs, hevs, hstretch⟩ := hs
  obtain ⟨evs', hevs', href, hst⟩ := h.trace
  refine ⟨⟨evs ++ evs', ?_, hstretch.refused href, (hr ▸ hst).after hstretch.clean⟩, hr ▸ h.req, h.triggered,
    h.delayed.trans hd, fun h0 => ?_, h.chain.trans hc⟩
  · rw [hevs', hevs, List.append_assoc]
  · exact (h.queue (hd.trans h0)).trans (hq h0)

theorem Blocked.after {n k : ℕ} {P : Prop} {d : Bytes} {m t : St}
    (hs : ∃ evs, m.trace = s.trace ++ evs ∧ Stretch evs d k) (hr : m.r = s.r)
    (hd : m.ctx.headersDelayed = s.ctx.headersDelayed)
    (hq : s.ctx.headersDelayed = false → m.ctx.pendingChain = s.ctx.pendingChain) (hc : m.inn.length = s.inn.length)
    (h : Blocked e n P m t) : Blocked e (k + n) P s t := by
  obtain ⟨m', status, hm', hx⟩ := h
  exact ⟨m', status, hm'.after hs hr hd hq hc, hx⟩

/-- after nothing but logging -/
theorem Blocked.after_logs {n k : ℕ} {P : Prop} {d : Bytes} {l : Trace} {t : St} (hs : Stretch l d k)
    (h : Blocked e n P (s.logs l) t) : Blocked e (k + n) P s t :=
  Blocked.after (m := s.logs l) ⟨l, rfl, hs⟩ rfl rfl (fun _ => rfl) rfl h

namespace Blocked

variable {n : ℕ} {P : Prop} {t : St}

theorem triggered (h : Blocked e n P s t) : t.ctx.interventionTriggered = true := by
  obtain ⟨m, _, hm, hx⟩ := h
  rw [hx.triggered, hm.triggered]

theorem delayed (h : Blocked e n P s t) : t.ctx.headersDelayed = false := by
  obtain ⟨m, _, _, hx⟩ := h
  exact hx.delayed

theorem queue (h : Blocked e n P s t) :
    t.ctx.pendingChain = if s.ctx.headersDelayed then [] else s.ctx.pendingChain := by
  obtain ⟨m, _, hm, hx⟩ := h
  rw [hx.queue, hm.delayed]
  split_ifs with hd
  · rfl
  · exact hm.queue (by simpa using hd)

/-- what a blocking call adds to the trace: a refused stretch and the event that ends the response -/
theorem trace (h : Blocked e n P s t) : ∃ evs ev status, t.trace = s.trace ++ evs ++ [ev] ∧ Refused evs n P ∧
    IsEnd status ev ∧ StatusOf evs status := by
  obtain ⟨m, status, hm, hx⟩ := h
  obtain ⟨evs, hevs, href, hst⟩ := hm.trace
  obtain ⟨ev, hev, hend⟩ := hx.trace
  exact ⟨evs, ev, status, by rw [hev, hevs], href, hend, hst.statusOf⟩

/-- the same, with the account of the status -/
theorem account (h : Blocked e n P s t) : ∃ evs ev status h', t.trace = s.trace ++ evs ++ [ev] ∧ Refused evs n P ∧
    IsEnd status ev ∧ Account s.r.headerSent s.r.headersOut evs status h' := by
  obtain ⟨m, status, hm, hx⟩ := h
  obtain ⟨evs, hevs, href, hacc⟩ := hm.trace
  obtain ⟨ev, hev, hend⟩ := hx.trace
  exact ⟨evs, ev, status, _, by rw [hev, hevs], href, hend, hacc⟩

/-- a block that sent headers left the request as the next header filter left a header-only one -/
theorem redirected (h : Blocked e n P s t) {evs : Trace} {hdr : HeadersOut} {only : Bool} {rc : ℤ}
    (htr : t.trace = s.trace ++ evs ++ [.call (.nextHeader hdr only) rc]) :
    ∃ r : Request, r.headerOnly = true ∧ t.r = r.afterHeader e := by
  obtain ⟨m, status, hm, hx⟩ := h
  obtain ⟨ev, hev, -⟩ := hx.trace
  obtain ⟨-, hlast⟩ := List.append_inj' (htr.symm.trans hev) rfl
  rw [List.singleton_inj] at hlast
  subst hlast
  exact (hx.redirected hdr only rc hev).2

end Blocked

end CorazaNginx
