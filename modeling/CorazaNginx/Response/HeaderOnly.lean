/-
Header-only responses under the header delay.

`responseRun` is a whole response: the header filter runs, the producer looks at `r->header_only` once, right after it,
and if the flag is clear sends its body through the body filter. nginx's own header filter sets the flag for HEAD and
for the statuses without a body (`FinalHeaderOnly`). While the headers are delayed that filter has not run yet when the
producer looks. HEAD is exempt from the delay; a 204 or a 304 is not, and `header_only_kept_iff` says that this, with
anything at all in the body, is exactly when body bytes follow headers that rule a body out.
-/
import Mathlib.Tactic
import CorazaNginx.Response.Delivery
import CorazaNginx.Response.HeaderOutcome
import CorazaNginx.Response.Undelayed

namespace CorazaNginx

open CorazaNginx.Core Prog Handler

variable {e : Env} {s : St}

/-- a status that rules a body out: 204 or 304, when no status line overrides it -/
def HeadersOut.Bodiless (h : HeadersOut) : Prop := h.statusLine = [] ∧ (h.status = 204 ∨ h.status = 304)

/-- how nginx's header filter leaves `r->header_only` -/
def FinalHeaderOnly (e : Env) : Prop := ∀ r : Request, r.isMain = true →
  (e.headerOnly r = true ↔ r.headerOnly = true ∨ r.method = ngxHttpHead ∨ r.headersOut.Bodiless)

/-- a response: the headers, and the body unless `r->header_only` is set when the producer looks -/
def responseRun (e : Env) (s : St) (calls : List BodyCall) : St :=
  let t := ((headerFilter : Handler ℤ ℤ).run e s).2
  if t.r.headerOnly then t else bodyRun t calls

/-- what a response adds to the trace -/
def ResponseEvents (e : Env) (s : St) (calls : List BodyCall) : Trace :=
  (responseRun e s calls).trace.drop s.trace.length

/-- however far the response has got, if headers have gone out and `r->header_only` is set, no body byte is behind
them -/
def HeaderOnlyKept (e : Env) (s : St) (calls : List BodyCall) : Prop :=
  ∀ l, l <+: calls → (responseRun e s l).r.headerOnly = true → ∀ pre post h only rc,
    ResponseEvents e s l = pre ++ .call (.nextHeader h only) rc :: post → Trace.handedBytes post = []

/-- the delay holds back headers that rule a body out -/
def DelaysBodiless (s : St) : Prop :=
  s.ctx.processed = false ∧ delaysHeaders s.r = true ∧ s.r.headersOut.Bodiless

/-- a context that no intervention has touched and that holds nothing back -/
structure Undelayed (s : St) : Prop where
  untriggered : s.ctx.interventionTriggered = false
  delayed : s.ctx.headersDelayed = false

/-! ## The header filter when nothing fails -/

/-- the headers went on -/
structure Forwarded (e : Env) (s t : St) (evs : Trace) : Prop where
  handed : evs.handedBytes = []
  delayed : t.ctx.headersDelayed = false
  undue : s.ctx.processed = true ∨ delaysHeaders s.r = false

/-- the headers are held back -/
structure HeldBack (s t : St) (evs : Trace) : Prop where
  quiet : evs.Quiet
  just : JustDelayed t
  due : s.ctx.processed = false ∧ delaysHeaders s.r = true
  req : ∃ b, t.r = { s.r with filterNeedInMemory := b }

/-- a poll that returned NGX_OK leaves the request and the flags as they were -/
theorem Polled3.of_smooth {evs upTo : Trace} {ret : ℤ} {v : St} (h : Polled3 e upTo s ret v)
    (htr : v.trace = s.trace ++ evs) (hs : Smooth evs) (hup : Smooth upTo) :
    ret = 0 ∧ evs.Quiet ∧ v = s.logs evs := by
  cases h with
  | skipped ret failed =>
    obtain rfl : evs = [] := List.append_cancel_left (htr.symm.trans (List.append_nil _).symm)
    refine ⟨(failed.resolve_right fun hf => hf.2 hup.clean).1, Trace.Quiet.nil, (St.logs_nil s).symm⟩
  | polled evs' h aux zero sound inst =>
    obtain ⟨rfl, -⟩ := smooth_of_trace htr (St.polled_trace s _ _ _) hs
    have hrc : interventionRc s.r.headerSent (e.intervention s.trace) = 0 := by
      have hpoll := (hs _ List.mem_cons_self).1
      simpa [pollEvent, Event.failed] using hpoll
    obtain ⟨-, rfl⟩ := zero hrc
    refine ⟨hrc, ?_, St.polled_self s _⟩
    intro ev hev
    rcases List.mem_cons.1 hev with rfl | hev
    · rfl
    · exact Event.isOutput_of_aux (aux ev hev)

/-- after a poll that returned NGX_OK the headers go on, or are held back where `delaysHeaders` says so -/
theorem Dispatched.of_zero {t : St} (h : Dispatched e 0 s t) :
    (∃ rc, t = s.forwarded e rc ∧ delaysHeaders s.r = false) ∨
      (t = s.delay ∧ delaysHeaders s.r = true ∧ s.r.errorPage = false) := by
  cases h with
  | yielded rc hep => exact Or.inl ⟨rc, rfl, by simp [delaysHeaders, hep]⟩
  | redirected rc _ hpos _ => exact absurd hpos (lt_irrefl 0)
  | finalized rc _ hpos => exact absurd hpos (lt_irrefl 0)
  | delayed hep _ hdue => exact Or.inr ⟨rfl, hdue, hep⟩
  | forwarded rc _ _ hdue => exact Or.inl ⟨rc, rfl, hdue⟩

theorem headerFilter_smooth (h : Undelayed s) {t : St} (ht : ((headerFilter : Handler ℤ ℤ).run e s).2 = t) {evs : Trace}
    (htr : t.trace = s.trace ++ evs) (hs : Smooth evs) : Forwarded e s t evs ∨ HeldBack s t evs := by
  by_cases hp : s.ctx.processed = true
  · rw [headerFilter_passive (Or.inr hp)] at ht
    subst ht
    obtain ⟨rfl, -⟩ := smooth_of_trace htr (St.forwarded_trace _) hs
    exact Or.inl ⟨rfl, h.delayed, Or.inl hp⟩
  have hp' : s.ctx.processed = false := by simpa using hp
  have ho := headerFilter_outcome (e := e) h.untriggered hp'
  rw [ht] at ho
  cases ho with
  | broken evs' c plain dirty =>
    obtain rfl : evs = evs' := List.append_cancel_left (htr.symm.trans rfl)
    exact absurd hs.clean dirty
  | dispatched evs1 p ret v _ upTo poll out =>
    -- the three stretches: up to phase 3, the poll, what became of the headers
    obtain ⟨evs2, h2, -⟩ := poll.trace_pairs
    obtain ⟨evs3, h3, -⟩ := out.trace_pairs
    have htr' : t.trace = s.trace ++ (evs1 ++ (evs2 ++ evs3)) := by
      rw [h3, h2, St.phase3_trace, List.append_assoc, List.append_assoc]
    obtain ⟨rfl, hs'⟩ := smooth_of_trace htr htr' hs
    obtain ⟨hs1, hs23⟩ := smooth_append.1 hs'
    obtain ⟨hs2, hs3⟩ := smooth_append.1 hs23
    obtain ⟨rfl, hq2, rfl⟩ := poll.of_smooth h2 hs2 hs1
    have hq12 : Trace.Quiet (evs1 ++ evs2) := Trace.quiet_append.2 ⟨upTo.quiet, hq2⟩
    rcases out.of_zero with ⟨rc, rfl, hdue⟩ | ⟨rfl, hdue, hep⟩
    · obtain rfl : evs3 = [_] := List.append_cancel_left (h3.symm.trans (St.forwarded_trace _))
      refine Or.inl ⟨?_, h.delayed, Or.inr hdue⟩
      rw [← List.append_assoc, Trace.handedBytes_append, hq12.handedBytes]
      rfl
    · obtain rfl : evs3 = [] := List.append_cancel_left (h3.symm.trans (List.append_nil _).symm)
      refine Or.inr ⟨by rwa [List.append_nil], ⟨rfl, rfl, h.untriggered, hep⟩, ⟨hp', hdue⟩, ⟨_, rfl⟩⟩

/-! ## When `r->header_only` is set behind delayed headers -/

/-- one call while the headers are delayed: they stay where they are, or go to the next header filter -/
theorem bodyStep_delayed (c : BodyCall) (hd : s.ctx.headersDelayed = true) (hep : s.r.errorPage = false)
    (hun : (bodyStep s c).ctx.interventionTriggered = false) {evs : Trace}
    (htr : (bodyStep s c).trace = s.trace ++ evs) (hs : Smooth evs) :
    ((bodyStep s c).ctx.headersDelayed = true ∧ (bodyStep s c).r = s.r ∧ c.inn.any (·.lastBuf) = false) ∨
      ((bodyStep s c).ctx.headersDelayed = false ∧ (bodyStep s c).r = s.r.afterHeader c.env) := by
  obtain ⟨e, inn⟩ := c
  have ht : s.ctx.interventionTriggered = false := bodyRun_untriggered_of [⟨e, inn⟩] hun
  by_cases hne : inn = []
  · subst hne
    rw [show bodyStep s ⟨e, []⟩ = _ from bodyFilter_null (e := e) (s := s)]
    exact Or.inl ⟨hd, rfl, rfl⟩
  have ho : Outcome e inn s (bodyStep s ⟨e, inn⟩) := bodyFilter_outcome inn hne hep ht
  generalize bodyStep s ⟨e, inn⟩ = t at htr hun ho ⊢
  cases ho with
  | blocked hb =>
    rw [hb.triggered] at hun
    cases hun
  | streamed evs' rc hins hd' =>
    rw [hd] at hd'
    cases hd'
  | held evs' hins hd' hl hcap =>
    exact Or.inl ⟨by rw [looped_delayed, hd], looped_r inn evs', hl⟩
  | stuck evs' hins hd' =>
    exfalso
    have htr' := St.headersOut_trace (e := e) (s := s.looped e inn evs') ngxError
    rw [looped_trace, List.append_assoc] at htr'
    obtain ⟨-, hs'⟩ := smooth_of_trace htr htr' hs
    have herr := (hs' _ (List.mem_append_right _ (List.mem_singleton_self _))).2
    simp [Event.headerError] at herr
  | flushed evs' rc rc' hins hd' hdue hrc =>
    refine Or.inr ⟨rfl, ?_⟩
    change (s.looped e inn evs').r.afterHeader e = _
    rw [looped_r]

/-- **Behind delayed headers.** Once they have gone out, `r->header_only` is what nginx makes of them. -/
theorem bodyRun_headerOnly (calls : List BodyCall) (hd : s.ctx.headersDelayed = true) (hep : s.r.errorPage = false)
    (hmain : s.r.isMain = true) (hmethod : s.r.method ≠ ngxHttpHead) (honly : s.r.headerOnly = false)
    (hfinal : ∀ c ∈ calls, FinalHeaderOnly c.env) (hun : (bodyRun s calls).ctx.interventionTriggered = false)
    (hs : Smooth (RunEvents s calls)) :
    ((bodyRun s calls).r.headerOnly = true → s.r.headersOut.Bodiless) ∧
      (s.r.headersOut.Bodiless → (∃ c ∈ calls, c.inn.any (·.lastBuf) = true) →
        (bodyRun s calls).r.headerOnly = true) := by
  induction calls generalizing s with
  | nil =>
    refine ⟨fun h => ?_, fun _ ⟨c, hc, _⟩ => absurd hc List.not_mem_nil⟩
    rw [bodyRun_nil, honly] at h
    cases h
  | cons c calls ih =>
    obtain ⟨evs, htr, hevs⟩ := runEvents_cons (Or.inl hep) c calls
    rw [hevs] at hs
    obtain ⟨hs1, hs2⟩ := smooth_append.1 hs
    have hun1 : (bodyStep s c).ctx.interventionTriggered = false := bodyRun_untriggered_of calls hun
    rw [bodyRun_cons]
    rcases bodyStep_delayed c hd hep hun1 htr hs1 with ⟨hd1, hr1, hl1⟩ | ⟨hd1, hr1⟩
    · have hrest := ih hd1 (by rw [hr1]; exact hep) (by rw [hr1]; exact hmain) (by rw [hr1]; exact hmethod)
        (by rw [hr1]; exact honly) (fun d hd => hfinal d (List.mem_cons_of_mem _ hd)) hun hs2
      rw [hr1] at hrest
      refine ⟨hrest.1, fun hb ⟨d, hd, hl⟩ => hrest.2 hb ?_⟩
      rcases List.mem_cons.1 hd with rfl | hd
      · rw [hl1] at hl
        cases hl
      · exact ⟨d, hd, hl⟩
    · have hleft : (bodyRun (bodyStep s c) calls).r.headerOnly = true ↔ s.r.headersOut.Bodiless := by
        rw [(bodyRun_undelayed hd1 calls hun).headerOnly, hr1, Request.afterHeader_headerOnly,
          hfinal c List.mem_cons_self s.r hmain]
        simp [honly, hmethod]
      exact ⟨hleft.1, fun hb _ => hleft.2 hb⟩

/-! ## Heads and items of a trace -/

theorem Trace.wire_items (evs : Trace) : evs.wire.flatMap Out.items = evs.handedBytes := by
  unfold Trace.wire Trace.handedBytes
  rw [List.flatMap_assoc]
  refine List.flatMap_congr fun ev _ => ?_
  cases ev with
  | poll => rfl
  | call c rc =>
    cases c with
    | nextBody out => exact Out.emit_items _
    | _ => rfl

/-- the event behind a head that came out first: by induction on the trace -/
theorem wire_split {evs : Trace} {h : HeadersOut} {only : Bool} {rest : List (Out Head UInt8)}
    (hw : evs.wire = .head (.headers h only) :: rest) :
    ∃ pre rc post, evs = pre ++ .call (.nextHeader h only) rc :: post ∧ Trace.wire post = rest := by
  induction evs with
  | nil => cases hw
  | cons ev evs ih =>
    have hcons : Trace.wire (ev :: evs) = ev.wire ++ Trace.wire evs := List.flatMap_cons
    rw [hcons] at hw
    -- an event that leaves no mark
    have skip : ev.wire = [] → ∃ pre rc post, ev :: evs = pre ++ .call (.nextHeader h only) rc :: post ∧
        Trace.wire post = rest := by
      intro h0
      rw [h0, List.nil_append] at hw
      obtain ⟨pre, rc, post, rfl, hpost⟩ := ih hw
      exact ⟨ev :: pre, rc, post, rfl, hpost⟩
    cases ev with
    | poll => exact skip rfl
    | call c rc =>
      cases c with
      | nextHeader h' only' =>
        injection hw with hhead hrest
        injection hhead with hhead
        injection hhead with hh ho
        subst hh ho
        exact ⟨[], rc, evs, rfl, hrest⟩
      | nextBody out =>
        by_cases hnil : out.flatMap (·.bytes) = []
        · exact skip (by simp [Event.wire, hnil])
        · simp [Event.wire, Out.emit, hnil] at hw
      | finalizeRequest status => simp [Event.wire] at hw
      | _ => exact skip rfl

theorem handedBytes_behind {evs pre post : Trace} {ev : Event} (h : evs = pre ++ ev :: post)
    (h0 : evs.handedBytes = []) : Trace.handedBytes post = [] := by
  have hall : evs.handedBytes = Trace.handedBytes (pre ++ [ev]) ++ Trace.handedBytes post := by
    rw [h, ← Trace.handedBytes_append, List.append_assoc]
    rfl
  rw [h0] at hall
  exact (List.append_eq_nil_iff.1 hall.symm).2

/-! ## The response -/

theorem responseEvents_of_headerOnly (calls : List BodyCall) {t : St} {evs : Trace}
    (ht : ((headerFilter : Handler ℤ ℤ).run e s).2 = t) (htr : t.trace = s.trace ++ evs) (ho : t.r.headerOnly = true) :
    responseRun e s calls = t ∧ ResponseEvents e s calls = evs := by
  have hrun : responseRun e s calls = t := by
    simp only [responseRun, ht, ho, if_true]
  exact ⟨hrun, by rw [ResponseEvents, hrun, htr, List.drop_left]⟩

theorem responseEvents_of_body (calls : List BodyCall) {t : St} {evs : Trace}
    (ht : ((headerFilter : Handler ℤ ℤ).run e s).2 = t) (htr : t.trace = s.trace ++ evs) (ho : t.r.headerOnly = false)
    (hp : (bodyRun t calls).trace = t.trace ++ RunEvents t calls) :
    responseRun e s calls = bodyRun t calls ∧ ResponseEvents e s calls = evs ++ RunEvents t calls := by
  have hrun : responseRun e s calls = bodyRun t calls := by
    simp [responseRun, ht, ho]
  exact ⟨hrun, by rw [ResponseEvents, hrun, hp, htr, List.append_assoc, List.drop_left]⟩

/-- the header filter only adds to the trace, and delays nothing behind an error page -/
theorem headerFilter_trace (h : Undelayed s) : ∃ evs : Trace,
    ((headerFilter : Handler ℤ ℤ).run e s).2.trace = s.trace ++ evs ∧
      (((headerFilter : Handler ℤ ℤ).run e s).2.ctx.headersDelayed = true →
        ((headerFilter : Handler ℤ ℤ).run e s).2.r.errorPage = false) := by
  by_cases hp : s.ctx.processed = true
  · rw [headerFilter_passive (Or.inr hp)]
    exact ⟨_, St.forwarded_trace _, fun hd => absurd hd (by simp [St.forwarded, h.delayed])⟩
  have ho := headerFilter_outcome (e := e) h.untriggered (by simpa using hp)
  generalize ((headerFilter : Handler ℤ ℤ).run e s).2 = t at ho ⊢
  cases ho with
  | broken evs c plain dirty => exact ⟨evs, rfl, fun hd => absurd hd (by simp [h.delayed])⟩
  | dispatched evs1 p ret v _ upTo poll out =>
    obtain ⟨evs2, h2, -⟩ := poll.trace_pairs
    obtain ⟨evs3, h3, -⟩ := out.trace_pairs
    have hv : v.ctx.headersDelayed = false := by
      cases poll with
      | skipped => exact h.delayed
      | polled => exact h.delayed
    refine ⟨evs1 ++ (evs2 ++ evs3), ?_, fun hd => ?_⟩
    · rw [h3, h2, St.phase3_trace, List.append_assoc, List.append_assoc]
    · cases out with
      | delayed hep _ _ => exact hep
      | _ => exact absurd hd (by simp [St.forwarded, hv])

/-- a run behind the header filter only adds to the trace -/
theorem bodyRun_trace_of_untriggered (calls : List BodyCall) (hep : s.ctx.headersDelayed = true → s.r.errorPage = false)
    (hun : (bodyRun s calls).ctx.interventionTriggered = false) :
    (bodyRun s calls).trace = s.trace ++ RunEvents s calls := by
  by_cases hd : s.ctx.headersDelayed = true
  · exact bodyRun_trace (Or.inl (hep hd)) calls
  · obtain ⟨evs, hevs⟩ := (bodyRun_undelayed (by simpa using hd) calls hun).trace
    rw [runEvents_eq hevs.symm, hevs]

theorem bodyRun_prefix_untriggered {l calls : List BodyCall} (hl : l <+: calls)
    (hun : (bodyRun s calls).ctx.interventionTriggered = false) :
    (bodyRun s l).ctx.interventionTriggered = false := by
  obtain ⟨m, rfl⟩ := hl
  rw [bodyRun_append] at hun
  exact bodyRun_untriggered_of m hun

/-- what a delayed 204 or 304 comes to: its headers, then its body -/
theorem held_back_not_kept {t : St} {evs : Trace} (ht : ((headerFilter : Handler ℤ ℤ).run e s).2 = t)
    (htr : t.trace = s.trace ++ evs) (ho : t.r.headerOnly = false) {calls : List BodyCall}
    (hp : (bodyRun t calls).trace = t.trace ++ RunEvents t calls) (hleft : (bodyRun t calls).r.headerOnly = true)
    {bodies : List Bytes} (hw : (RunEvents t calls).wire =
      .head (.headers t.r.headersOut t.r.headerOnly) :: bodies.map .body) (hne : bodies.flatten ≠ []) :
    ¬ HeaderOnlyKept e s calls := by
  intro hkept
  obtain ⟨hrun, hevs⟩ := responseEvents_of_body calls ht htr ho hp
  obtain ⟨pre, rc, post, hsplit, hpost⟩ := wire_split hw
  have hbehind := hkept calls (List.prefix_refl _) (by rw [hrun, hleft]) (evs ++ pre) post _ _ rc
    (by rw [hevs, hsplit, List.append_assoc])
  rw [← Trace.wire_items, hpost, Out.bodies_items] at hbehind
  exact hne hbehind

/-- **Header-only responses stay header-only, except a delayed 204 or 304 with a body.** For a response on which no
intervention is triggered and nothing fails, with the last buffer in some call. -/
theorem header_only_kept_iff (e : Env) (s : St) (calls : List BodyCall) (F : ℕ → ℤ → UInt8) (h : Undelayed s)
    (hmain : s.r.isMain = true) (hfinal : ∀ c ∈ calls, FinalHeaderOnly c.env) (hc : ∀ c ∈ calls, CallValid F c)
    (hlast : ∃ c ∈ calls, c.inn.any (·.lastBuf) = true) (hs : Smooth (ResponseEvents e s calls))
    (hun : (responseRun e s calls).ctx.interventionTriggered = false) :
    HeaderOnlyKept e s calls ↔ ¬ (DelaysBodiless s ∧ calls.flatMap BodyCall.received ≠ []) := by
  obtain ⟨evs, htr, hep⟩ := headerFilter_trace (e := e) h
  generalize ht : ((headerFilter : Handler ℤ ℤ).run e s).2 = t at htr hep
  by_cases ho : t.r.headerOnly = true
  · have hrun := fun l => responseEvents_of_headerOnly l ht htr ho
    rw [(hrun calls).2] at hs
    rcases headerFilter_smooth h ht htr hs with hf | hh
    · refine iff_of_true (fun l _ _ pre post hdr only rc hsplit => ?_) fun hd => ?_
      · rw [(hrun l).2] at hsplit
        exact handedBytes_behind hsplit hf.handed
      · rcases hf.undue with hp | hdue
        · rw [hd.1.1] at hp
          cases hp
        · rw [hd.1.2.1] at hdue
          cases hdue
    · obtain ⟨b, hr⟩ := hh.req
      have hdue := hh.due.2
      rw [hr] at ho
      simp [delaysHeaders, show s.r.headerOnly = true from ho] at hdue
  · have ho' : t.r.headerOnly = false := by simpa using ho
    have hrun0 : responseRun e s calls = bodyRun t calls := by simp [responseRun, ht, ho']
    rw [hrun0] at hun
    have hunl := fun l (hl : l <+: calls) => bodyRun_prefix_untriggered hl hun
    have hp := fun l hl => bodyRun_trace_of_untriggered l hep (hunl l hl)
    have hrun := fun l hl => responseEvents_of_body l ht htr ho' (hp l hl)
    rw [(hrun calls (List.prefix_refl _)).2] at hs
    obtain ⟨hs1, hs2⟩ := smooth_append.1 hs
    rcases headerFilter_smooth h ht htr hs1 with hf | hh
    · -- nothing held back: the flag stays clear
      refine iff_of_true (fun l hl hset => ?_) fun hd => ?_
      · rw [(hrun l hl).1, (bodyRun_undelayed hf.delayed l (hunl l hl)).headerOnly, ho'] at hset
        cases hset
      · rcases hf.undue with hproc | hdue
        · rw [hd.1.1] at hproc
          cases hproc
        · rw [hd.1.2.1] at hdue
          cases hdue
    · obtain ⟨b, hr⟩ := hh.req
      have hmethod : t.r.method ≠ ngxHttpHead := by
        have hdue := hh.due.2
        intro hm
        rw [hr] at hm
        simp [delaysHeaders, show s.r.method = 4 from hm] at hdue
      have hhdr : t.r.headersOut = s.r.headersOut := by rw [hr]
      have hsteady : Steady t := Or.inl hh.just.errorPage
      have hsl : ∀ l, l <+: calls → Smooth (RunEvents t l) := by
        rintro l ⟨m, rfl⟩
        rw [runEvents_append hsteady] at hs2
        exact (smooth_append.1 hs2).1
      have hset := fun l (hl : l <+: calls) => bodyRun_headerOnly l hh.just.delayed hh.just.errorPage
        (by rw [hr]; exact hmain) hmethod ho' (fun c hcl => hfinal c (hl.subset hcl)) (hunl l hl) (hsl l hl)
      rw [hhdr] at hset
      constructor
      · rintro hkept ⟨⟨-, -, hbodiless⟩, hne⟩
        obtain ⟨bodies, hw, hflat⟩ := bodyRun_delivery calls hh.just hc hlast hs2 hun
        exact held_back_not_kept ht htr ho' (hp calls (List.prefix_refl _))
          ((hset calls (List.prefix_refl _)).2 hbodiless hlast) hw (by rwa [hflat]) hkept
      · intro hn l hl hleft pre post hdr only rc hsplit
        rw [(hrun l hl).1] at hleft
        rw [(hrun l hl).2] at hsplit
        have hnil : calls.flatMap BodyCall.received = [] := by
          by_contra hne
          exact hn ⟨⟨hh.due.1, hh.due.2, (hset l hl).1 hleft⟩, hne⟩
        have hnil' : l.flatMap BodyCall.received = [] := by
          obtain ⟨m, rfl⟩ := hl
          rw [List.flatMap_append] at hnil
          exact (List.append_eq_nil_iff.1 hnil).1
        refine handedBytes_behind hsplit ?_
        rw [Trace.handedBytes_append, hh.quiet.handedBytes, ← Trace.wire_items,
          bodyRun_sends_nothing l hh.just (fun c hcl => hc c (hl.subset hcl)) hnil' (hsl l hl) (hunl l hl)]
        rfl

/-- an environment in which nothing fails and nginx's header filter sets `r->header_only` -/
def finalEnv : Env := { Env.calm (.fill 1) with
  headerOnly := fun r => r.headerOnly || r.method = ngxHttpHead ||
    (r.headersOut.statusLine = [] && (r.headersOut.status = 204 || r.headersOut.status = 304)) }

theorem finalEnv_final : FinalHeaderOnly finalEnv := by
  intro r _
  simp [finalEnv, HeadersOut.Bodiless, or_assoc]

/-- a GET for a static file, the response headers set to a status -/
def staticState (status : ℤ) : St := { r := { headersOut := { status := status } }, ctx := {} }

/-- the body the static handler sends when it finds `r->header_only` clear: the file, in one buffer -/
def staticBody : List BodyCall :=
  [⟨finalEnv, [{ fileLast := 2, file := some ⟨7, false⟩, inFile := true, lastBuf := true }]⟩]

theorem staticBody_final : ∀ c ∈ staticBody, FinalHeaderOnly c.env := by
  intro c hc
  rw [List.mem_singleton.1 hc]
  exact finalEnv_final

/-- **A conditional GET answered 304 sends the file behind its headers.** Nothing fails and nothing is triggered. -/
theorem not_modified_sends_body : Undelayed (staticState 304) ∧ (∀ c ∈ staticBody, FinalHeaderOnly c.env) ∧
    Smooth (ResponseEvents finalEnv (staticState 304) staticBody) ∧
    (responseRun finalEnv (staticState 304) staticBody).ctx.interventionTriggered = false ∧
    ¬ HeaderOnlyKept finalEnv (staticState 304) staticBody := by
  refine ⟨⟨rfl, rfl⟩, staticBody_final, by decide +kernel, by decide +kernel, fun hkept => ?_⟩
  set evs := ResponseEvents finalEnv (staticState 304) staticBody with hevs
  have hbehind := hkept staticBody (List.prefix_refl _) (by decide +kernel) (evs.take 14) (evs.drop 15)
    (staticState 304).r.headersOut false 0
    (by rw [hevs]; decide +kernel)
  have hne : Trace.handedBytes (evs.drop 15) ≠ [] := by rw [hevs]; decide +kernel
  exact hne hbehind

/-- the end of a response without a body -/
def emptyBody : List BodyCall := [⟨finalEnv, [{ lastBuf := true }]⟩]

/-- a 304 without a body is held back, and its headers go out with `r->header_only` set and nothing behind them -/
theorem bodiless_keeps_header_only : HeaderOnlyKept finalEnv (staticState 304) emptyBody ∧
    (responseRun finalEnv (staticState 304) emptyBody).r.headerOnly = true := by
  refine ⟨(header_only_kept_iff finalEnv (staticState 304) emptyBody (fun _ _ => 0) ⟨rfl, rfl⟩ rfl (fun c hc => ?_)
    (fun c hc => ?_) ⟨_, List.mem_cons_self, rfl⟩ (by decide +kernel) (by decide +kernel)).2 fun h => h.2 rfl,
    by decide +kernel⟩
  · rw [List.mem_singleton.1 hc]
    exact finalEnv_final
  · rw [List.mem_singleton.1 hc]
    refine ⟨rfl, fun b hb => ?_⟩
    rw [List.mem_singleton.1 hb]
    exact ⟨nofun, nofun⟩

end CorazaNginx
