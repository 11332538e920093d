/-
What the module leaves of a request and of its response's headers.

`Effect r r' held` says how a request may differ behind a handler call: what the client asked for and where it is served
(`Request.asked`) is untouched, the response's headers have at most grown (`Grown`), and r->main->count has taken the
references that nginx keeps for body reads still going on (`Trace.held`). The header list grows by Location entries
whose value cannot end the header line, an entry it came with is as it was or deleted with an entity slot, and what
describes the response changes only into a redirect. `handlers_keep_request` says so for every handler call, and of
every header list it hands on: whatever the engine answers, it cannot add a header of its own. The one exception is a
request that has been finalized, which nginx starts over.
-/
import Mathlib.Tactic
import CorazaNginx.Moves
import CorazaNginx.Redirect

namespace CorazaNginx

open CorazaNginx.Core Prog

/-! ## The header list -/

/-- a Location whose value holds no control byte -/
def TableElt.IsSafeLocation (x : TableElt) : Prop := x.key = ascii "Location" ∧ ∀ c ∈ x.value, safeByte c = true

/-- what describes the response, apart from the list and the Location slot -/
def HeadersOut.described (h : HeadersOut) : HeadersOut := { h with headers := default, location := none }

/-- a redirect, without anything that describes a body -/
structure HeadersOut.IsRedirect (h : HeadersOut) : Prop where
  status : isRedirectStatus h.status = true
  line : h.statusLine = []
  length : h.contentLengthN = -1
  type : h.contentType = []
  modified : h.lastModifiedTime = -1
  slots : h.entitySlots = []

/-- what the module may make of a response's headers -/
structure Grown (h h' : HeadersOut) : Prop where
  grows : h.headers.toList.length ≤ h'.headers.toList.length
  /-- an entry it came with, as it was or deleted with an entity slot, or a Location of the module's behind them -/
  entries : ∀ i x', h'.headers.toList[i]? = some x' →
    (∃ x, h.headers.toList[i]? = some x ∧ (x' = x ∨ (x' = { x with hash := 0 } ∧ i ∈ h.entitySlots))) ∨
      (h.headers.toList.length ≤ i ∧ x'.IsSafeLocation)
  slots : ∀ i ∈ h'.entitySlots, i ∈ h.entitySlots
  server : h'.server = h.server
  date : h'.date = h.date
  location : h'.location = h.location ∨ ∃ i, h'.location = some i ∧ h.headers.toList.length ≤ i
  described : h'.described = h.described ∨ h'.IsRedirect

namespace Grown

variable {h h' h'' : HeadersOut}

theorem refl (h : HeadersOut) : Grown h h where
  grows := le_rfl
  entries := fun _ x' hx => Or.inl ⟨x', hx, Or.inl rfl⟩
  slots := fun _ hi => hi
  server := rfl
  date := rfl
  location := Or.inl rfl
  described := Or.inl rfl

theorem entitySlots_of_described (hd : h'.described = h.described) : h'.entitySlots = h.entitySlots :=
  (congrArg HeadersOut.entitySlots hd :)

/-- a redirect stays one while the list grows -/
theorem isRedirect_of_described (hd : h'.described = h.described) (hr : h.IsRedirect) : h'.IsRedirect where
  status := (congrArg (fun h : HeadersOut => isRedirectStatus h.status) hd).trans hr.status
  line := (congrArg HeadersOut.statusLine hd).trans hr.line
  length := (congrArg HeadersOut.contentLengthN hd).trans hr.length
  type := (congrArg HeadersOut.contentType hd).trans hr.type
  modified := (congrArg HeadersOut.lastModifiedTime hd).trans hr.modified
  slots := (entitySlots_of_described hd).trans hr.slots

theorem trans (h1 : Grown h h') (h2 : Grown h' h'') : Grown h h'' where
  grows := h1.grows.trans h2.grows
  entries := by
    intro i x'' hx''
    rcases h2.entries i x'' hx'' with ⟨x', hx', hsecond⟩ | ⟨hbehind, hsafe⟩
    · rcases h1.entries i x' hx' with ⟨x, hx, hfirst⟩ | ⟨hbehind, hsafe⟩
      · refine Or.inl ⟨x, hx, ?_⟩
        rcases hfirst with rfl | ⟨rfl, hin⟩
        · exact hsecond.imp_right fun hdel => ⟨hdel.1, h1.slots i hdel.2⟩
        · rcases hsecond with rfl | ⟨rfl, -⟩
          · exact Or.inr ⟨rfl, hin⟩
          · exact Or.inr ⟨rfl, hin⟩
      · refine Or.inr ⟨hbehind, ?_⟩
        rcases hsecond with rfl | ⟨rfl, -⟩
        · exact hsafe
        · exact hsafe
    · exact Or.inr ⟨h1.grows.trans hbehind, hsafe⟩
  slots := fun i hi => h1.slots i (h2.slots i hi)
  server := h2.server.trans h1.server
  date := h2.date.trans h1.date
  location := by
    rcases h2.location with heq | ⟨i, hi, hle⟩
    · rw [heq]
      exact h1.location
    · exact Or.inr ⟨i, hi, h1.grows.trans hle⟩
  described := by
    rcases h2.described with heq | hr
    · exact h1.described.imp heq.trans (isRedirect_of_described heq)
    · exact Or.inr hr

/-- a Location pushed behind the list -/
theorem pushed {x : TableElt} (hsafe : x.IsSafeLocation) (hlist : h'.headers.toList = h.headers.toList ++ [x])
    (hloc : h'.location = h.location ∨ h'.location = some h.headers.toList.length)
    (hd : h'.described = h.described) : Grown h h' where
  grows := by rw [hlist, List.length_append]; omega
  entries := by
    intro i x' hx'
    rw [hlist] at hx'
    by_cases hi : i < h.headers.toList.length
    · rw [List.getElem?_append_left hi] at hx'
      exact Or.inl ⟨x', hx', Or.inl rfl⟩
    · rw [List.getElem?_append_right (not_lt.1 hi)] at hx'
      have hmem := List.mem_of_getElem? hx'
      rw [List.mem_singleton] at hmem
      exact Or.inr ⟨not_lt.1 hi, hmem ▸ hsafe⟩
  slots := fun i hi => by rwa [entitySlots_of_described hd] at hi
  server := (congrArg HeadersOut.server hd :)
  date := (congrArg HeadersOut.date hd :)
  location := hloc.imp_right fun heq => ⟨_, heq, le_rfl⟩
  described := Or.inl hd

theorem pushLocation (h : HeadersOut) : Grown h h.pushLocation := by
  refine pushed (x := ⟨0, ascii "Location", []⟩) ⟨rfl, fun _ hc => absurd hc List.not_mem_nil⟩ ?_ (Or.inl rfl) rfl
  simp [HeadersOut.pushLocation]

theorem setLocation (h : HeadersOut) (data : Bytes) :
    Grown h (h.pushLocation.setLocation h.headers.toList.length (safeLocation data)) := by
  refine pushed (x := ⟨1, ascii "Location", safeLocation data⟩) ⟨rfl, (safeLocation_longest data).safe⟩ ?_
    (Or.inr rfl) rfl
  simp [HeadersOut.setLocation, HeadersOut.pushLocation, Parts.modify_append]

theorem prepareRedirect (r : Request) {status : ℤ} (code : isRedirectStatus status = true) :
    Grown r.headersOut (prepareRedirect r status).headersOut where
  grows := by rw [prepareRedirect_headers, kill_length]
  entries := by
    intro i x' hx'
    rw [prepareRedirect_headers, kill_getElem?, Option.map_eq_some_iff] at hx'
    obtain ⟨x, hx, rfl⟩ := hx'
    refine Or.inl ⟨x, hx, ?_⟩
    by_cases hin : i ∈ r.headersOut.entitySlots
    · rw [if_pos hin]
      exact Or.inr ⟨rfl, hin⟩
    · rw [if_neg hin]
      exact Or.inl rfl
  slots := fun i hi => absurd hi List.not_mem_nil
  server := rfl
  date := rfl
  location := Or.inl (prepareRedirect_location r status)
  described := Or.inr ⟨code, rfl, rfl, rfl, rfl, rfl⟩

end Grown

/-! ## The request -/

/-- what the client asked for, on which connection, and where it is served: the request without what a handler may
change -/
def Request.asked (r : Request) : Request :=
  { r with
    headersOut := {}, requestBody := none, count := 0, errStatus := 0, headerOnly := false, headerSent := false
    allowRanges := false, filterNeedInMemory := false, requestBodyInPersistentFile := false
    requestBodyInCleanFile := false }

/-- the references kept over a stretch -/
def Trace.held (evs : Trace) : ℤ := evs.countP Event.holds

@[simp] theorem Trace.held_nil : Trace.held [] = 0 := rfl

@[simp] theorem Trace.held_append (a b : Trace) : Trace.held (a ++ b) = a.held + b.held := by
  rw [Trace.held, List.countP_append, Nat.cast_add]
  rfl

theorem Trace.held_single {ev : Event} (h : ev.holds = false) : Trace.held [ev] = 0 := by
  rw [Trace.held, List.countP_singleton, h]
  rfl

/-- what a handler call may make of a request that it does not finalize, with `held` body reads still going on -/
structure Effect (r r' : Request) (held : ℤ) : Prop where
  asked : r'.asked = r.asked
  headers : Grown r.headersOut r'.headersOut
  errStatus : r'.errStatus = r.errStatus ∨ r'.errStatus = 0
  ranges : r'.allowRanges = true → r.allowRanges = true
  inMemory : r.filterNeedInMemory = true → r'.filterNeedInMemory = true
  count : r'.count = r.count + held

theorem Effect.refl (r : Request) : Effect r r 0 := ⟨rfl, .refl _, Or.inl rfl, id, id, (add_zero _).symm⟩

theorem Effect.trans {r r' r'' : Request} {m n : ℤ} (h : Effect r r' m) (h' : Effect r' r'' n) :
    Effect r r'' (m + n) where
  asked := h'.asked.trans h.asked
  headers := h.headers.trans h'.headers
  errStatus := by
    rcases h'.errStatus with heq | hz
    · rw [heq]
      exact h.errStatus
    · exact Or.inr hz
  ranges := fun hr => h.ranges (h'.ranges hr)
  inMemory := fun hr => h'.inMemory (h.inMemory hr)
  count := by rw [h'.count, h.count, add_assoc]

/-- the header lists that `evs` hands on for a request whose headers were `h` -/
def HandsOn (h : HeadersOut) (evs : Trace) : Prop := ∀ pre h' only rc post,
  evs = pre ++ .call (.nextHeader h' only) rc :: post → (∀ ev ∈ pre, ev.finalizes = false) → Grown h h'

theorem HandsOn.of_silent {h : HeadersOut} {ev : Event} (hev : ∀ h' only rc, ev ≠ .call (.nextHeader h' only) rc) :
    HandsOn h [ev] := by
  intro pre h' only rc post heq
  have hmem : Event.call (.nextHeader h' only) rc ∈ [ev] := by
    rw [heq]
    exact List.mem_append_right _ List.mem_cons_self
  exact absurd (List.mem_singleton.1 hmem).symm (hev h' only rc)

theorem HandsOn.nil (h : HeadersOut) : HandsOn h [] := by
  intro pre h' only rc post heq
  cases pre <;> cases heq

/-- a later stretch hands on what has grown from what the earlier one left, unless that finalized the request -/
theorem HandsOn.append {h h1 : HeadersOut} {a b : Trace} (ha : HandsOn h a)
    (hleft : (∀ ev ∈ a, ev.finalizes = false) → Grown h h1) (hb : HandsOn h1 b) : HandsOn h (a ++ b) := by
  intro pre h' only rc post heq hpre
  rcases List.append_eq_append_iff.1 heq with ⟨mid, rfl, hmid⟩ | ⟨mid, rfl, hmid⟩
  · have hsplit := List.forall_mem_append.1 hpre
    exact (hleft hsplit.1).trans (hb mid h' only rc post hmid hsplit.2)
  · cases mid with
    | nil =>
      rw [List.append_nil] at ha hleft
      exact (hleft hpre).trans (hb [] h' only rc post hmid.symm fun _ hev => absurd hev List.not_mem_nil)
    | cons x mid =>
      rw [List.cons_append, List.cons.injEq] at hmid
      obtain ⟨rfl, -⟩ := hmid
      exact ha pre h' only rc mid rfl hpre

/-! ## The frame -/

/-- from one request and trace to another, the module has kept to its effect -/
def Respects (x y : Request × Trace) : Prop := ∃ evs, y.2 = x.2 ++ evs ∧ HandsOn x.1.headersOut evs ∧
  ((∀ ev ∈ evs, ev.finalizes = false) → Effect x.1 y.1 evs.held)

theorem Respects.refl (x : Request × Trace) : Respects x x :=
  ⟨[], (List.append_nil _).symm, .nil _, fun _ => .refl _⟩

theorem Respects.trans (x y z : Request × Trace) (h : Respects x y) (h' : Respects y z) : Respects x z := by
  obtain ⟨evs, htr, hon, heff⟩ := h
  obtain ⟨evs', htr', hon', heff'⟩ := h'
  refine ⟨evs ++ evs', by rw [htr', htr, List.append_assoc], hon.append (fun hf => (heff hf).headers) hon',
    fun hf => ?_⟩
  have hsplit := List.forall_mem_append.1 hf
  rw [Trace.held_append]
  exact (heff hsplit.1).trans (heff' hsplit.2)

/-- one event behind which the request has kept to the effect -/
theorem Respects.single {r r' : Request} {t : Trace} {ev : Event} (hon : HandsOn r.headersOut [ev])
    (heff : ev.finalizes = false → Effect r r' (Trace.held [ev])) : Respects (r, t) (r', t ++ [ev]) :=
  ⟨[ev], rfl, hon, fun hf => heff (hf ev (List.mem_singleton_self ev))⟩

/-- the same where the event is no body read -/
theorem Respects.unheld {r r' : Request} {t : Trace} {ev : Event} (hon : HandsOn r.headersOut [ev])
    (hev : ev.holds = false) (heff : ev.finalizes = false → Effect r r' 0) : Respects (r, t) (r', t ++ [ev]) :=
  .single hon fun hf => (Trace.held_single hev).symm ▸ heff hf

/-- no event -/
theorem Respects.silent {r r' : Request} {t : Trace} (heff : Effect r r' 0) : Respects (r, t) (r', t) :=
  ⟨[], (List.append_nil t).symm, .nil _, fun _ => heff⟩

/-- nginx's own part in a body read -/
theorem Effect.bodyHeld (r : Request) (e : Env) (rc : ℤ) :
    Effect r (r.bodyHeld e rc) (Trace.held [.call .readClientRequestBody rc]) := by
  rw [Trace.held, List.countP_singleton, Event.holds, Request.bodyHeld]
  split_ifs with hok hholds hholds
  · simp [hok] at hholds
  · exact ⟨rfl, .refl _, Or.inl rfl, id, id, by simp [Request.release, Request.bodyRead, hok]⟩
  · have hlt : ¬ ngxHttpSpecialResponse ≤ rc := by
      simp only [ne_eq, Bool.and_eq_true, decide_eq_true_eq] at hholds
      exact not_le.2 hholds.2
    exact ⟨rfl, .refl _, Or.inl rfl, id, id, by simp only [Request.bodyRead, if_neg hlt, Nat.cast_one]⟩
  · have hle : ngxHttpSpecialResponse ≤ rc := by
      simp only [ne_eq, hok, not_false_eq_true, decide_true, Bool.true_and, decide_eq_true_eq] at hholds
      exact not_lt.1 hholds
    exact ⟨rfl, .refl _, Or.inl rfl, id, id, by simp only [Request.bodyRead, if_pos hle, Nat.cast_zero, add_zero]⟩

/-- **One move.** -/
theorem Move.respects (x y : Request × Trace) (h : Move x y) : Respects x y := by
  have quiet : ∀ {h : HeadersOut} {ev : Event}, ev.isOutput = false → HandsOn h [ev] := by
    intro h ev hev
    refine .of_silent fun h' only rc heq => ?_
    rw [heq] at hev
    cases hev
  have same : ∀ n : ℤ, n = n + 0 := fun n => (add_zero n).symm
  cases h with
  | quiet r t ev hev hholds => exact .unheld (quiet hev) hholds fun _ => .refl r
  | body r t out rc => exact .unheld (.of_silent (by simp)) rfl fun _ => .refl r
  | header e r t rc =>
    refine .unheld ?_ rfl fun _ => ⟨rfl, .refl _, Or.inl rfl, id, id, same _⟩
    intro pre h' only rc' post heq _
    have hmem : Event.call (.nextHeader h' only) rc' ∈ [Event.call (.nextHeader r.headersOut r.headerOnly) rc] := by
      rw [heq]
      exact List.mem_append_right _ List.mem_cons_self
    rw [List.mem_singleton] at hmem
    injection hmem with hcall
    injection hcall with hh
    rw [hh]
    exact .refl _
  | finalize e r t status rc => exact .unheld (.of_silent (by simp)) rfl fun hf => by cases hf
  | push r t n ret => exact .unheld (quiet rfl) rfl fun _ => ⟨rfl, .pushLocation _, Or.inl rfl, id, id, same _⟩
  | install r t data n ret =>
    exact .unheld (quiet rfl) rfl fun _ => ⟨rfl, .setLocation _ data, Or.inl rfl, id, id, same _⟩
  | redirect r t status code =>
    exact .silent ⟨rfl, .prepareRedirect r code, Or.inr rfl, by simp [prepareRedirect], id, same _⟩
  | inMemory r t need => exact .silent ⟨rfl, .refl _, Or.inl rfl, id, fun hr => by simp [hr], same _⟩
  | askBody r t => exact .silent ⟨rfl, .refl _, Or.inl rfl, id, id, same _⟩
  | readBody e r t rc => exact .single (quiet rfl) fun _ => .bodyHeld r e rc

/-- the references the handler gives back before it does anything else -/
def Callback.releases : Callback → ℤ
  | .requestRead => 1
  | _ => 0

theorem Effect.entered (callback : Callback) (r : Request) : Effect r (callback.entered r) (-callback.releases) := by
  cases callback with
  | requestRead => exact ⟨rfl, .refl _, Or.inl rfl, id, id, rfl⟩
  | _ => exact .refl r

/-- what a handler call keeps to, with the header lists it hands on -/
structure KeepsRequest (w : World) (callback : Callback) (e : Env) (r : Request) : Prop where
  handsOn : HandsOn r.headersOut (w.events callback e r)
  effect : (∀ ev ∈ w.events callback e r, ev.finalizes = false) →
    Effect r (callback.code.run e (w.setR r)).2.r ((w.events callback e r).held - callback.releases)

/-- **No header but a safe Location, and nothing of the request.** In every state a request can be in, whatever the
engine and nginx answer, every header list that a handler call hands on has at most grown from the response's own, and
unless the call finalizes the request, what it leaves of the request keeps to the effect: the reference count is moved
by nothing but the body reads that go on and the callback that ends one. -/
theorem handlers_keep_request (w : World) (callback : Callback) (e : Env) (r : Request) :
    KeepsRequest w callback e r := by
  obtain ⟨evs, htr, hon, heff⟩ := callback_frame .refl .trans Move.respects callback e (w.setR r)
  have hevs : w.events callback e r = evs := World.events_eq htr
  have hentered : Effect r (callback.entered r) (-callback.releases) := .entered callback r
  have hheaders : (callback.entered r).headersOut = r.headersOut := by cases callback <;> rfl
  refine ⟨?_, fun hf => ?_⟩
  · rw [hevs, ← hheaders]
    exact hon
  · rw [hevs] at hf ⊢
    rw [sub_eq_add_neg, add_comm]
    exact hentered.trans (heff hf)

end CorazaNginx
