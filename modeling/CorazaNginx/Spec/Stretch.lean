/-
What a stretch of the trace amounts to.

`Event.handed`, `Event.appended`, `Event.isEval`, `Event.isOutput` and `Event.failed` are the five questions the results
about the response filters ask of an event: which buffers went to the next body filter, which bytes went to the engine,
whether phase 4 was evaluated, whether control left towards the client, and whether something outside answered with a
failure (or a poll with an interruption). `Stretch evs data n` summarises a piece of a call in which nothing went out
and nothing failed; stretches compose (`Stretch.append`), which is how the per-buffer facts add up over a chain.
-/
import Mathlib.Tactic
import CorazaNginx.Model.BodyFilter

namespace CorazaNginx

/-- the buffers an event hands to the next body filter -/
def Event.handed : Event → List Handed
  | .call (.nextBody out) _ => out
  | _ => []

/-- the bytes an event hands to the next body filter -/
def Event.handedBytes (ev : Event) : Bytes := ev.handed.flatMap (·.bytes)

/-- the bytes an event appends to the engine's response body -/
def Event.appended : Event → Bytes
  | .call (.engine _ (.appendResponseBody data _)) _ => data
  | _ => []

/-- `coraza_process_response_body` -/
def Event.isEval : Event → Bool
  | .call (.engine _ .processResponseBody) _ => true
  | _ => false

/-- a chain goes to the next body filter -/
def Event.isBody : Event → Bool
  | .call (.nextBody _) _ => true
  | _ => false

/-- headers, body or an error page go on towards the client -/
def Event.isOutput : Event → Bool
  | .call (.nextHeader ..) _ => true
  | .call (.nextBody _) _ => true
  | .call (.finalizeRequest _) _ => true
  | _ => false

/-- the engine fails, a poll returns something other than NGX_OK, or an allocation or a file operation fails -/
def Event.failed : Event → Bool
  | .call (.engine _ (.appendResponseBody ..)) rc => rc ≠ 0
  | .call (.engine _ .processResponseBody) rc => rc < 0
  | .call (.engine _ (.addResponseHeader ..)) rc => rc < 0
  | .call (.engine _ (.processResponseHeaders ..)) rc => rc < 0
  | .call (.engine _ (.appendRequestBody ..)) rc => rc ≠ 0
  | .call (.engine _ .processRequestBody) rc => rc < 0
  | .call (.engine _ .processRequestHeaders) rc => rc < 0
  | .call (.alloc _) rc => rc = 0
  | .call (.readFile ..) rc => rc ≤ 0
  | .call .directioOff rc => rc = ngxError
  | .call .openFile rc => rc < 0
  | .poll _ sent iv => interventionRc sent iv ≠ ngxOk
  | _ => false

/-- coraza_process_response_headers -/
def Event.isPhase3 : Event → Bool
  | .call (.engine _ (.processResponseHeaders ..)) _ => true
  | _ => false

/-- a poll -/
def Event.isPoll : Event → Bool
  | .poll .. => true
  | _ => false

/-- the call that gives a request up to nginx -/
def Event.finalizes : Event → Bool
  | .call (.finalizeRequest _) _ => true
  | _ => false

/-- neither output nor poll, and no part of a body's inspection or of a phase's evaluation -/
def Event.isPlain : Event → Bool
  | .poll .. => false
  | .call (.nextHeader ..) _ => false
  | .call (.nextBody _) _ => false
  | .call (.finalizeRequest _) _ => false
  | .call (.engine _ (.appendResponseBody ..)) _ => false
  | .call (.engine _ .processResponseBody) _ => false
  | .call (.engine _ (.processResponseHeaders ..)) _ => false
  | .call (.engine _ (.appendRequestBody ..)) _ => false
  | .call (.engine _ .processRequestBody) _ => false
  | .call (.engine _ .processRequestHeaders) _ => false
  | .call .. => true

/-- the engine reports that it could not evaluate a phase, or did not take a chunk -/
def Event.engineError : Event → Bool
  | .call (.engine _ .processRequestHeaders) rc => rc < 0
  | .call (.engine _ (.appendRequestBody ..)) rc => rc ≠ 0
  | .call (.engine _ .processRequestBody) rc => rc < 0
  | .call (.engine _ (.processResponseHeaders ..)) rc => rc < 0
  | .call (.engine _ (.appendResponseBody ..)) rc => rc ≠ 0
  | .call (.engine _ .processResponseBody) rc => rc < 0
  | _ => false

/-- an append or process call -/
def Event.inspects : Event → Bool
  | .call (.engine _ .processRequestHeaders) _ => true
  | .call (.engine _ (.appendRequestBody ..)) _ => true
  | .call (.engine _ .processRequestBody) _ => true
  | .call (.engine _ (.processResponseHeaders ..)) _ => true
  | .call (.engine _ (.appendResponseBody ..)) _ => true
  | .call (.engine _ .processResponseBody) _ => true
  | _ => false

/-- a poll that returned something other than NGX_OK -/
def Event.interrupts : Event → Bool
  | .poll _ sent iv => interventionRc sent iv ≠ ngxOk
  | .call .. => false

/-- bookkeeping around an interruption -/
def Event.isAux : Event → Bool
  | .call (.engine _ (.updateStatusCode _)) _ => true
  | .call (.engine _ .processLogging) _ => true
  | .call (.alloc _) _ => true
  | .call .closeFile _ => true
  | _ => false

/-- an allocation -/
def Event.isAlloc : Event → Bool
  | .call (.alloc _) _ => true
  | _ => false

theorem Event.isAux_of_alloc {ev : Event} (h : ev.isAlloc = true) : ev.isAux = true := by
  cases ev with
  | poll => cases h
  | call c rc => cases c <;> first | rfl | cases h

/-- at most one allocation, answered as `e` answers it behind the trace of `s` -/
def Trace.AllocatesOnce (e : Env) (s : St) (evs : Trace) : Prop :=
  evs = [] ∨ ∃ n, evs = [.call (.alloc n) (e.ret s.trace (.alloc n))]

theorem Trace.AllocatesOnce.forall {e : Env} {s : St} {evs : Trace} {P : Event → Prop} (h : AllocatesOnce e s evs)
    (hP : ∀ n, P (.call (.alloc n) (e.ret s.trace (.alloc n)))) : ∀ ev ∈ evs, P ev := by
  rcases h with rfl | ⟨n, rfl⟩
  · exact fun _ hev => absurd hev List.not_mem_nil
  · intro ev hev
    rw [List.mem_singleton.1 hev]
    exact hP n

theorem Event.handed_of_not_output {ev : Event} (h : ev.isOutput = false) : ev.handed = [] := by
  cases ev with
  | poll => rfl
  | call c rc => cases c <;> first | rfl | cases h

theorem Event.isBody_of_not_output {ev : Event} (h : ev.isOutput = false) : ev.isBody = false := by
  cases ev with
  | poll => rfl
  | call c rc => cases c <;> first | rfl | cases h

theorem Event.isOutput_of_aux {ev : Event} (h : ev.isAux = true) : ev.isOutput = false := by
  cases ev with
  | poll => rfl
  | call c rc => cases c <;> first | rfl | cases h

theorem Event.isEval_of_aux {ev : Event} (h : ev.isAux = true) : ev.isEval = false := by
  cases ev with
  | poll => rfl
  | call c rc =>
    cases c with
    | engine tx c => cases c <;> first | rfl | cases h
    | _ => rfl

theorem Event.appended_of_aux {ev : Event} (h : ev.isAux = true) : ev.appended = [] := by
  cases ev with
  | poll => rfl
  | call c rc =>
    cases c with
    | engine tx c => cases c <;> first | rfl | cases h
    | _ => rfl

theorem Event.isOutput_of_plain {ev : Event} (h : ev.isPlain = true) : ev.isOutput = false := by
  cases ev with
  | poll => rfl
  | call c rc => cases c <;> first | rfl | cases h

theorem Event.isPoll_of_inspects {ev : Event} (h : ev.inspects = true) : ev.isPoll = false := by
  cases ev with
  | poll => cases h
  | call => rfl

theorem Event.isPoll_of_plain {ev : Event} (h : ev.isPlain = true) : ev.isPoll = false := by
  cases ev with
  | poll => cases h
  | call c rc => rfl

theorem Event.isPhase3_of_plain {ev : Event} (h : ev.isPlain = true) : ev.isPhase3 = false := by
  cases ev with
  | poll => rfl
  | call c rc =>
    cases c with
    | engine tx c => cases c <;> first | rfl | cases h
    | _ => rfl

theorem Event.failed_of_engineError {ev : Event} (h : ev.engineError = true) : ev.failed = true := by
  cases ev with
  | poll => cases h
  | call c rc =>
    cases c with
    | engine tx c => cases c <;> first | exact h | cases h
    | _ => cases h

theorem Event.inspects_of_engineError {ev : Event} (h : ev.engineError = true) : ev.inspects = true := by
  cases ev with
  | poll => cases h
  | call c rc =>
    cases c with
    | engine tx c => cases c <;> first | rfl | cases h
    | _ => cases h

theorem Event.inspects_of_plain {ev : Event} (h : ev.isPlain = true) : ev.inspects = false := by
  cases ev with
  | poll => rfl
  | call c rc =>
    cases c with
    | engine tx c => cases c <;> first | rfl | cases h
    | _ => rfl

theorem Event.inspects_of_aux {ev : Event} (h : ev.isAux = true) : ev.inspects = false := by
  cases ev with
  | poll => rfl
  | call c rc =>
    cases c with
    | engine tx c => cases c <;> first | rfl | cases h
    | _ => rfl

theorem Event.isPlain_of_aux {ev : Event} (h : ev.isAux = true) : ev.isPlain = true := by
  cases ev with
  | poll => cases h
  | call c rc =>
    cases c with
    | engine tx c => cases c <;> first | rfl | cases h
    | _ => first | rfl | cases h

theorem Event.interrupts_of_aux {ev : Event} (h : ev.isAux = true) : ev.interrupts = false := by
  cases ev with
  | poll => cases h
  | call => rfl

theorem Event.interrupts_of_clean {ev : Event} (h : ev.failed = false) : ev.interrupts = false := by
  cases ev with
  | poll => exact h
  | call => rfl

/-- two accounts of what was added to a trace agree -/
theorem trace_cancel {t u evs evs' : Trace} (h : u = t ++ evs) (h' : u = t ++ evs') : evs = evs' :=
  List.append_cancel_left (h.symm.trans h')

namespace Trace

/-- the bytes handed to the next body filter, in order -/
def handedBytes (t : Trace) : Bytes := t.flatMap Event.handedBytes

/-- the bytes appended to the engine's response body, in order -/
def appended (t : Trace) : Bytes := t.flatMap Event.appended

/-- how often phase 4 was evaluated -/
def evals (t : Trace) : ℕ := t.countP Event.isEval

/-- nothing goes out -/
def Quiet (t : Trace) : Prop := ∀ ev ∈ t, ev.isOutput = false

/-- nothing fails -/
def Clean (t : Trace) : Prop := ∀ ev ∈ t, ev.failed = false

instance (t : Trace) : Decidable (Clean t) := inferInstanceAs (Decidable (∀ ev ∈ t, ev.failed = false))

@[simp] theorem handedBytes_nil : handedBytes [] = [] := rfl
@[simp] theorem handedBytes_append (a b : Trace) : handedBytes (a ++ b) = handedBytes a ++ handedBytes b := by
  simp [handedBytes]
@[simp] theorem appended_nil : appended [] = [] := rfl
@[simp] theorem appended_append (a b : Trace) : appended (a ++ b) = appended a ++ appended b := by simp [appended]
@[simp] theorem evals_nil : evals [] = 0 := rfl
@[simp] theorem evals_append (a b : Trace) : evals (a ++ b) = evals a + evals b := by simp [evals]

theorem Quiet.nil : Quiet [] := fun _ h => absurd h List.not_mem_nil
theorem Clean.nil : Clean [] := fun _ h => absurd h List.not_mem_nil

theorem quiet_append {a b : Trace} : Quiet (a ++ b) ↔ Quiet a ∧ Quiet b := List.forall_mem_append
theorem clean_append {a b : Trace} : Clean (a ++ b) ↔ Clean a ∧ Clean b := List.forall_mem_append

theorem quiet_single {ev : Event} : Quiet [ev] ↔ ev.isOutput = false := by simp [Quiet]
theorem clean_single {ev : Event} : Clean [ev] ↔ ev.failed = false := by simp [Clean]

theorem Quiet.handedBytes {t : Trace} (h : Quiet t) : t.handedBytes = [] := by
  refine List.flatMap_eq_nil_iff.2 fun ev hev => ?_
  rw [Event.handedBytes, Event.handed_of_not_output (h ev hev), List.flatMap_nil]

/-- the engine makes no append or process call -/
def Idle (t : Trace) : Prop := ∀ ev ∈ t, ev.inspects = false

theorem idle_append {a b : Trace} : Idle (a ++ b) ↔ Idle a ∧ Idle b := List.forall_mem_append
theorem idle_single {ev : Event} : Idle [ev] ↔ ev.inspects = false := by simp [Idle]

/-- the engine reports no error -/
def Sound (t : Trace) : Prop := ∀ ev ∈ t, ev.engineError = false

theorem Clean.sound {t : Trace} (h : Clean t) : Sound t := fun ev hev => by
  by_contra herr
  have hfail := Event.failed_of_engineError (by simpa using herr)
  rw [h ev hev] at hfail
  cases hfail

theorem Idle.sound {t : Trace} (h : Idle t) : Sound t := fun ev hev => by
  by_contra herr
  have hins := Event.inspects_of_engineError (by simpa using herr)
  rw [h ev hev] at hins
  cases hins

theorem sound_append {a b : Trace} : Sound (a ++ b) ↔ Sound a ∧ Sound b := List.forall_mem_append

/-- behind an error of the engine there is no append or process call -/
def ErrorLast (t : Trace) : Prop := ∀ pre ev post, t = pre ++ ev :: post → ev.engineError = true → Idle post

theorem Sound.errorLast {t : Trace} (h : Sound t) : ErrorLast t := by
  intro pre ev post ht herr
  have hev := h ev (by rw [ht]; simp)
  rw [herr] at hev
  cases hev

theorem ErrorLast.single (ev : Event) : ErrorLast [ev] := by
  intro pre ev' post ht _
  have hlen := congrArg List.length ht
  simp only [List.length_append, List.length_cons, List.length_nil] at hlen
  rw [List.length_eq_zero_iff.1 (show post.length = 0 by omega)]
  exact fun x hx => absurd hx List.not_mem_nil

/-- behind a stretch without errors -/
theorem ErrorLast.after {a b : Trace} (ha : Sound a) (hb : ErrorLast b) : ErrorLast (a ++ b) := by
  intro pre ev post ht herr
  rcases List.append_eq_append_iff.1 ht with ⟨l, hpre, hb'⟩ | ⟨l, ha', hpost⟩
  · exact hb l ev post hb' herr
  · cases l with
    | nil =>
      rw [List.nil_append] at hpost
      exact hb [] ev post hpost.symm herr
    | cons x l =>
      injection hpost with hx hpost
      subst hx
      have hev := ha ev (by rw [ha']; simp)
      rw [herr] at hev
      cases hev

/-- with no append or process call behind -/
theorem ErrorLast.append {a b : Trace} (ha : ErrorLast a) (hb : Idle b) : ErrorLast (a ++ b) := by
  intro pre ev post ht herr
  rcases List.append_eq_append_iff.1 ht with ⟨l, hpre, hb'⟩ | ⟨l, ha', hpost⟩
  · have hev := hb.sound ev (by rw [hb']; simp)
    rw [herr] at hev
    cases hev
  · cases l with
    | nil =>
      rw [List.nil_append] at hpost
      have hev := hb.sound ev (by rw [← hpost]; simp)
      rw [herr] at hev
      cases hev
    | cons x l =>
      injection hpost with hx hpost
      subst hx
      rw [hpost]
      exact idle_append.2 ⟨ha pre ev l ha' herr, hb⟩

end Trace

/-- a stretch in which nothing goes out and nothing fails: it appends `data` and evaluates phase 4 `n` times -/
structure Stretch (evs : Trace) (data : Bytes) (n : ℕ) : Prop where
  quiet : evs.Quiet
  clean : evs.Clean
  appended : evs.appended = data
  evals : evs.evals = n

theorem Stretch.nil : Stretch [] [] 0 := ⟨Trace.Quiet.nil, Trace.Clean.nil, rfl, rfl⟩

theorem Stretch.append {a b : Trace} {d d' : Bytes} {n n' : ℕ} (h : Stretch a d n) (h' : Stretch b d' n') :
    Stretch (a ++ b) (d ++ d') (n + n') where
  quiet := Trace.quiet_append.2 ⟨h.quiet, h'.quiet⟩
  clean := Trace.clean_append.2 ⟨h.clean, h'.clean⟩
  appended := by rw [Trace.appended_append, h.appended, h'.appended]
  evals := by rw [Trace.evals_append, h.evals, h'.evals]

/-- an event of its own: no output, no failure -/
theorem Stretch.single {ev : Event} (ho : ev.isOutput = false) (hf : ev.failed = false) :
    Stretch [ev] ev.appended (if ev.isEval then 1 else 0) where
  quiet := Trace.quiet_single.2 ho
  clean := Trace.clean_single.2 hf
  appended := by simp [Trace.appended]
  evals := by simp [Trace.evals, List.countP_cons]

/-- bookkeeping without a failed allocation appends nothing -/
theorem Stretch.aux {evs : Trace} (ha : ∀ ev ∈ evs, ev.isAux = true) (hf : evs.Clean) : Stretch evs [] 0 where
  quiet := fun ev h => Event.isOutput_of_aux (ha ev h)
  clean := hf
  appended := List.flatMap_eq_nil_iff.2 fun ev h => Event.appended_of_aux (ha ev h)
  evals := List.countP_eq_zero.2 fun ev h => by rw [Event.isEval_of_aux (ha ev h)]; decide

/-- a stretch that ends in a refusal: nothing goes out, phase 4 is evaluated at most `n` times, and something failed
unless `P` is the reason -/
structure Refused (evs : Trace) (n : ℕ) (P : Prop) : Prop where
  quiet : evs.Quiet
  evals : evs.evals ≤ n
  cause : ¬ evs.Clean ∨ P
  last : evs.ErrorLast

theorem Refused.mono {evs : Trace} {n n' : ℕ} {P P' : Prop} (h : Refused evs n P) (hn : n ≤ n') (hP : P → P') :
    Refused evs n' P' :=
  ⟨h.quiet, h.evals.trans hn, h.cause.imp_right hP, h.last⟩

theorem Stretch.refused {a b : Trace} {d : Bytes} {n m : ℕ} {P : Prop} (h : Stretch a d n) (h' : Refused b m P) :
    Refused (a ++ b) (n + m) P where
  quiet := Trace.quiet_append.2 ⟨h.quiet, h'.quiet⟩
  evals := by rw [Trace.evals_append, h.evals]; exact Nat.add_le_add_left h'.evals n
  cause := h'.cause.imp_left fun hb hc => hb (Trace.clean_append.1 hc).2
  last := Trace.ErrorLast.after h.clean.sound h'.last

/-- a failing event of its own -/
theorem Refused.single {ev : Event} {P : Prop} (ho : ev.isOutput = false) (he : ev.isEval = false)
    (hf : ev.failed = true) : Refused [ev] 0 P where
  quiet := Trace.quiet_single.2 ho
  evals := by simp [Trace.evals, he]
  cause := Or.inl fun hc => by rw [Trace.clean_single.1 hc] at hf; cases hf
  last := Trace.ErrorLast.single ev

theorem Refused.append {a b : Trace} {n : ℕ} {P : Prop} (h : Refused a n P) (hq : b.Quiet) (hb : b.evals = 0)
    (hi : b.Idle) : Refused (a ++ b) n P where
  quiet := Trace.quiet_append.2 ⟨h.quiet, hq⟩
  evals := by rw [Trace.evals_append, hb]; exact h.evals
  cause := h.cause.imp_left fun ha hc => ha (Trace.clean_append.1 hc).1
  last := h.last.append hi

/-- a refusal that no poll is the reason of -/
structure Broken (evs : Trace) (P : Prop) : Prop extends Refused evs 0 P where
  silent : ∀ ev ∈ evs, ev.interrupts = false

theorem Trace.Clean.silent {evs : Trace} (h : evs.Clean) : ∀ ev ∈ evs, ev.interrupts = false := fun ev hev =>
  Event.interrupts_of_clean (h ev hev)

/-- for a reason of its own -/
theorem Broken.nil {P : Prop} (h : P) : Broken [] P :=
  ⟨⟨Trace.Quiet.nil, le_rfl, Or.inr h, Trace.Clean.nil.sound.errorLast⟩, Trace.Clean.nil.silent⟩

theorem Broken.mono {evs : Trace} {P P' : Prop} (h : Broken evs P) (hP : P → P') : Broken evs P' :=
  ⟨h.toRefused.mono le_rfl hP, h.silent⟩

theorem Broken.single {ev : Event} {P : Prop} (ho : ev.isOutput = false) (he : ev.isEval = false)
    (hf : ev.failed = true) (hi : ev.interrupts = false) : Broken [ev] P :=
  ⟨Refused.single ho he hf, fun x hx => by rwa [List.mem_singleton.1 hx]⟩

theorem Stretch.broken {a b : Trace} {d : Bytes} {P : Prop} (h : Stretch a d 0) (h' : Broken b P) : Broken (a ++ b) P :=
  ⟨h.refused h'.toRefused, List.forall_mem_append.2 ⟨h.clean.silent, h'.silent⟩⟩

theorem Broken.append {a b : Trace} {P : Prop} (h : Broken a P) (hb : Stretch b [] 0) (hi : b.Idle) :
    Broken (a ++ b) P :=
  ⟨h.toRefused.append hb.quiet hb.evals hi, List.forall_mem_append.2 ⟨h.silent, hb.clean.silent⟩⟩

end CorazaNginx
