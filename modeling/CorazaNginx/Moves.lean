/-
Everything the module can do to the outside, as one list of moves.

What nginx and the filters further down see of a handler is the request and what has been called: `Move` lists what can
happen to the two. Whatever branch a handler takes, it makes moves and nothing else (`Moves`); `callback_moves` says so
for every handler as nginx calls it, the body-read callback from where it has given its reference back. A frame
condition on the request, or on what is called with it, then has one case for each move (`callback_frame`) and none for
a handler.
-/
import Mathlib.Tactic
import CorazaNginx.Lifecycle.Blocks

namespace CorazaNginx

open CorazaNginx.Core Prog Handler

variable {ρ α β : Type} {e : Env} {s t : St}

/-- the request behind the read of its body, where nginx may have called the callback itself -/
def Request.bodyHeld (r : Request) (e : Env) (rc : ℤ) : Request :=
  if rc = ngxOk then (r.bodyRead e rc).release else r.bodyRead e rc

/-- a body read for which nginx keeps the reference it has taken: it has neither called the callback nor refused the
request -/
def Event.holds : Event → Bool
  | .call .readClientRequestBody rc => rc ≠ ngxOk && rc < ngxHttpSpecialResponse
  | _ => false

theorem Event.holds_of_awaits {c : Call} (h : c.awaits = false) (rc : ℤ) : (Event.call c rc).holds = false := by
  cases c <;> first | rfl | cases h

/-- one thing a handler does to the request and the trace -/
inductive Move : Request × Trace → Request × Trace → Prop where
  /-- a call that sends nothing towards the client and reads no body -/
  | quiet (r : Request) (t : Trace) (ev : Event) (out : ev.isOutput = false) (holds : ev.holds = false) :
      Move (r, t) (r, t ++ [ev])
  | body (r : Request) (t : Trace) (out : List Handed) (rc : ℤ) : Move (r, t) (r, t ++ [.call (.nextBody out) rc])
  | header (e : Env) (r : Request) (t : Trace) (rc : ℤ) :
      Move (r, t) (r.afterHeader e, t ++ [.call (.nextHeader r.headersOut r.headerOnly) rc])
  | finalize (e : Env) (r : Request) (t : Trace) (status rc : ℤ) :
      Move (r, t) (e.finalized r, t ++ [.call (.finalizeRequest status) rc])
  /-- a Location entry, which stays dead because its value could not be copied -/
  | push (r : Request) (t : Trace) (n : ℕ) (ret : ℤ) :
      Move (r, t) (r.setHeadersOut r.headersOut.pushLocation, t ++ [.call (.alloc n) ret])
  /-- a Location entry with its value -/
  | install (r : Request) (t : Trace) (data : Bytes) (n : ℕ) (ret : ℤ) : Move (r, t) (r.setHeadersOut
      (r.headersOut.pushLocation.setLocation r.headersOut.headers.toList.length (safeLocation data)),
        t ++ [.call (.alloc n) ret])
  | redirect (r : Request) (t : Trace) (status : ℤ) (code : isRedirectStatus status = true) :
      Move (r, t) (prepareRedirect r status, t)
  | inMemory (r : Request) (t : Trace) (need : Bool) :
      Move (r, t) ({ r with filterNeedInMemory := r.filterNeedInMemory || need }, t)
  | askBody (r : Request) (t : Trace) : Move (r, t) ({ r with
      requestBodyInPersistentFile := true
      requestBodyInCleanFile := r.requestBodyInCleanFile || !r.requestBodyInFileOnly }, t)
  | readBody (e : Env) (r : Request) (t : Trace) (rc : ℤ) :
      Move (r, t) (r.bodyHeld e rc, t ++ [.call .readClientRequestBody rc])

/-- from `s` to `t` by moves -/
def Moved (s t : St) : Prop := Relation.ReflTransGen Move (s.r, s.trace) (t.r, t.trace)

/-- a block that makes moves and nothing else -/
def Moves (m : Handler ρ α) : Prop := Guar Moved m

theorem moves : Compositional fun {_ _} => Moves :=
  Compositional.guar (fun _ => .refl) fun _ _ _ h h' => h.trans h'

namespace Moves

/-- an assignment to what only the module sees -/
theorem still {f : St → St} (h : ∀ s, (f s).r = s.r ∧ (f s).trace = s.trace) : Moves (modify f : Handler ρ Unit) := by
  refine Guar.modify fun s => ?_
  rw [Moved, (h s).1, (h s).2]

/-- an assignment that is a move -/
theorem assign {f : St → St} (h : ∀ s, Move (s.r, s.trace) ((f s).r, (f s).trace)) :
    Moves (modify f : Handler ρ Unit) :=
  Guar.modify fun s => .single (h s)

theorem invoke {c : Call} (h : c.awaits = false) (hout : ∀ rc, (Event.call c rc).isOutput = false) :
    Moves (Handler.invoke c : Handler ρ ℤ) :=
  fun _ s => .single (.quiet s.r s.trace _ (hout _) (Event.holds_of_awaits h _))

end Moves

/-! ## The request phases make moves -/

/-- the entry and what becomes of it are one move: the allocation between the two says which -/
theorem installLocation_moves (data : Bytes) : Moves (installLocation data : Handler ρ Unit) := by
  intro e s
  simp only [installLocation, wp_bind, wp_alloc, wp_when, wp_get, wp_modify]
  set ev := Event.call (.alloc 1) (e.ret s.trace (.alloc 1))
  have first : Relation.ReflTransGen Move (s.r, s.trace) (s.r, s.trace ++ [ev]) := .single (.quiet _ _ _ rfl rfl)
  refine ⟨fun _ => ⟨fun _ => ?_, fun _ => ?_⟩, fun _ => first⟩
  · exact first.tail (.install s.r _ data (safeLocation data).length _)
  · exact first.tail (.push s.r _ (safeLocation data).length _)

theorem phased_moves : Phased fun {_ _} => Moves := by
  refine ⟨moves, fun h hout => Moves.invoke h hout, fun _ s => .single (.quiet s.r s.trace _ rfl rfl), fun h => ?_,
    fun iv => ?_⟩
  · exact Moves.still fun s => ⟨(h s).1, (h s).2.1⟩
  · unfold installRedirect
    cases redirectTarget iv with
    | none => exact moves.pure ()
    | some data => exact installLocation_moves data

/-- the callback makes moves once it has given its reference back -/
theorem requestRead_moves {Q : Unit → St → Prop} {E : ρ → St → Prop} (hQ : ∀ t, Moved (s.setR s.r.release) t → Q () t) :
    wp (requestRead : Handler ρ Unit) Q E e s := by
  rw [requestRead, wp_bind, wp_modify, wp_bind, wp_get]
  refine (wp_when _ _).2 ⟨fun _ => ?_, fun _ => hQ _ .refl⟩
  rw [wp_bind, wp_modify, wp_bind, wp_invoke]
  exact hQ _ (.single (.quiet s.r.release s.trace _ rfl rfl))

theorem readClientRequestBody_moves : Moves (readClientRequestBody : Handler ρ ℤ) := by
  intro e s
  rw [readClientRequestBody, wp_bind, wp_ask, wp_bind, wp_invoke, wp_bind, wp_modify, wp_bind]
  generalize e.ret s.trace .readClientRequestBody = rc
  have read : Move (s.r, s.trace) (s.r.bodyHeld e rc, s.trace ++ [.call .readClientRequestBody rc]) :=
    .readBody e _ _ rc
  refine (wp_when _ _).2 ⟨fun hok => requestRead_moves fun t ht => ?_, fun hno => ?_⟩
  · rw [Request.bodyHeld, if_pos hok] at read
    exact .head read ht
  · rw [Request.bodyHeld, if_neg hno] at read
    exact .single read

theorem requestBodyAccess_moves : Moves requestBodyAccess := by
  refine moves.bind (phased_moves.engine _) fun accessible => ?_
  refine moves.bind (moves.when (phased_moves.exitWith phased_moves.processRequestBodyPhase)) fun _ => ?_
  refine moves.bind (Moves.assign fun _ => .askBody _ _) fun _ => moves.bind readClientRequestBody_moves fun rc => ?_
  refine moves.bind (moves.when (moves.exit _)) fun _ => ?_
  exact moves.when (moves.bind (Moves.still fun _ => ⟨rfl, rfl⟩) fun _ => moves.exit _)

/-- **The pre-access handler.** -/
theorem preAccessHandler_moves : Moves (preAccessHandler : Handler ρ ℤ) := by
  refine moves.call (moves.bind moves.get fun s => moves.bind (moves.when (moves.exit _)) fun _ => ?_)
  refine moves.bind (moves.when (moves.exit _)) fun _ => moves.bind (moves.when (moves.exit _)) fun _ => ?_
  refine moves.bind (moves.when requestBodyAccess_moves) fun _ => moves.bind moves.get fun s' => ?_
  exact moves.bind (moves.when phased_moves.submitRequestBody) fun _ => moves.pure _

/-! ## The filters -/

/-- the headers go on: the call, and what the next filter leaves of the request, are one move -/
theorem nextHeaderFilter_moves : Moves (nextHeaderFilter : Handler ρ ℤ) := by
  intro e s
  simp only [nextHeaderFilter, wp_bind, wp_ask, wp_get, wp_invoke, wp_modify, wp_pure]
  exact .single (.header e s.r s.trace _)

theorem nextBodyFilter_moves (out : List Link) : Moves (nextBodyFilter out : Handler ρ ℤ) := by
  intro e s
  simp only [nextBodyFilter, wp_bind, wp_ask, wp_get, wp_invoke]
  exact .single (.body s.r s.trace _ _)

theorem filterFinalizeRequest_moves (status : ℤ) : Moves (filterFinalizeRequest status : Handler ρ ℤ) := by
  intro e s
  simp only [filterFinalizeRequest, wp_bind, wp_ask, wp_invoke, wp_modify, wp_pure]
  exact .single (.finalize e s.r s.trace status _)

theorem filtered_moves : Filtered fun {_ _} => Moves := by
  refine ⟨phased_moves, nextHeaderFilter_moves, nextBodyFilter_moves, filterFinalizeRequest_moves, fun _ code => ?_, ?_⟩
  · exact Moves.assign fun _ => .redirect _ _ _ code
  · exact Moves.assign fun _ => .inMemory _ _ _

/-! ## The handlers as nginx calls them -/

/-- the same of a world -/
def World.Moved (w w' : World) : Prop := Relation.ReflTransGen Move (w.r, w.trace) (w'.r, w'.trace)

/-- code that runs on a request which may have no context, and makes moves and nothing else -/
def HookMoves (m : Hook ρ α) : Prop := Guar World.Moved m

theorem hookMoves : Compositional fun {_ _} => HookMoves :=
  Compositional.guar (fun _ => .refl) fun _ _ _ h h' => h.trans h'

namespace HookMoves

theorem invoke {c : Call} (h : c.awaits = false) (hout : ∀ rc, (Event.call c rc).isOutput = false) :
    HookMoves (Hook.invoke c : Hook ρ ℤ) :=
  fun _ w => .single (.quiet w.r w.trace _ (hout _) (Event.holds_of_awaits h _))

theorem still {f : World → World} (h : ∀ w, (f w).r = w.r ∧ (f w).trace = w.trace) :
    HookMoves (modify f : Hook ρ Unit) := by
  refine Guar.modify fun w => ?_
  rw [World.Moved, (h w).1, (h w).2]

theorem onCtx (a : ℕ) {m : Handler ρ α} (hm : Moves m) : HookMoves (Hook.onCtx a m) := fun e w =>
  (Hook.wp_onCtx a m).2 (hm e (w.view a))

theorem offCtx {m : Handler ρ α} (hm : Moves m) : HookMoves (Hook.offCtx m) :=
  fun e w => (Hook.wp_offCtx m).2 (hm e w.bare)

end HookMoves

theorem creates_moves : Creates fun {_ _} => HookMoves :=
  ⟨hookMoves, fun h hout => HookMoves.invoke h hout, fun h => HookMoves.still fun w => ⟨(h w).1, (h w).2.1⟩⟩

theorem hooked_moves : Hooked (fun {_ _} => Moves) fun {_ _} => HookMoves :=
  ⟨creates_moves, filtered_moves, fun a _ hm => HookMoves.onCtx a hm, fun _ hm => HookMoves.offCtx hm⟩

/-- the request as the handler has it when it makes its first move: the body-read callback has given its reference
back -/
def Callback.entered (r : Request) : Callback → Request
  | .requestRead => r.release
  | _ => r

/-- **Every handler makes moves and nothing else**, with a context or without one. -/
theorem callback_moves (callback : Callback) (e : Env) (w : World) :
    World.Moved (w.setR (callback.entered w.r)) (callback.code.run e w).2 := by
  by_cases hread : callback = .requestRead
  · subst hread
    refine run_state (P := fun w' => World.Moved (w.setR w.r.release) w') (m := Hook.requestReadBack) ?_
    cases hin : w.installed with
    | none => exact requestReadBack_bare hin fun rc =>
        .single (.quiet w.r.release w.trace (.call .nullContext rc) rfl rfl)
    | some a =>
      exact requestReadBack_onCtx hin (requestRead_moves fun t ht => ht)
  have hentered : callback.entered w.r = w.r := by cases callback <;> first | rfl | exact absurd rfl hread
  rw [hentered]
  refine run_state ((?_ : HookMoves callback.code) e w)
  by_cases hpre : callback = .preAccess
  · subst hpre
    refine hookMoves.bind hookMoves.get fun w => hookMoves.bind (hookMoves.when (hookMoves.exit _)) fun _ => ?_
    cases w.installed with
    | none => exact hookMoves.pure _
    | some a => exact HookMoves.onCtx a preAccessHandler_moves
  · exact hooked_moves.callback callback hpre hread

/-- **Frames.** A reflexive and transitive relation that holds across every move holds across every handler call. -/
theorem callback_frame {R : Request × Trace → Request × Trace → Prop} (refl : ∀ x, R x x)
    (trans : ∀ x y z, R x y → R y z → R x z) (move : ∀ x y, Move x y → R x y) (callback : Callback) (e : Env)
    (w : World) :
    R (callback.entered w.r, w.trace) ((callback.code.run e w).2.r, (callback.code.run e w).2.trace) := by
  have h : World.Moved (w.setR (callback.entered w.r)) (callback.code.run e w).2 := callback_moves callback e w
  unfold World.Moved at h
  change Relation.ReflTransGen Move (callback.entered w.r, w.trace) _ at h
  generalize ((callback.code.run e w).2.r, (callback.code.run e w).2.trace) = y at h ⊢
  induction h with
  | refl => exact refl _
  | tail _ last ih => exact trans _ _ _ ih (move _ _ last)

theorem Move.extends (x y : Request × Trace) (h : Move x y) : x.2 <+: y.2 := by
  cases h <;> first | exact List.prefix_append _ _ | exact List.prefix_refl _

/-- what a handler call adds to the trace -/
theorem World.trace_events (w : World) (callback : Callback) (e : Env) (r : Request) :
    (callback.code.run e (w.setR r)).2.trace = w.trace ++ w.events callback e r := by
  obtain ⟨evs, hevs⟩ := callback_frame (R := fun x y => x.2 <+: y.2) (fun _ => List.prefix_refl _)
    (fun _ _ _ h h' => h.trans h') Move.extends callback e (w.setR r)
  have htr : (callback.code.run e (w.setR r)).2.trace = w.trace ++ evs := hevs.symm
  rw [World.events_eq htr]
  exact htr

end CorazaNginx
