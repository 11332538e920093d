/-
The engine's library: all of it, or none.

`Bound d lib`: the library is open, every function the module needs is in it, it is recent enough, and the wrapper of
each function follows the pointer to that very function. `Opened` is everything `ngx_http_coraza_dl_open` can come to;
whatever libraries a process finds when it tries, each one opened is closed or stays bound for good (`Sound`,
`library_all_or_nothing`).
-/
import Mathlib.Tactic
import CorazaNginx.Model.Loader

namespace CorazaNginx.Dl

open CorazaNginx.Core Prog

variable {ρ : Type} {e : DlEnv} {d d' : Loader} {lib : Library}

/-! ## Resolving -/

/-- a library that the module accepts -/
structure Library.Supported (lib : Library) : Prop where
  whole : ∀ sym, lib.exports sym ≠ 0
  recent : 10700 ≤ lib.version

structure Bound (d : Loader) (lib : Library) : Prop where
  handle : d.handle = some lib
  supported : lib.Supported
  wrapper : ∀ sym, d.ptr sym.wrapper = lib.exports sym

/-- what stands in the record while symbols are looked up -/
def Lookups (t : DlTrace) : Prop := ∀ c ∈ t, ∃ sym addr, c = .looked sym addr

/-- no pointer is resolved twice -/
theorem dlSyms_nodup : (dlSyms.map Prod.fst).Nodup := by decide

/-- each wrapper's pointer is resolved under the name of the wrapper -/
theorem wrapper_mem_dlSyms (sym : Symbol) : (sym.wrapper, sym) ∈ dlSyms := by
  cases sym <;> decide

/-- the pointers in `done` have been resolved -/
structure Resolving (d : Loader) (lib : Library) (done : List (Slot × Symbol)) (d' : Loader) : Prop where
  handle : d'.handle = some lib
  resolved : ∀ x ∈ done, d'.ptr x.1 = lib.exports x.2 ∧ lib.exports x.2 ≠ 0
  trace : ∃ evs, d'.trace = d.trace ++ evs ∧ Lookups evs

/-- a symbol is missing, and the library is closed again -/
structure Missing (d : Loader) (lib : Library) (rc : ℤ) (d' : Loader) : Prop where
  code : rc = ngxError
  handle : d'.handle = none
  missing : ∃ sym, lib.exports sym = 0
  trace : ∃ evs, d'.trace = d.trace ++ (evs ++ [.closed]) ∧ Lookups evs

theorem dlSym_spec {done : List (Slot × Symbol)} {x : Slot × Symbol} (h : Resolving d lib done d')
    (hx : ∀ y ∈ done, y.1 ≠ x.1) :
    wp (dlSym x) (fun _ => Resolving d lib (done ++ [x])) (Missing d lib) e d' := by
  obtain ⟨evs, htr, hevs⟩ := h.trace
  have hmore : Lookups (evs ++ [.looked x.2 (lib.exports x.2)]) :=
    List.forall_mem_append.2 ⟨hevs, fun c hc => ⟨_, _, List.mem_singleton.1 hc⟩⟩
  rw [dlSym, wp_bind, dynlibSym, wp_bind, wp_get, h.handle, wp_bind, wp_modify, wp_pure, wp_bind, wp_modify]
  refine (wp_when _ _).2 ⟨fun h0 => ?_, fun h0 => ?_⟩
  · rw [wp_bind, dynlibClose, wp_modify, wp_bind, wp_modify, wp_exit]
    refine ⟨rfl, rfl, ⟨x.2, h0⟩, _, ?_, hmore⟩
    change (d'.trace ++ [_]) ++ [_] = _
    rw [htr]
    simp
  · refine ⟨h.handle, fun y hy => ?_, _, ?_, hmore⟩
    · rcases List.mem_append.1 hy with hy | hy
      · -- the pointer of another symbol
        have hne : (d'.setPtr x.1 (lib.exports x.2)).ptr y.1 = d'.ptr y.1 := Function.update_of_ne (hx y hy) _ _
        refine ⟨?_, (h.resolved y hy).2⟩
        exact hne.trans (h.resolved y hy).1
      · rw [List.mem_singleton.1 hy]
        exact ⟨Function.update_self _ _ _, h0⟩
    · change d'.trace ++ [_] = _
      rw [htr, List.append_assoc]

/-- **The symbols**: each resolved, or the first that is missing ends it. -/
theorem dlSyms_spec (h : d.handle = some lib) :
    wp (forEach dlSyms dlSym) (fun _ => Resolving d lib dlSyms) (Missing d lib) e d := by
  refine wp_forEach (Resolving d lib) dlSyms dlSym ?_ (fun _ h => h) fun pre x post d' hl hr => ?_
  · exact ⟨h, fun _ hx => absurd hx List.not_mem_nil, [], (List.append_nil _).symm,
      fun _ hc => absurd hc List.not_mem_nil⟩
  · refine dlSym_spec hr fun y hy heq => ?_
    have hnodup := dlSyms_nodup
    rw [hl, List.map_append, List.nodup_append] at hnodup
    exact hnodup.2.2 _ (List.mem_map_of_mem hy) _ (by simp) heq

/-! ## Opening -/

/-- what stands in the record of a library that has been opened -/
def Inspection (lib : Library) (t : DlTrace) : Prop :=
  ∀ c ∈ t, (∃ sym addr, c = .looked sym addr) ∨ c = .called (lib.exports .corazaVersionNum)

theorem Lookups.inspection {t : DlTrace} (h : Lookups t) (lib : Library) : Inspection lib t :=
  fun c hc => Or.inl (h c hc)

/-- what `ngx_http_coraza_dl_open` comes to -/
inductive Opened (e : DlEnv) (d : Loader) : ℤ → Loader → Prop where
  | already (h : d.handle.isSome = true) : Opened e d ngxOk d
  | notFound (unloaded : d.handle = none) (h : e.dynlibOpen d.trace = none) : Opened e d ngxError (d.log .notFound)
  | refused (lib : Library) (evs : DlTrace) (d' : Loader) (unloaded : d.handle = none)
      (found : e.dynlibOpen d.trace = some lib)
      (unsupported : ¬ lib.Supported) (handle : d'.handle = none) (inspected : Inspection lib evs)
      (resolved : DlCall.called 0 ∉ evs) (trace : d'.trace = d.trace ++ .opened :: (evs ++ [.closed])) :
      Opened e d ngxError d'
  | loaded (lib : Library) (evs : DlTrace) (d' : Loader) (unloaded : d.handle = none)
      (found : e.dynlibOpen d.trace = some lib)
      (bound : Bound d' lib) (inspected : Inspection lib evs) (resolved : DlCall.called 0 ∉ evs)
      (trace : d'.trace = d.trace ++ .opened :: evs) : Opened e d ngxOk d'

theorem Lookups.resolved {t : DlTrace} (h : Lookups t) : DlCall.called 0 ∉ t := by
  intro hin
  obtain ⟨sym, addr, heq⟩ := h _ hin
  cases heq

theorem dlOpen_spec {Q : ℤ → Loader → Prop} {E : ρ → Loader → Prop} (hQ : ∀ rc d', Opened e d rc d' → Q rc d') :
    wp (dlOpen : DlCode ρ ℤ) Q E e d := by
  rw [dlOpen, wp_call, wp_bind, wp_get, wp_bind]
  refine (wp_when _ _).2 ⟨fun hyes => hQ _ _ (.already hyes), fun hno => ?_⟩
  have hnone : d.handle = none := by simpa using hno
  rw [wp_bind, dynlibOpen, wp_bind, wp_ask, wp_bind, wp_get, wp_bind, wp_modify, wp_pure, wp_bind, wp_modify, wp_bind]
  cases hfound : e.dynlibOpen d.trace with
  | none =>
    refine (wp_when _ _).2 ⟨fun _ => ?_, fun hno => absurd rfl hno⟩
    have heq : (d.log .notFound).setHandle none = d.log .notFound := by
      change Loader.mk none d.ptr (d.trace ++ [.notFound]) = Loader.mk d.handle d.ptr (d.trace ++ [.notFound])
      rw [hnone]
    have h := hQ _ _ (.notFound hnone hfound)
    rwa [← heq] at h
  | some lib =>
    refine (wp_when _ _).2 ⟨fun hno => absurd hno (by simp), fun _ => ?_⟩
    set d1 := (d.log .opened).setHandle (some lib) with hd1
    change wp _ Q Q e d1
    have htr1 : ∀ evs, d1.trace ++ evs = d.trace ++ .opened :: evs := fun evs => List.append_assoc d.trace [.opened] evs
    rw [wp_bind]
    refine wp_mono (dlSyms_spec (d := d1) rfl) (fun _ d2 h2 => ?_) (fun rc d2 h2 => ?_)
    · obtain ⟨evs, htr, hevs⟩ := h2.trace
      rw [htr1] at htr
      have hbound : ∀ sym, d2.ptr sym.wrapper = lib.exports sym ∧ lib.exports sym ≠ 0 := fun sym =>
        h2.resolved _ (wrapper_mem_dlSyms sym)
      -- the version is asked through the pointer that has just been resolved
      have hptr : d2.ptr .dlVersionNum = lib.exports .corazaVersionNum := (hbound .corazaVersionNum).1
      rw [wp_bind, dlVersionNum, wp_bind, follow, wp_modify, wp_bind, wp_get, hptr]
      change wp _ Q Q e (d2.log (.called (lib.exports .corazaVersionNum)))
      have hhandle : (d2.log (.called (lib.exports .corazaVersionNum))).handle = some lib := h2.handle
      rw [hhandle, wp_bind]
      have hins : Inspection lib (evs ++ [.called (lib.exports .corazaVersionNum)]) :=
        List.forall_mem_append.2 ⟨hevs.inspection lib, fun c hc => Or.inr (List.mem_singleton.1 hc)⟩
      have hres : DlCall.called 0 ∉ evs ++ [.called (lib.exports .corazaVersionNum)] := by
        intro hin
        rcases List.mem_append.1 hin with hin | hin
        · exact hevs.resolved hin
        · injection List.mem_singleton.1 hin with h0
          exact (hbound .corazaVersionNum).2 h0.symm
      refine (wp_when _ _).2 ⟨fun hold => ?_, fun hnew => ?_⟩
      · rw [wp_bind, dynlibClose, wp_modify, wp_bind, wp_modify, wp_exit]
        refine hQ _ _ (.refused lib _ _ hnone hfound (fun hs => ?_) rfl hins hres ?_)
        · exact absurd hs.recent (not_le_of_gt hold)
        · change ((d2.trace ++ [_]) ++ [_]) = _
          rw [htr]
          simp
      · refine hQ _ _ (.loaded lib _ _ hnone hfound ⟨h2.handle, ⟨fun sym => (hbound sym).2, le_of_not_gt hnew⟩,
          fun sym => (hbound sym).1⟩
          hins hres ?_)
        change d2.trace ++ [_] = _
        rw [htr]
        simp
    · obtain ⟨evs, htr, hevs⟩ := h2.trace
      obtain ⟨sym, hsym⟩ := h2.missing
      rw [htr1] at htr
      rw [h2.code]
      exact hQ _ _ (.refused lib evs d2 hnone hfound (fun hs => hs.whole sym hsym) h2.handle (hevs.inspection lib)
        hevs.resolved htr)

/-- the outcome of one attempt -/
theorem dlOpen_opened (e : DlEnv) (d : Loader) :
    Opened e d ((dlOpen : DlCode ℤ ℤ).run e d).1 ((dlOpen : DlCode ℤ ℤ).run e d).2 :=
  (wp_run (Q := Opened e d) (dlOpen : DlCode ℤ ℤ)).1 (dlOpen_spec fun _ _ h => h)

/-- an attempt succeeds on a supported library, or where one is loaded -/
theorem Opened.ok_iff {rc : ℤ} (h : Opened e d rc d') :
    rc = ngxOk ↔ d.handle.isSome = true ∨ ∃ lib, e.dynlibOpen d.trace = some lib ∧ lib.Supported := by
  have hne : ¬ ngxError = ngxOk := by decide
  cases h with
  | already h => exact ⟨fun _ => Or.inl h, fun _ => rfl⟩
  | notFound hnone h =>
    refine ⟨fun hrc => absurd hrc hne, ?_⟩
    rintro (hsome | ⟨lib, hfound, -⟩)
    · rw [hnone] at hsome
      cases hsome
    · rw [h] at hfound
      cases hfound
  | refused lib evs d' hnone found unsupported =>
    refine ⟨fun hrc => absurd hrc hne, ?_⟩
    rintro (hsome | ⟨lib', hfound, hsup⟩)
    · rw [hnone] at hsome
      cases hsome
    · rw [found] at hfound
      injection hfound with heq
      exact absurd (heq ▸ hsup) unsupported
  | loaded lib evs d' hnone found bound => exact ⟨fun _ => Or.inr ⟨lib, found, bound.supported⟩, fun _ => rfl⟩

/-- an attempt that fails leaves none open -/
theorem Opened.unloaded_of {rc : ℤ} (h : Opened e d rc d') (hno : rc ≠ ngxOk) : d'.handle = none := by
  cases h with
  | already => exact absurd rfl hno
  | loaded => exact absurd rfl hno
  | notFound unloaded => exact unloaded
  | refused _ _ _ _ _ _ handle => exact handle

/-! ## Runs -/

/-- what a process does with the loader: it tries to load the library, or calls an engine function -/
inductive DlStep where
  | load (e : DlEnv)
  | call (sym : Symbol)

def Loader.next (d : Loader) : DlStep → Loader
  | .load e => ((dlOpen : DlCode ℤ ℤ).run e d).2
  | .call sym => callEngine d sym

def Loader.run (d : Loader) (steps : List DlStep) : Loader := steps.foldl Loader.next d

/-- the module calls the engine in processes that have loaded it -/
def DlStep.Allowed (d : Loader) : DlStep → Prop
  | .load _ => True
  | .call _ => d.handle.isSome = true

instance (d : Loader) : ∀ step : DlStep, Decidable (step.Allowed d)
  | .load _ => inferInstanceAs (Decidable True)
  | .call _ => inferInstanceAs (Decidable (_ = _))

/-- every step is made where it may be made -/
def Loader.Along (d : Loader) : List DlStep → Prop
  | [] => True
  | step :: steps => step.Allowed d ∧ (d.next step).Along steps

/-- a library is bound or none is open; every library opened and not open any more has been closed, once; no call has
gone through a NULL pointer -/
structure Sound (d : Loader) : Prop where
  bound : ∀ lib, d.handle = some lib → Bound d lib
  balanced : d.trace.count .opened = d.trace.count .closed + if d.handle.isSome then 1 else 0
  resolved : DlCall.called 0 ∉ d.trace

theorem Sound.start : Sound {} := ⟨fun _ h => absurd h (by simp), rfl, List.not_mem_nil⟩

theorem Inspection.count_eq {evs : DlTrace} (h : Inspection lib evs) :
    evs.count .opened = 0 ∧ evs.count .closed = 0 := by
  constructor <;>
  · refine List.count_eq_zero_of_not_mem fun hin => ?_
    rcases h _ hin with ⟨sym, addr, heq⟩ | heq <;> cases heq

theorem Sound.opened {rc : ℤ} (h : Sound d) (ho : Opened e d rc d') : Sound d' := by
  have hbal := h.balanced
  cases ho with
  | already => exact h
  | notFound hnone =>
    refine ⟨fun lib hlib => ?_, ?_, fun hin => ?_⟩
    · rw [show (d.log .notFound).handle = none from hnone] at hlib
      cases hlib
    · change List.count DlCall.opened (d.trace ++ [.notFound]) = List.count DlCall.closed (d.trace ++ [.notFound]) +
        if d.handle.isSome then 1 else 0
      rw [List.count_append, List.count_append, hbal]
      rfl
    · rcases List.mem_append.1 hin with hin | hin
      · exact h.resolved hin
      · cases List.mem_singleton.1 hin
  | refused lib evs d' hnone found unsupported handle inspected resolved trace =>
    obtain ⟨ho, hc⟩ := inspected.count_eq
    refine ⟨fun lib hlib => ?_, ?_, fun hin => ?_⟩
    · rw [handle] at hlib
      cases hlib
    · rw [hnone] at hbal
      rw [trace, handle]
      simp only [List.count_append, List.count_cons, List.count_nil, hbal, ho, hc]
      rfl
    · rw [trace] at hin
      simp only [List.mem_append, List.mem_cons, List.not_mem_nil, or_false] at hin
      rcases hin with hin | hin | hin | hin
      · exact h.resolved hin
      · cases hin
      · exact resolved hin
      · cases hin
  | loaded lib evs d' hnone found bound inspected resolved trace =>
    obtain ⟨ho, hc⟩ := inspected.count_eq
    refine ⟨fun lib' hlib => ?_, ?_, fun hin => ?_⟩
    · rw [bound.handle] at hlib
      injection hlib with heq
      exact heq ▸ bound
    · rw [hnone] at hbal
      rw [trace, bound.handle]
      simp only [List.count_append, List.count_cons, hbal, ho, hc]
      rfl
    · rw [trace] at hin
      simp only [List.mem_append, List.mem_cons] at hin
      rcases hin with hin | hin | hin
      · exact h.resolved hin
      · cases hin
      · exact resolved hin

/-- an attempt that succeeds has a library bound -/
theorem Sound.binds {rc : ℤ} (h : Sound d) (ho : Opened e d rc d') (hok : rc = ngxOk) : ∃ lib, Bound d' lib := by
  cases ho with
  | already hsome =>
    obtain ⟨lib, hlib⟩ := Option.isSome_iff_exists.1 hsome
    exact ⟨lib, h.bound lib hlib⟩
  | loaded lib evs d' _ _ bound => exact ⟨lib, bound⟩
  | notFound => exact absurd hok (by decide)
  | refused => exact absurd hok (by decide)

theorem Bound.callEngine (h : Bound d lib) (sym : Symbol) : Bound (callEngine d sym) lib :=
  ⟨h.handle, h.supported, h.wrapper⟩

/-- the wrapper of a function of a bound library calls that function -/
theorem Bound.callEngine_trace (h : Bound d lib) (sym : Symbol) :
    (Dl.callEngine d sym).trace = d.trace ++ [.called (lib.exports sym)] := by
  rw [← h.wrapper sym]
  rfl

theorem Sound.step (h : Sound d) {step : DlStep} (hallowed : step.Allowed d) : Sound (d.next step) := by
  cases step with
  | load e => exact h.opened (dlOpen_opened e d)
  | call sym =>
    obtain ⟨lib, hlib⟩ := Option.isSome_iff_exists.1 hallowed
    have hb := h.bound lib hlib
    have htr : (d.next (.call sym)).trace = d.trace ++ [.called (lib.exports sym)] := hb.callEngine_trace sym
    refine ⟨fun lib' hlib' => (h.bound lib' hlib').callEngine sym, ?_, fun hin => ?_⟩
    · rw [htr, List.count_append, List.count_append, h.balanced]
      rfl
    · rw [htr] at hin
      rcases List.mem_append.1 hin with hin | hin
      · exact h.resolved hin
      · injection List.mem_singleton.1 hin with h0
        exact hb.supported.whole sym h0.symm

theorem Sound.run (h : Sound d) (steps : List DlStep) (hallowed : d.Along steps) : Sound (d.run steps) := by
  induction steps generalizing d with
  | nil => exact h
  | cons step steps ih => exact ih (h.step hallowed.1) hallowed.2

/-- a loaded library is not opened again, and its pointers stay -/
theorem Loader.next_loaded (h : d.handle.isSome = true) (step : DlStep) :
    (d.next step).handle = d.handle ∧ (d.next step).ptr = d.ptr := by
  cases step with
  | call sym => exact ⟨rfl, rfl⟩
  | load e =>
    have ho := dlOpen_opened e d
    change (((dlOpen : DlCode ℤ ℤ).run e d).2).handle = d.handle ∧ (((dlOpen : DlCode ℤ ℤ).run e d).2).ptr = d.ptr
    generalize ((dlOpen : DlCode ℤ ℤ).run e d).1 = rc, ((dlOpen : DlCode ℤ ℤ).run e d).2 = d' at ho ⊢
    cases ho with
    | already => exact ⟨rfl, rfl⟩
    | notFound hnone =>
      rw [hnone] at h
      cases h
    | refused lib evs d' hnone =>
      rw [hnone] at h
      cases h
    | loaded lib evs d' hnone =>
      rw [hnone] at h
      cases h

theorem Loader.run_loaded (h : d.handle.isSome = true) (steps : List DlStep) :
    (d.run steps).handle = d.handle ∧ (d.run steps).ptr = d.ptr := by
  induction steps generalizing d with
  | nil => exact ⟨rfl, rfl⟩
  | cons step steps ih =>
    obtain ⟨hhandle, hptr⟩ := Loader.next_loaded h step
    obtain ⟨h1, h2⟩ := ih (d := d.next step) (by rw [hhandle]; exact h)
    exact ⟨h1.trans hhandle, h2.trans hptr⟩

/-- what a process has of the library, whatever it has tried so far -/
structure AllOrNothing (d : Loader) : Prop extends Sound d where
  /-- an attempt succeeds where a library is loaded or a supported one is found, and then it is bound -/
  opens : ∀ e : DlEnv, ((dlOpen : DlCode ℤ ℤ).run e d).1 = ngxOk ↔
    d.handle.isSome = true ∨ ∃ lib, e.dynlibOpen d.trace = some lib ∧ lib.Supported
  binds : ∀ e : DlEnv, ((dlOpen : DlCode ℤ ℤ).run e d).1 = ngxOk → ∃ lib, Bound ((dlOpen : DlCode ℤ ℤ).run e d).2 lib
  /-- one that fails leaves none open -/
  fails : ∀ e : DlEnv, ((dlOpen : DlCode ℤ ℤ).run e d).1 ≠ ngxOk → ((dlOpen : DlCode ℤ ℤ).run e d).2.handle = none
  /-- a library that is bound stays bound -/
  stays : ∀ lib, d.handle = some lib → ∀ steps, d.Along steps → Bound (d.run steps) lib

/-- **All or nothing.** Whatever libraries a process finds, and however often it tries: it has one bound whole, or
none. -/
theorem library_all_or_nothing (steps : List DlStep) (hallowed : ({} : Loader).Along steps) :
    AllOrNothing (({} : Loader).run steps) := by
  have hs : Sound (({} : Loader).run steps) := Sound.start.run steps hallowed
  generalize ({} : Loader).run steps = d at hs
  refine ⟨hs, fun e => (dlOpen_opened e d).ok_iff, fun e hok => hs.binds (dlOpen_opened e d) hok,
    fun e hno => (dlOpen_opened e d).unloaded_of hno, fun lib hlib more hmore => ?_⟩
  have hsome : d.handle.isSome = true := by rw [hlib]; rfl
  refine (hs.run more hmore).bound lib ?_
  rw [(Loader.run_loaded hsome more).1, hlib]

/-- a library that has everything -/
def wholeLibrary : Library := ⟨fun _ => 1, 10700⟩

/-- the same without its last function, as releases before 1.7.0 are -/
def oldLibrary : Library := { wholeLibrary with exports := fun sym => if sym = .corazaVersionNum then 0 else 1 }

/-- an attempt on an old library, one on a new one, and a call -/
theorem library_second_attempt : AllOrNothing (({} : Loader).run
    [.load ⟨fun _ => some oldLibrary⟩, .load ⟨fun _ => some wholeLibrary⟩, .call .corazaNewWaf]) :=
  library_all_or_nothing _ ⟨trivial, trivial, by decide +kernel, trivial⟩

end CorazaNginx.Dl
