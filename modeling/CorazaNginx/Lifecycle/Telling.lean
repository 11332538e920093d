/-
What the handlers tell the engine.

`OfEngine tok`: tokens are told in calls to the engine alone. A block that keeps to calls without tokens tells nothing
(`Keeps.speaks`), so that of a handler only the calls that do tell are to be followed.
-/
import Mathlib.Tactic
import CorazaNginx.Core.Telling
import CorazaNginx.Lifecycle.Confined

namespace CorazaNginx

open CorazaNginx.Core Prog Handler

variable {τ ρ α : Type} {tok : Event → List τ} {e : Env} {s t : St} {l : List τ}

/-- tokens are told in calls to the engine only -/
structure OfEngine (tok : Event → List τ) : Prop where
  poll : ∀ tx sent iv, tok (.poll tx sent iv) = []
  call : ∀ c rc, (∀ tx c', c ≠ .engine tx c') → tok (.call c rc) = []

/-- a call in which nothing is told -/
def EngineCall.Untold (tok : Event → List τ) (c : EngineCall) : Prop := ∀ tx rc, tok (.call (.engine tx c) rc) = []

theorem OfEngine.within (htok : OfEngine tok) {tx : ℕ} {ev : Event} (h : ev.Within tx (EngineCall.Untold tok)) :
    tok ev = [] := by
  cases ev with
  | poll tx sent iv => exact htok.poll tx sent iv
  | call c rc =>
    cases c with
    | engine tx' c => exact h.2 tx' rc
    | _ => exact htok.call _ rc fun _ _ hc => by cases hc

theorem Confined.tells (h : Confined (EngineCall.Untold tok) s t) (htok : OfEngine tok) :
    Tells tok s.trace t.trace [] := by
  obtain ⟨evs, htr, hevs⟩ := h.trace
  exact .silent htr fun ev hev => htok.within (hevs ev hev)

/-- whatever it is called with, the block tells `l`, or a part of `l` when the enclosing function returns in it -/
abbrev Speaks (tok : Event → List τ) (e : Env) (l : List τ) (m : Handler ρ α) : Prop :=
  Says tok St.trace e (fun _ => True) (fun _ => True) l m

theorem Keeps.speaks {m : Handler ρ α} (h : Keeps (EngineCall.Untold tok) m) (htok : OfEngine tok) :
    Speaks tok e [] m :=
  fun s _ => wp_mono (h e s) (fun _ _ ht => ⟨trivial, ht.tells htok⟩) fun _ _ ht => ⟨trivial, .none (ht.tells htok) _⟩

theorem engine_speaks (c : EngineCall) (hl : ∀ tx rc, tok (.call (.engine tx c) rc) = l) :
    Speaks tok e l (engine c : Handler ρ ℤ) := by
  intro s _
  rw [wp_engine, ← hl s.ctx.corazaTransaction (e.ret s.trace (.engine s.ctx.corazaTransaction c))]
  exact ⟨trivial, .single _ _⟩

theorem poll_speaks (htok : OfEngine tok) (hstatus : ∀ status, EngineCall.Untold tok (.updateStatusCode status)) :
    Speaks tok e [] (processIntervention false : Handler ρ ℤ) := (processIntervention_keeps hstatus).speaks htok

/-- a poll returns -/
theorem processIntervention_tells (htok : OfEngine tok)
    (hstatus : ∀ status, EngineCall.Untold tok (.updateStatusCode status)) {Q : ℤ → St → Prop} {E : ρ → St → Prop}
    (hQ : ∀ rc t, Tells tok s.trace t.trace [] → Q rc t) :
    wp (processIntervention false : Handler ρ ℤ) Q E e s := by
  have h : wp (processIntervention false : Handler ρ ℤ) _ _ e s := processIntervention_keeps hstatus e s
  rw [processIntervention, wp_call] at h ⊢
  exact wp_mono h (fun rc t ht => hQ rc t (ht.tells htok)) fun rc t ht => hQ rc t (ht.tells htok)

end CorazaNginx
