/-
Programs with early return, and rules for reasoning about them. Nothing here names the filter under verification.

`Prog ε σ ρ α` is a statement block of an imperative function that reads an environment `ε`, updates a state `σ` and
either falls through with a value (`Flow.go`) or has already returned `ρ` from the enclosing function (`Flow.ret`).
`exit` is the `return` statement, `when` an `if` without an else branch, `call` runs another function's body to its own
return value.

`wp m Q E e s`: run in environment `e` from state `s`, the block ends in `Q` if it falls through and in `E` if it
returned. Rules:
- one equation for each statement former (`wp_bind`, `wp_ite`, `wp_exit`, `wp_call`, ...), a simp set that turns a
  straight-line block into its verification condition;
- `wp_mono`, `wp_and`: consequence and conjunction;
- `wp_forEach`: the invariant rule for a loop over a list.
`Guar R m` (every run of `m` relates its two states by `R`) is closed under all formers when `R` is reflexive and
transitive; it carries frame conditions through a whole function without looking at its branches. `Ends I R X m` is the
same with a precondition `I` and a statement `X` of its own about returns; it is closed under the formers whenever the
three fit together (`Composes`). What is proved once for every property of blocks that the formers keep
(`Compositional`) can be read for a guarantee, or for one in a fixed environment (`GuarIn`).
-/
import Mathlib.Tactic

namespace CorazaNginx.Core

/-- how a block ends: it falls through with a value, or the enclosing function has returned -/
inductive Flow (ρ α : Type) where
  | go (a : α)
  | ret (r : ρ)
deriving DecidableEq

/-- a statement block: environment and state in, flow and state out -/
def Prog (ε σ ρ α : Type) : Type := ε → σ → Flow ρ α × σ

namespace Prog

variable {ε σ τ ρ ρ' α β : Type}

protected def bind (m : Prog ε σ ρ α) (f : α → Prog ε σ ρ β) : Prog ε σ ρ β := fun e s =>
  match m e s with
  | (.go a, s') => f a e s'
  | (.ret r, s') => (.ret r, s')

instance : Monad (Prog ε σ ρ) where
  pure a := fun _ s => (.go a, s)
  bind := Prog.bind

/-- the `return` statement -/
def exit (r : ρ) : Prog ε σ ρ α := fun _ s => (.ret r, s)

def ask : Prog ε σ ρ ε := fun e s => (.go e, s)

def get : Prog ε σ ρ σ := fun _ s => (.go s, s)

def modify (f : σ → σ) : Prog ε σ ρ Unit := fun _ s => (.go (), f s)

/-- the function whose body is `m`, run from `s`: its return value and the state it leaves -/
def run (m : Prog ε σ α α) (e : ε) (s : σ) : α × σ :=
  match m e s with
  | (.go a, s') => (a, s')
  | (.ret a, s') => (a, s')

/-- call the function whose body is `m` -/
def call (m : Prog ε σ α α) : Prog ε σ ρ α := fun e s => (.go (m.run e s).1, (m.run e s).2)

/-- `if (c) { ... }` -/
def when (c : Prop) [Decidable c] (m : Prog ε σ ρ Unit) : Prog ε σ ρ Unit := if c then m else pure ()

/-- `for` over a list; a `return` inside the body leaves the enclosing function -/
def forEach (l : List β) (f : β → Prog ε σ ρ Unit) : Prog ε σ ρ Unit :=
  match l with
  | [] => pure ()
  | x :: l => do f x; forEach l f

/-- a loop over one element more -/
theorem forEach_concat (l : List β) (x : β) (f : β → Prog ε σ ρ Unit) (e : ε) (s : σ) :
    forEach (l ++ [x]) f e s = match forEach l f e s with
      | (.go _, s') => f x e s'
      | (.ret r, s') => (.ret r, s') := by
  induction l generalizing s with
  | nil =>
    change Prog.bind (f x) (fun _ => pure ()) e s = f x e s
    unfold Prog.bind
    rcases f x e s with ⟨_ | _, _⟩ <;> rfl
  | cons y l ih =>
    change Prog.bind (f y) (fun _ => forEach (l ++ [x]) f) e s =
      match Prog.bind (f y) (fun _ => forEach l f) e s with
      | (.go _, s') => f x e s'
      | (.ret r, s') => (.ret r, s')
    unfold Prog.bind
    rcases f y e s with ⟨_ | _, s'⟩
    · exact ih s'
    · rfl

/-- run a block on a component of a larger state -/
def focus (view : τ → σ) (put : τ → σ → τ) (m : Prog ε σ ρ α) : Prog ε τ ρ α := fun e t =>
  ((m e (view t)).1, put t (m e (view t)).2)

/-! ## Weakest preconditions -/

/-- `Q` if the block falls through, `E` if it returned -/
def wp (m : Prog ε σ ρ α) (Q : α → σ → Prop) (E : ρ → σ → Prop) (e : ε) (s : σ) : Prop :=
  match m e s with
  | (.go a, s') => Q a s'
  | (.ret r, s') => E r s'

section
variable {Q Q' : α → σ → Prop} {E E' : ρ → σ → Prop} {e : ε} {s : σ}

@[simp] theorem wp_pure (a : α) : wp (pure a : Prog ε σ ρ α) Q E e s ↔ Q a s := Iff.rfl

@[simp] theorem wp_bind (m : Prog ε σ ρ α) (f : α → Prog ε σ ρ β) {Q : β → σ → Prop} :
    wp (m >>= f) Q E e s ↔ wp m (fun a => wp (f a) Q E e) E e s := by
  change wp (Prog.bind m f) Q E e s ↔ _
  unfold wp Prog.bind
  rcases m e s with ⟨_ | _, _⟩ <;> exact Iff.rfl

@[simp] theorem wp_exit (r : ρ) : wp (exit r : Prog ε σ ρ α) Q E e s ↔ E r s := Iff.rfl

@[simp] theorem wp_ask {Q : ε → σ → Prop} : wp (ask : Prog ε σ ρ ε) Q E e s ↔ Q e s := Iff.rfl

@[simp] theorem wp_get {Q : σ → σ → Prop} : wp (get : Prog ε σ ρ σ) Q E e s ↔ Q s s := Iff.rfl

@[simp] theorem wp_modify (f : σ → σ) {Q : Unit → σ → Prop} :
    wp (modify f : Prog ε σ ρ Unit) Q E e s ↔ Q () (f s) := Iff.rfl

@[simp] theorem wp_ite (c : Prop) [Decidable c] (m n : Prog ε σ ρ α) :
    wp (if c then m else n) Q E e s ↔ (c → wp m Q E e s) ∧ (¬ c → wp n Q E e s) := by
  split_ifs with h <;> simp [h]

@[simp] theorem wp_when (c : Prop) [Decidable c] (m : Prog ε σ ρ Unit) {Q : Unit → σ → Prop} :
    wp (when c m) Q E e s ↔ (c → wp m Q E e s) ∧ (¬ c → Q () s) := wp_ite c m (pure ())

@[simp] theorem wp_dite (c : Prop) [Decidable c] (m : c → Prog ε σ ρ α) (n : ¬ c → Prog ε σ ρ α) :
    wp (if h : c then m h else n h) Q E e s ↔ (∀ h : c, wp (m h) Q E e s) ∧ ∀ h : ¬ c, wp (n h) Q E e s := by
  split_ifs with h <;> simp [h]

@[simp] theorem wp_call (m : Prog ε σ α α) : wp (call m : Prog ε σ ρ α) Q E e s ↔ wp m Q Q e s := by
  unfold wp call run
  rcases m e s with ⟨_ | _, _⟩ <;> exact Iff.rfl

theorem wp_run (m : Prog ε σ α α) : wp m Q Q e s ↔ Q (m.run e s).1 (m.run e s).2 := by
  unfold wp run
  rcases m e s with ⟨_ | _, _⟩ <;> exact Iff.rfl

/-- what holds of the state on every way out holds of the state the function leaves -/
theorem run_state {m : Prog ε σ α α} {P : σ → Prop} (h : wp m (fun _ => P) (fun _ => P) e s) : P (m.run e s).2 :=
  (wp_run (Q := fun _ => P) m).1 h

/-- a block whose way out is known to be falling through -/
theorem wp_of_go {m : Prog ε σ ρ α} {a : α} (h : (m e s).1 = .go a) (hQ : Q a (m e s).2) : wp m Q E e s := by
  unfold wp
  rcases hm : m e s with ⟨f, s'⟩
  rw [hm] at h hQ
  subst h
  exact hQ

/-- what holds of a block that is known to fall through -/
theorem of_wp_go {m : Prog ε σ ρ α} {a : α} (h : (m e s).1 = .go a) (hm : wp m Q E e s) : Q a (m e s).2 := by
  unfold wp at hm
  rcases hs : m e s with ⟨f, s'⟩
  rw [hs] at h hm
  subst h
  exact hm

theorem wp_mono {m : Prog ε σ ρ α} (h : wp m Q E e s) (hQ : ∀ a s', Q a s' → Q' a s') (hE : ∀ r s', E r s' → E' r s') :
    wp m Q' E' e s := by
  unfold wp at h ⊢
  rcases hm : m e s with ⟨_ | _, s'⟩ <;> rw [hm] at h
  · exact hQ _ _ h
  · exact hE _ _ h

theorem wp_and {m : Prog ε σ ρ α} (h : wp m Q E e s) (h' : wp m Q' E' e s) :
    wp m (fun a s' => Q a s' ∧ Q' a s') (fun r s' => E r s' ∧ E' r s') e s := by
  unfold wp at h h' ⊢
  rcases hm : m e s with ⟨_ | _, s'⟩ <;> rw [hm] at h h' <;> exact ⟨h, h'⟩

@[simp] theorem wp_focus (view : τ → σ) (put : τ → σ → τ) (m : Prog ε σ ρ α) {Q : α → τ → Prop} {E : ρ → τ → Prop}
    {t : τ} : wp (focus view put m) Q E e t ↔
      wp m (fun a s' => Q a (put t s')) (fun r s' => E r (put t s')) e (view t) := by
  unfold wp focus
  rcases m e (view t) with ⟨_ | _, _⟩ <;> exact Iff.rfl

/-- **Invariant rule.** `I done s`: the loop has run the body on `done`. -/
theorem wp_forEach (I : List β → σ → Prop) (l : List β) (f : β → Prog ε σ ρ Unit) {Q : Unit → σ → Prop}
    (h0 : I [] s) (hQ : ∀ s', I l s' → Q () s')
    (step : ∀ pre x post s', l = pre ++ x :: post → I pre s' → wp (f x) (fun _ => I (pre ++ [x])) E e s') :
    wp (forEach l f) Q E e s := by
  suffices ∀ post pre s', l = pre ++ post → I pre s' → wp (forEach post f) Q E e s' from this l [] s rfl h0
  intro post
  induction post with
  | nil =>
    intro pre s' hl hI
    rw [List.append_nil] at hl
    exact hQ s' (hl ▸ hI)
  | cons x post ih =>
    intro pre s' hl hI
    rw [forEach, wp_bind]
    refine wp_mono (step pre x post s' hl hI) (fun _ s'' h => ?_) (fun _ _ h => h)
    exact ih (pre ++ [x]) s'' (by simpa using hl) h

end

/-! ## Guarantees -/

/-- every run of `m` relates the state it starts in to the state it ends in -/
def Guar (R : σ → σ → Prop) (m : Prog ε σ ρ α) : Prop :=
  ∀ e s, wp m (fun _ => R s) (fun _ => R s) e s

section
variable {R : σ → σ → Prop}

theorem Guar.pure (refl : ∀ s, R s s) (a : α) : Guar R (pure a : Prog ε σ ρ α) := fun _ s => refl s

theorem Guar.exit (refl : ∀ s, R s s) (r : ρ) : Guar R (exit r : Prog ε σ ρ α) := fun _ s => refl s

theorem Guar.get (refl : ∀ s, R s s) : Guar R (get : Prog ε σ ρ σ) := fun _ s => refl s

theorem Guar.ask (refl : ∀ s, R s s) : Guar R (ask : Prog ε σ ρ ε) := fun _ s => refl s

theorem Guar.modify {f : σ → σ} (h : ∀ s, R s (f s)) : Guar R (modify f : Prog ε σ ρ Unit) := fun _ s => h s

theorem Guar.bind (trans : ∀ s t u, R s t → R t u → R s u) {m : Prog ε σ ρ α} {f : α → Prog ε σ ρ β}
    (hm : Guar R m) (hf : ∀ a, Guar R (f a)) : Guar R (m >>= f) := by
  intro e s
  rw [wp_bind]
  refine wp_mono (hm e s) (fun a s' h => ?_) (fun _ _ h => h)
  exact wp_mono (hf a e s') (fun _ _ h' => trans _ _ _ h h') (fun _ _ h' => trans _ _ _ h h')

theorem Guar.ite {c : Prop} [Decidable c] {m n : Prog ε σ ρ α} (hm : Guar R m) (hn : Guar R n) :
    Guar R (if c then m else n) := by
  split_ifs
  · exact hm
  · exact hn

theorem Guar.when (refl : ∀ s, R s s) {c : Prop} [Decidable c] {m : Prog ε σ ρ Unit} (hm : Guar R m) :
    Guar R (when c m) := Guar.ite hm (Guar.pure refl ())

theorem Guar.call {m : Prog ε σ α α} (hm : Guar R m) : Guar R (call m : Prog ε σ ρ α) := fun e s =>
  (wp_call m).2 (hm e s)

end

/-! ## Guarantees with their own exit -/

/-- from a state in `I`, the block falls through to a state related by `R`, or returns as `X` says -/
def Ends (I : σ → Prop) (R : σ → σ → Prop) (X : σ → ρ → σ → Prop) (m : Prog ε σ ρ α) : Prop :=
  ∀ e s, I s → wp m (fun _ => R s) (X s) e s

/-- what makes two such blocks, one behind the other, such a block -/
structure Composes (I : σ → Prop) (R : σ → σ → Prop) (X : σ → ρ → σ → Prop) : Prop where
  refl : ∀ s, R s s
  trans : ∀ s t u, R s t → R t u → R s u
  keep : ∀ s t, I s → R s t → I t
  after : ∀ s t r u, R s t → X t r u → X s r u

section
variable {I : σ → Prop} {R : σ → σ → Prop} {X : σ → ρ → σ → Prop}

theorem Ends.pure (h : Composes I R X) (a : α) : Ends I R X (pure a : Prog ε σ ρ α) := fun _ s _ => h.refl s

theorem Ends.exit {r : ρ} (h : ∀ s, X s r s) : Ends I R X (exit r : Prog ε σ ρ α) := fun _ s _ => h s

theorem Ends.bind (h : Composes I R X) {m : Prog ε σ ρ α} {f : α → Prog ε σ ρ β} (hm : Ends I R X m)
    (hf : ∀ a, Ends I R X (f a)) : Ends I R X (m >>= f) := by
  intro e s hs
  rw [wp_bind]
  refine wp_mono (hm e s hs) (fun a t hst => ?_) (fun _ _ hx => hx)
  exact wp_mono (hf a e t (h.keep s t hs hst)) (fun _ u htu => h.trans s t u hst htu)
    (fun r u hx => h.after s t r u hst hx)

theorem Ends.ite {c : Prop} [Decidable c] {m n : Prog ε σ ρ α} (hm : Ends I R X m) (hn : Ends I R X n) :
    Ends I R X (if c then m else n) := by
  split_ifs
  · exact hm
  · exact hn

theorem Ends.when (h : Composes I R X) {c : Prop} [Decidable c] {m : Prog ε σ ρ Unit} (hm : Ends I R X m) :
    Ends I R X (when c m) := Ends.ite hm (Ends.pure h ())

theorem Ends.forEach (h : Composes I R X) {f : β → Prog ε σ ρ Unit} (hf : ∀ x, Ends I R X (f x)) (l : List β) :
    Ends I R X (forEach l f) := by
  induction l with
  | nil => exact Ends.pure h ()
  | cons x l ih => exact Ends.bind h (hf x) fun _ => ih

/-- a block that guarantees `R` either way -/
theorem Ends.of_guar {m : Prog ε σ ρ α} (hm : Guar R m) (hX : ∀ s r t, R s t → X s r t) : Ends I R X m := fun e s _ =>
  wp_mono (hm e s) (fun _ _ hst => hst) (fun _ _ hst => hX _ _ _ hst)

end

/-! ## Compositional properties -/

/-- a property of blocks that the statement formers keep -/
structure Compositional (K : ∀ {ρ α : Type}, Prog ε σ ρ α → Prop) : Prop where
  pure : ∀ {ρ α : Type} (a : α), K (pure a : Prog ε σ ρ α)
  exit : ∀ {ρ α : Type} (r : ρ), K (exit r : Prog ε σ ρ α)
  get : ∀ {ρ : Type}, K (get : Prog ε σ ρ σ)
  ask : ∀ {ρ : Type}, K (ask : Prog ε σ ρ ε)
  bind : ∀ {ρ α β : Type} {m : Prog ε σ ρ α} {f : α → Prog ε σ ρ β}, K m → (∀ a, K (f a)) → K (m >>= f)
  call : ∀ {ρ α : Type} {m : Prog ε σ α α}, K m → K (call m : Prog ε σ ρ α)

/-- the runs of `m` in the environment `e` relate the state they start in to the state they end in -/
def GuarIn (e : ε) (R : σ → σ → Prop) (m : Prog ε σ ρ α) : Prop := ∀ s, wp m (fun _ => R s) (fun _ => R s) e s

namespace Compositional

variable {K : ∀ {ρ α : Type}, Prog ε σ ρ α → Prop} {R : σ → σ → Prop}

theorem ite (_ : Compositional K) {c : Prop} [Decidable c] {m n : Prog ε σ ρ α} (hm : K m) (hn : K n) :
    K (if c then m else n) := by
  split_ifs
  · exact hm
  · exact hn

theorem when (h : Compositional K) {c : Prop} [Decidable c] {m : Prog ε σ ρ Unit} (hm : K m) : K (when c m) :=
  h.ite hm (h.pure ())

theorem forEach (h : Compositional K) {l : List β} {f : β → Prog ε σ ρ Unit} (hf : ∀ x ∈ l, K (f x)) :
    K (forEach l f) := by
  induction l with
  | nil => exact h.pure ()
  | cons x l ih =>
    obtain ⟨hx, hl⟩ := List.forall_mem_cons.1 hf
    exact h.bind hx fun _ => ih hl

theorem guarIn (e : ε) (refl : ∀ s, R s s) (trans : ∀ s t u, R s t → R t u → R s u) :
    Compositional (ε := ε) fun {_ _} => GuarIn e R where
  pure _ s := refl s
  exit _ s := refl s
  get s := refl s
  ask s := refl s
  bind hm hf s := by
    rw [wp_bind]
    refine wp_mono (hm s) (fun a t hst => ?_) (fun _ _ hst => hst)
    exact wp_mono (hf a t) (fun _ _ htu => trans _ _ _ hst htu) (fun _ _ htu => trans _ _ _ hst htu)
  call hm s := (wp_call _).2 (hm s)

theorem guar (refl : ∀ s, R s s) (trans : ∀ s t u, R s t → R t u → R s u) :
    Compositional (ε := ε) fun {_ _} => Guar R where
  pure := Guar.pure refl
  exit := Guar.exit refl
  get := Guar.get refl
  ask := Guar.ask refl
  bind := Guar.bind trans
  call := Guar.call

end Compositional

end Prog

end CorazaNginx.Core
