/-
A worker serves many requests at once.

nginx runs one handler at a time, and between two handlers of a request those of any others may run. A schedule says
what happens: a step with a request, or the destruction of its pool, after which nothing happens to it (`Schedule`). The
engine is one for all requests; it gives each transaction a handle that no other has.
- `requests_isolated`: in the worker's record every handle is used by the request it was given to and by no other, what
  the worker calls on it is what that request calls on it, and nothing is called on a handle that is NULL or was freed;
- `transactions_disposed`: of every request that has ended, each transaction has been freed exactly once, as its last
  call.
-/
import Mathlib.Tactic
import CorazaNginx.Core.Interleave
import CorazaNginx.Lifecycle.Disposal

namespace CorazaNginx

open CorazaNginx.Core Prog

variable {ι : Type} [DecidableEq ι] {e : Env} {w : World} {evs : Trace}

/-! ## Model -/

/-- what happens to one of the worker's requests -/
inductive Act where
  | step (s : Step)
  /-- its pool is destroyed -/
  | finish (e : Env)

def World.act (w : World) : Act → World
  | .step s => w.next s
  | .finish e => w.destroyed e

def Act.GivesFresh : Act → Prop
  | .step s => s.GivesFresh
  | .finish _ => True

/-- the handles of the request's transactions -/
def World.given (w : World) : List ℕ := w.trace.handles.filter (· ≠ 0)

theorem World.mem_given {h : ℕ} : h ∈ w.given ↔ h ∈ w.trace.handles ∧ h ≠ 0 := by
  rw [World.given, List.mem_filter, decide_eq_true_eq]

/-- the worker's requests behind a schedule -/
def serve (mainWaf : ℕ) (r : ι → Request) (sched : List (ι × Act)) : ι → World :=
  runAll World.act (fun i => World.start (r i) mainWaf) sched

/-- all that the worker has done, each event with its request -/
def workerRecord (mainWaf : ℕ) (r : ι → Request) (sched : List (ι × Act)) : List (ι × Event) :=
  record World.act World.trace (fun i => World.start (r i) mainWaf) sched

/-- nothing happens to a request that has ended, and the engine gives each transaction of the worker a handle of its
own -/
structure Schedule (mainWaf : ℕ) (r : ι → Request) (sched : List (ι × Act)) : Prop where
  ends : ∀ i, Each (fun pre _ => ∀ e, Act.finish e ∉ pre) (own i sched)
  fresh : ∀ x ∈ sched, x.2.GivesFresh
  new : FreshAlong World.act World.given (fun i => World.start (r i) mainWaf) sched

/-! ## One request -/

theorem destroyed_extends (w : World) (e : Env) : w.trace <+: (w.destroyed e).trace := by
  have hcleanup : ∀ a, Guar (fun w w' : World => w.trace <+: w'.trace) (Hook.cleanup a : Hook Unit Unit) := by
    intro a e w
    rw [Hook.cleanup, Hook.wp_onCtx, wp_bind, wp_get, wp_bind]
    refine (wp_when _ _).2 ⟨fun _ => ?_, fun _ => List.prefix_append _ _⟩
    exact (List.prefix_append _ _).trans (List.prefix_append _ _)
  have hkeeps := Compositional.guar (ε := Env) (R := fun w w' : World => w.trace <+: w'.trace)
    (fun _ => List.prefix_refl _) fun _ _ _ h h' => h.trans h'
  exact run_state (P := fun w' : World => w.trace <+: w'.trace) (hkeeps.forEach (fun a _ => hcleanup a) e w)

theorem act_extends (w : World) (a : Act) : w.trace <+: (w.act a).trace := by
  cases a with
  | step s => exact next_extends w s
  | finish e => exact destroyed_extends w e

/-- a request's own part of the schedule: its steps, and perhaps its end -/
theorem steps_of_ends {l : List Act} (h : Each (fun pre _ => ∀ e, Act.finish e ∉ pre) l) :
    ∃ steps : List Step, l = steps.map .step ∨ ∃ e, l = steps.map .step ++ [.finish e] := by
  induction l using List.reverseRecOn with
  | nil => exact ⟨[], Or.inl rfl⟩
  | append_singleton l a ih =>
    obtain ⟨hbefore, hnone⟩ := each_concat.1 h
    obtain ⟨steps, rfl | ⟨e, rfl⟩⟩ := ih hbefore
    · cases a with
      | step s => exact ⟨steps ++ [s], Or.inl (by simp)⟩
      | finish e => exact ⟨steps, Or.inr ⟨e, rfl⟩⟩
    · exact absurd (List.mem_append_right _ (List.mem_singleton_self _)) (hnone e)

theorem foldl_steps (w : World) (steps : List Step) : (steps.map Act.step).foldl World.act w = w.run steps := by
  rw [List.foldl_map]
  rfl

/-- the cleanups work on the contexts they are for -/
theorem Closed.uses {l : List ℕ} (hc : Closed w l evs) {ev : Event} (hev : ev ∈ evs) {h : ℕ} (hu : ev.Uses h) :
    ∃ a ∈ l, w.handle a = h := by
  induction hc with
  | nil => exact absurd hev List.not_mem_nil
  | frees a l rc rest _ _ ih =>
    rcases List.mem_cons.1 hev with rfl | hev
    · exact ⟨a, List.mem_cons_self, hu⟩
    · obtain ⟨b, hb, heq⟩ := ih hev
      exact ⟨b, List.mem_cons_of_mem _ hb, heq⟩
  | logs a l lrc rc rest _ _ ih =>
    rcases List.mem_cons.1 hev with rfl | hev
    · exact ⟨a, List.mem_cons_self, hu⟩
    · rcases List.mem_cons.1 hev with rfl | hev
      · exact ⟨a, List.mem_cons_self, hu⟩
      · obtain ⟨b, hb, heq⟩ := ih hev
        exact ⟨b, List.mem_cons_of_mem _ hb, heq⟩

/-- up to its end, a request uses only handles it was given -/
theorem Ledger.known_destroyed (h : Ledger w) (e : Env) : ∀ ev ∈ (w.destroyed e).trace, ∀ x, ev.Uses x →
    x = 0 ∨ x ∈ (w.destroyed e).trace.handles := by
  obtain ⟨-, evs, htr, hclosed⟩ := destroyed_closed h.nodup e
  intro ev hev x hx
  rw [htr] at hev
  rw [htr, Trace.handles_append]
  rcases List.mem_append.1 hev with hev | hev
  · exact (h.known ev hev x hx).imp_right fun hin => List.mem_append_left _ hin
  · obtain ⟨a, ha, rfl⟩ := hclosed.uses hev hx
    exact Or.inr (List.mem_append_left _ (h.given a ha).2)

section
variable {mainWaf : ℕ} {r : ι → Request} {sched : List (ι × Act)}

/-- a request of the worker is one that nginx has taken through the handlers, and perhaps through its end -/
theorem Schedule.request (hs : Schedule mainWaf r sched) (i : ι) :
    ∃ steps : List Step, (∀ step ∈ steps, step.GivesFresh) ∧
    ((∀ e, Act.finish e ∉ own i sched) ∧ serve mainWaf r sched i = (World.start (r i) mainWaf).run steps ∨
      ∃ e, serve mainWaf r sched i = ((World.start (r i) mainWaf).run steps).destroyed e) := by
  have hfresh : ∀ a ∈ own i sched, a.GivesFresh := fun a ha => hs.fresh (i, a) (mem_own.1 ha)
  have hworld : serve mainWaf r sched i = (own i sched).foldl World.act (World.start (r i) mainWaf) :=
    runAll_apply sched i
  obtain ⟨steps, hown | ⟨e, hown⟩⟩ := steps_of_ends (hs.ends i)
  · refine ⟨steps, fun step hstep => ?_, Or.inl ⟨fun e he => ?_, ?_⟩⟩
    · exact hfresh (.step step) (by rw [hown]; exact List.mem_map_of_mem hstep)
    · rw [hown] at he
      obtain ⟨s, -, hne⟩ := List.mem_map.1 he
      cases hne
    · rw [hworld, hown, foldl_steps]
  · refine ⟨steps, fun step hstep => ?_, Or.inr ⟨e, ?_⟩⟩
    · exact hfresh (.step step) (by rw [hown]; exact List.mem_append_left _ (List.mem_map_of_mem hstep))
    · rw [hworld, hown, List.foldl_append, foldl_steps]
      rfl

/-- a request's part of the record is its trace -/
theorem own_workerRecord (mainWaf : ℕ) (r : ι → Request) (sched : List (ι × Act)) (i : ι) :
    own i (workerRecord mainWaf r sched) = (serve mainWaf r sched i).trace :=
  own_record (f := fun i => World.start (r i) mainWaf) act_extends sched i

/-- what a request uses it was given -/
theorem Schedule.known (hs : Schedule mainWaf r sched) (i : ι) {ev : Event} (hev : ev ∈ (serve mainWaf r sched i).trace)
    {h : ℕ} (h0 : h ≠ 0) (hu : ev.Uses h) : h ∈ (serve mainWaf r sched i).given := by
  obtain ⟨steps, hfresh, ⟨-, hworld⟩ | ⟨e, hworld⟩⟩ := hs.request i
  · have hl := (Ledger.start (r i) mainWaf).run hfresh
    rw [hworld] at hev ⊢
    exact World.mem_given.2 ⟨(hl.known ev hev h hu).resolve_left h0, h0⟩
  · have hl := (Ledger.start (r i) mainWaf).run hfresh
    rw [hworld] at hev ⊢
    exact World.mem_given.2 ⟨(hl.known_destroyed e ev hev h hu).resolve_left h0, h0⟩

/-- no two requests are given the same handle -/
theorem Schedule.disjoint (hs : Schedule mainWaf r sched) {i j : ι} {h : ℕ} (hi : h ∈ (serve mainWaf r sched i).given)
    (hj : h ∈ (serve mainWaf r sched j).given) : i = j :=
  disjoint_runAll (fun _ => rfl) hs.new i j h hi hj

/-- what the others have done, up to any time, has nothing to do with a handle of this request -/
theorem Schedule.calls_own (hs : Schedule mainWaf r sched) {i : ι} {h : ℕ} (hi : h ∈ (serve mainWaf r sched i).given)
    {pre : List (ι × Event)} (hpre : pre ⊆ workerRecord mainWaf r sched) :
    Trace.calls h (pre.map Prod.snd) = Trace.calls h (own i pre) := by
  refine filterMap_own fun j hj ev hev => ?_
  have hin : ev ∈ (serve mainWaf r sched j).trace := by
    rw [← own_workerRecord]
    exact mem_own.2 (hpre (mem_own.1 hev))
  have hunused : ¬ ev.Uses h := fun hu => hj (hs.disjoint (hs.known j hin (World.mem_given.1 hi).2 hu) hi)
  cases ev with
  | poll => rfl
  | call c rc =>
    cases c with
    | engine tx c => exact if_neg hunused
    | _ => rfl

/-! ## The worker -/

/-- what the worker has done with its transactions -/
structure Isolated (f : ι → World) (rec : List (ι × Event)) : Prop where
  /-- a handle is used by the request it was given to, and was given to no other -/
  owner : ∀ x ∈ rec, ∀ h, h ≠ 0 → x.2.Uses h → h ∈ (f x.1).given ∧ ∀ i, h ∈ (f i).given → i = x.1
  /-- the worker calls on it what that request calls -/
  calls : ∀ i h, h ∈ (f i).given → Trace.calls h (rec.map Prod.snd) = (f i).trace.calls h
  /-- where the pool takes every cleanup, nothing is called on a handle that is NULL or was freed -/
  live : (∀ i, (i, .call .cleanupAdd 0) ∉ rec) → Trace.Live (rec.map Prod.snd)

/-- **Isolation.** However nginx interleaves the handlers of a worker's requests, each transaction belongs to one of
them: it alone uses it, so the worker's calls on it are that request's, and no call meets a dead handle. -/
theorem requests_isolated (mainWaf : ℕ) (r : ι → Request) (sched : List (ι × Act)) (hs : Schedule mainWaf r sched) :
    Isolated (serve mainWaf r sched) (workerRecord mainWaf r sched) := by
  have htrace : ∀ {i ev}, (i, ev) ∈ workerRecord mainWaf r sched → ev ∈ (serve mainWaf r sched i).trace := by
    intro i ev hin
    rw [← own_workerRecord]
    exact mem_own.2 hin
  refine ⟨fun x hx h h0 hu => ?_, fun i h hi => ?_, fun hno => ?_⟩
  · have hgiven := hs.known x.1 (htrace hx) h0 hu
    exact ⟨hgiven, fun i hi => hs.disjoint hi hgiven⟩
  · rw [hs.calls_own hi (List.Subset.refl _), own_workerRecord]
  · -- each event is live in its own request, and so it is behind what the others have done
    have hlive : ∀ i, (serve mainWaf r sched i).trace.Live := by
      intro i
      have hno' : .call .cleanupAdd 0 ∉ (serve mainWaf r sched i).trace := by
        rw [← own_workerRecord]
        exact fun hin => hno i (mem_own.1 hin)
      obtain ⟨steps, hfresh, ⟨-, hworld⟩ | ⟨e, hworld⟩⟩ := hs.request i
      · rw [hworld] at hno' ⊢
        exact ((Alive.start (r i) mainWaf).run hfresh hno').live
      · rw [hworld] at hno' ⊢
        exact ((Alive.start (r i) mainWaf).run hfresh fun hin => hno' ((destroyed_extends _ e).subset hin)).destroyed e
    intro pre ev post heq tx hu
    obtain ⟨pre', rest, hrec, rfl, hrest⟩ := List.map_eq_append_iff.1 heq
    obtain ⟨⟨i, ev'⟩, post', rfl, rfl, -⟩ := List.map_eq_cons_iff.1 hrest
    have hpre : own i (workerRecord mainWaf r sched) = own i pre' ++ ev' :: own i post' := by
      rw [hrec, own_append]
      change own i pre' ++ own i ([(i, ev')] ++ post') = _
      rw [own_append, own_self, List.singleton_append]
    obtain ⟨h0, hfree⟩ := hlive i (own i pre') ev' (own i post') (by rw [← own_workerRecord, hpre]) tx hu
    have hin : ev' ∈ (serve mainWaf r sched i).trace := by
      rw [← own_workerRecord, hpre]
      simp
    refine ⟨h0, ?_⟩
    rw [hs.calls_own (hs.known i hin h0 hu) (by rw [hrec]; exact List.subset_append_left _ _)]
    exact hfree

/-- the engine, when it has given its first handles to others -/
def Env.countingOn : Env :=
  { Env.counting with
    ret := fun t call => match call with
      | .newTransaction .. => (t.handles.sum + 100 : ℕ)
      | call => Env.counting.ret t call }

theorem Env.countingOn_fresh : FreshHandles Env.countingOn := by
  intro t waf id _ hin
  have hle : t.handles.sum + 100 ≤ t.handles.sum := List.le_sum_of_mem hin
  omega

/-- two requests, handler by handler, the first of which ends while the second is being served -/
def twoRequests : List (Bool × Act) :=
  [(false, .step (.call .rewrite .counting {})), (true, .step (.call .rewrite .countingOn {})),
    (false, .step (.call .header .counting {})), (false, .finish .counting),
    (true, .step (.call .log .countingOn {})), (true, .finish .countingOn)]

theorem twoRequests_schedule : Schedule 7 (fun _ => {}) twoRequests := by
  refine ⟨fun i => ?_, ?_, ?_⟩
  · cases i <;> simp [twoRequests, own, each_cons, each_nil]
  · simp only [twoRequests, List.forall_mem_cons, List.not_mem_nil, false_imp_iff, implies_true, and_true]
    exact ⟨Env.counting_fresh, Env.countingOn_fresh, Env.counting_fresh, trivial, Env.countingOn_fresh, trivial⟩
  · rw [twoRequests, FreshAlong]
    simp only [each_cons, each_nil, and_true]
    decide +kernel

theorem twoRequests_isolated :
    Isolated (serve 7 (fun _ => {}) twoRequests) (workerRecord 7 (fun _ => {}) twoRequests) :=
  requests_isolated 7 (fun _ => {}) twoRequests twoRequests_schedule

/-- **Disposal.** However nginx interleaves them, when a request has ended the worker has freed each transaction that
was made for it exactly once, as the last call on it: after it was logged once, or at once, where the pool had no room
for its cleanup. -/
theorem transactions_disposed (mainWaf : ℕ) (r : ι → Request) (sched : List (ι × Act))
    (hs : Schedule mainWaf r sched) (i : ι) (hended : ∃ e, Act.finish e ∈ own i sched) :
    ∀ h, h ∈ (serve mainWaf r sched i).given →
      Disposed ((workerRecord mainWaf r sched).map Prod.snd) h ∧
        (Trace.calls h ((workerRecord mainWaf r sched).map Prod.snd)).count .freeTransaction = 1 := by
  intro h hi
  have hdisposed : Disposed (serve mainWaf r sched i).trace h := by
    obtain ⟨steps, hfresh, ⟨hno, -⟩ | ⟨e, hworld⟩⟩ := hs.request i
    · obtain ⟨e, he⟩ := hended
      exact absurd he (hno e)
    · have hl := (Ledger.start (r i) mainWaf).run hfresh
      have hh := (Held.start (r i) mainWaf).run (Ledger.start (r i) mainWaf) hfresh
      rw [hworld] at hi ⊢
      exact hh.disposed hl e h (World.mem_given.1 hi).1 (World.mem_given.1 hi).2
  have hcalls : Trace.calls h ((workerRecord mainWaf r sched).map Prod.snd) =
      (serve mainWaf r sched i).trace.calls h := by
    rw [hs.calls_own hi (List.Subset.refl _), own_workerRecord]
  have hall : Disposed ((workerRecord mainWaf r sched).map Prod.snd) h := by
    refine hdisposed.imp (fun hlogged => by rwa [hcalls]) fun hback => ⟨by rw [hcalls]; exact hback.calls, ?_⟩
    have hin := hback.refused
    rw [← own_workerRecord] at hin
    exact List.mem_map.2 ⟨_, mem_own.1 hin, rfl⟩
  exact ⟨hall, hall.freed_once⟩

theorem twoRequests_disposed :
    (Trace.calls 100 ((workerRecord 7 (fun _ : Bool => {}) twoRequests).map Prod.snd)).count .freeTransaction = 1 :=
  (transactions_disposed 7 (fun _ => {}) twoRequests twoRequests_schedule true ⟨.countingOn,
  by simp [twoRequests, own]⟩ 100
    (by decide +kernel)).2

end

end CorazaNginx
