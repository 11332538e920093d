/-
What the engine is shown of the response header list, against what the client is sent.

An entry of the list is sent with its own value when its hash is non-zero. `Represents ps h`: among the pairs `ps`,
every live entry of the list has exactly one, with the entry's own value, and no deleted entry has one. The two passes
do not always achieve that: the resolvers of Server and Date do not look at the hash of the entry their slot points to,
and the one of Last-Modified submits the time nginx parsed, not the entry's bytes. `SlotsFaithful` is exactly the
condition under which they do (`response_headers_shown_iff`).
-/
import Mathlib.Tactic
import CorazaNginx.Response.HeaderOutcome
import CorazaNginx.Response.Run

namespace CorazaNginx

open CorazaNginx.Core Prog Handler

variable {e : Env} {s : St}

/-- the pairs that stand for the entry at address `i` -/
def ownPairs (ps : List HeaderPair) (i : ℕ) : List HeaderPair := ps.filter fun p => p.src = some i

/-- every live entry has exactly one pair, with its own value, and no deleted entry has one -/
def Represents (ps : List HeaderPair) (h : HeadersOut) : Prop :=
  ∀ i x, h.headers.toList[i]? = some x →
    if x.hash = 0 then ownPairs ps i = [] else ∃ name, ownPairs ps i = [⟨name, x.value, some i⟩]

/-- the slot points to the entry at address `i` and its resolver submits something -/
def HeadersOut.modifiedAt (h : HeadersOut) (i : ℕ) : Prop := h.lastModified = some i ∧ h.lastModifiedTime ≠ -1

/-- the condition on the dedicated slots: each points to a live entry, Last-Modified to one whose bytes are the time
nginx parsed, formatted, and no two of them point to the same entry -/
structure SlotsFaithful (time : ℤ → Bytes) (h : HeadersOut) : Prop where
  server : ∀ i, h.server = some i → (h.entry i).hash ≠ 0
  date : ∀ i, h.date = some i → (h.entry i).hash ≠ 0
  modified : ∀ i, h.modifiedAt i → (h.entry i).hash ≠ 0 ∧ (h.entry i).value = time h.lastModifiedTime
  serverDate : ∀ i, h.server = some i → h.date ≠ some i
  serverModified : ∀ i, h.server = some i → ¬ h.modifiedAt i
  dateModified : ∀ i, h.date = some i → ¬ h.modifiedAt i

/-- the slots point into the list -/
structure SlotsInList (h : HeadersOut) : Prop where
  server : ∀ i, h.server = some i → i < h.headers.toList.length
  date : ∀ i, h.date = some i → i < h.headers.toList.length
  lastModified : ∀ i, h.lastModified = some i → i < h.headers.toList.length

/-! ## Which pairs stand for an entry -/

@[simp] theorem ownPairs_nil (i : ℕ) : ownPairs [] i = [] := rfl

@[simp] theorem ownPairs_append (ps qs : List HeaderPair) (i : ℕ) :
    ownPairs (ps ++ qs) i = ownPairs ps i ++ ownPairs qs i := List.filter_append ..

@[simp] theorem ownPairs_cons (p : HeaderPair) (ps : List HeaderPair) (i : ℕ) :
    ownPairs (p :: ps) i = (if p.src = some i then [p] else []) ++ ownPairs ps i := by
  unfold ownPairs
  rw [List.filter_cons]
  split_ifs <;> simp_all

theorem ownPairs_server (r : Request) (i : ℕ) : ownPairs (serverPairs e r) i =
    if r.headersOut.server = some i then [⟨ascii "Server", (r.headersOut.entry i).value, some i⟩] else [] := by
  unfold serverPairs
  cases hs : r.headersOut.server with
  | none => simp
  | some j =>
    by_cases hj : j = i
    · simp [hj]
    · simp [hj]

theorem ownPairs_date (r : Request) (i : ℕ) : ownPairs (datePairs e r) i =
    if r.headersOut.date = some i then [⟨ascii "Date", (r.headersOut.entry i).value, some i⟩] else [] := by
  unfold datePairs
  cases hs : r.headersOut.date with
  | none => simp
  | some j =>
    by_cases hj : j = i
    · simp [hj]
    · simp [hj]

open Classical in
theorem ownPairs_lastModified (r : Request) (i : ℕ) : ownPairs (lastModifiedPairs e r) i =
    if r.headersOut.modifiedAt i then
      [⟨ascii "Last-Modified", e.httpTime r.headersOut.lastModifiedTime, some i⟩] else [] := by
  unfold lastModifiedPairs HeadersOut.modifiedAt
  by_cases ht : r.headersOut.lastModifiedTime = -1
  · simp [ht]
  · by_cases hi : r.headersOut.lastModified = some i
    · simp [ht, hi]
    · simp [ht, hi]

/-- a resolver that computes its value stands for no entry -/
theorem ownPairs_computed (r : Request) (i : ℕ) : ownPairs (contentLengthPairs e r) i = [] ∧
    ownPairs (contentTypePairs e r) i = [] ∧ ownPairs (connectionPairs e r) i = [] ∧
    ownPairs (transferEncodingPairs e r) i = [] ∧ ownPairs (varyPairs e r) i = [] := by
  refine ⟨?_, ?_, ?_, ?_, ?_⟩
  · unfold contentLengthPairs; split_ifs <;> simp
  · unfold contentTypePairs; split_ifs <;> simp
  · unfold connectionPairs keepalivePairs; split_ifs <;> simp
  · unfold transferEncodingPairs; split_ifs <;> simp
  · unfold varyPairs; split_ifs <;> simp

theorem entryPair_src {h : HeadersOut} {x : TableElt × ℕ} {p : HeaderPair} (hp : entryPair h x = some p) :
    p.src = some x.2 := by
  unfold entryPair at hp
  split_ifs at hp
  cases hp
  rfl

/-- the list pass: by induction on the list, `k` being the address it starts at -/
theorem ownPairs_entries (h : HeadersOut) (l : List TableElt) (k i : ℕ) :
    ownPairs ((l.zipIdx k).filterMap (entryPair h)) (k + i) =
      match l[i]? with
      | some x => (entryPair h (x, k + i)).toList
      | none => [] := by
  induction l generalizing k i with
  | nil => rfl
  | cons x l ih =>
    rw [List.zipIdx_cons, List.filterMap_cons]
    cases i with
    | zero =>
      -- the later entries have later addresses
      have hrest : ownPairs ((l.zipIdx (k + 1)).filterMap (entryPair h)) k = [] := by
        refine List.filter_eq_nil_iff.2 fun p hp hsrc => ?_
        obtain ⟨y, hy, hpy⟩ := List.mem_filterMap.1 hp
        have hk := entryPair_src hpy
        have hle := (List.mem_zipIdx hy).1
        rw [of_decide_eq_true hsrc, Option.some.injEq] at hk
        omega
      cases hx : entryPair h (x, k) with
      | none => simpa [hx] using hrest
      | some p => simp [hx, hrest, entryPair_src hx]
    | succ i =>
      have hrest := ih (k + 1) i
      rw [show k + 1 + i = k + (i + 1) by omega] at hrest
      cases hx : entryPair h (x, k) with
      | none => simpa using hrest
      | some p =>
        have hne : p.src ≠ some (k + (i + 1)) := by
          rw [entryPair_src hx]
          simp
        simpa [hne] using hrest

open Classical in
/-- **Who stands for an entry.** The three slots and the list pass, each with at most one pair. -/
theorem ownPairs_shown (r : Request) (i : ℕ) (x : TableElt) (hx : r.headersOut.headers.toList[i]? = some x) :
    ownPairs (shownPairs e r) i =
      (if r.headersOut.server = some i then [⟨ascii "Server", x.value, some i⟩] else []) ++
      (if r.headersOut.date = some i then [⟨ascii "Date", x.value, some i⟩] else []) ++
      (if r.headersOut.modifiedAt i then
        [⟨ascii "Last-Modified", e.httpTime r.headersOut.lastModifiedTime, some i⟩] else []) ++
      (if x.hash = 0 ∨ r.headersOut.server = some i ∨ r.headersOut.date = some i ∨ r.headersOut.modifiedAt i then []
        else [⟨x.key, x.value, some i⟩]) := by
  obtain ⟨hcl, hct, hconn, hte, hvary⟩ := ownPairs_computed (e := e) r i
  have hentry : r.headersOut.entry i = x := by
    rw [HeadersOut.entry, List.getD_eq_getElem?_getD, hx]
    rfl
  have hlist : ownPairs (listPairs r) i = (entryPair r.headersOut (x, i)).toList := by
    have := ownPairs_entries r.headersOut r.headersOut.headers.toList 0 i
    rw [Nat.zero_add, hx] at this
    exact this
  have hpair : (entryPair r.headersOut (x, i)).toList =
      if x.hash = 0 ∨ r.headersOut.server = some i ∨ r.headersOut.date = some i ∨ r.headersOut.modifiedAt i then []
      else [⟨x.key, x.value, some i⟩] := by
    unfold entryPair HeadersOut.taken HeadersOut.modifiedAt
    by_cases h0 : x.hash = 0
    · simp [h0]
    · by_cases h1 : r.headersOut.server = some i
      · simp [h0, h1]
      · by_cases h2 : r.headersOut.date = some i
        · simp [h0, h1, h2]
        · by_cases h3 : r.headersOut.lastModified = some i ∧ r.headersOut.lastModifiedTime ≠ -1
          · simp [h0, h1, h2, h3]
          · rw [if_neg h0, if_neg (by simpa [h1, h2] using h3), if_neg (by simpa [h0, h1, h2] using h3)]
            rfl
  simp only [shownPairs, resolvedPairs, List.flatMap_cons, List.flatMap_nil, ownPairs_append, hcl, hct, hconn,
    hte, hvary, ownPairs_server, ownPairs_date, ownPairs_lastModified, hlist, hpair, hentry, List.append_nil,
    List.nil_append, List.append_assoc]

/-! ## The exact condition -/

/-- one entry: it is represented iff the slots that point to it are in order -/
theorem entry_represented_iff (r : Request) (i : ℕ) (x : TableElt) (hx : r.headersOut.headers.toList[i]? = some x) :
    (if x.hash = 0 then ownPairs (shownPairs e r) i = []
      else ∃ name, ownPairs (shownPairs e r) i = [⟨name, x.value, some i⟩]) ↔
    (r.headersOut.server = some i → x.hash ≠ 0 ∧ r.headersOut.date ≠ some i ∧ ¬ r.headersOut.modifiedAt i) ∧
    (r.headersOut.date = some i → x.hash ≠ 0 ∧ ¬ r.headersOut.modifiedAt i) ∧
    (r.headersOut.modifiedAt i → x.hash ≠ 0 ∧ x.value = e.httpTime r.headersOut.lastModifiedTime) := by
  rw [ownPairs_shown r i x hx]
  by_cases h0 : x.hash = 0
  · by_cases h1 : r.headersOut.server = some i <;> by_cases h2 : r.headersOut.date = some i <;>
      by_cases h3 : r.headersOut.modifiedAt i <;> simp [h0, h1, h2, h3]
  · by_cases h1 : r.headersOut.server = some i <;> by_cases h2 : r.headersOut.date = some i <;>
      by_cases h3 : r.headersOut.modifiedAt i <;> simp [h0, h1, h2, h3, eq_comm (a := x.value)]

theorem getElem?_of_slot {h : HeadersOut} {i : ℕ} (hi : i < h.headers.toList.length) :
    h.headers.toList[i]? = some (h.entry i) := by
  rw [HeadersOut.entry, List.getD_eq_getElem?_getD, List.getElem?_eq_getElem hi]
  rfl

theorem represents_shown_iff (r : Request) (hslots : SlotsInList r.headersOut) :
    Represents (shownPairs e r) r.headersOut ↔ SlotsFaithful e.httpTime r.headersOut := by
  constructor
  · intro h
    -- what the entry a slot points to being represented says about the slots
    have at_ : ∀ i, i < r.headersOut.headers.toList.length → _ := fun i hi =>
      (entry_represented_iff r i _ (getElem?_of_slot hi)).1 (h i _ (getElem?_of_slot hi))
    refine ⟨fun i hs => ?_, fun i hd => ?_, fun i hm => ?_, fun i hs => ?_, fun i hs => ?_, fun i hd => ?_⟩
    · exact ((at_ i (hslots.server i hs)).1 hs).1
    · exact ((at_ i (hslots.date i hd)).2.1 hd).1
    · exact (at_ i (hslots.lastModified i hm.1)).2.2 hm
    · exact ((at_ i (hslots.server i hs)).1 hs).2.1
    · exact ((at_ i (hslots.server i hs)).1 hs).2.2
    · exact ((at_ i (hslots.date i hd)).2.1 hd).2
  · intro h i x hx
    have hentry : r.headersOut.entry i = x := by
      rw [HeadersOut.entry, List.getD_eq_getElem?_getD, hx]
      rfl
    refine (entry_represented_iff r i x hx).2 ⟨fun hs => ?_, fun hd => ?_, fun hm => ?_⟩
    · exact ⟨hentry ▸ h.server i hs, h.serverDate i hs, h.serverModified i hs⟩
    · exact ⟨hentry ▸ h.date i hd, h.dateModified i hd⟩
    · exact hentry ▸ h.modified i hm

/-! ## The filter -/

/-- the pairs the engine accepts in a call that evaluates phase 3 -/
theorem accepted_pairs (ht : s.ctx.interventionTriggered = false) (hp : s.ctx.processed = false) {evs : Trace}
    (htr : ((headerFilter : Handler ℤ ℤ).run e s).2.trace = s.trace ++ evs) (h3 : ∃ ev ∈ evs, ev.isPhase3 = true) :
    evs.pairs = shownPairs e s.r := by
  have ho := headerFilter_outcome (e := e) ht hp
  generalize ((headerFilter : Handler ℤ ℤ).run e s).2 = t at htr ho
  cases ho with
  | broken evs' c plain dirty =>
    have : evs = evs' := List.append_cancel_left (htr.symm.trans rfl)
    subst this
    obtain ⟨ev, hev, hphase⟩ := h3
    rw [Event.isPhase3_of_plain (plain ev hev)] at hphase
    cases hphase
  | dispatched evs' p ret v _ upTo poll out =>
    obtain ⟨evs1, h1, hp1⟩ := poll.trace_pairs
    obtain ⟨evs2, h2, hp2⟩ := out.trace_pairs
    have : evs = evs' ++ (evs1 ++ evs2) := by
      refine List.append_cancel_left (htr.symm.trans ?_)
      rw [h2, h1, St.phase3_trace, List.append_assoc, List.append_assoc]
    rw [this, Trace.pairs_append, Trace.pairs_append, hp1, hp2, upTo.pairs, List.append_nil, List.append_nil]

/-- **The WAF sees the list the client gets, exactly when the slots are in order.** In every call of the header filter
that evaluates phase 3, each live entry of the header list is represented by exactly one accepted pair with its own
value, and no deleted entry by any, if and only if `SlotsFaithful` holds of the dedicated slots. -/
theorem response_headers_shown_iff (e : Env) (s : St) (evs : Trace) (ht : s.ctx.interventionTriggered = false)
    (hp : s.ctx.processed = false) (hslots : SlotsInList s.r.headersOut)
    (htr : ((headerFilter : Handler ℤ ℤ).run e s).2.trace = s.trace ++ evs) (h3 : ∃ ev ∈ evs, ev.isPhase3 = true) :
    Represents evs.pairs s.r.headersOut ↔ SlotsFaithful e.httpTime s.r.headersOut := by
  rw [accepted_pairs ht hp htr h3]
  exact represents_shown_iff s.r hslots

/-- an environment in which nothing fails, that formats the one time below as nginx does -/
def modifiedEnv : Env := { Env.calm (.fill 0) with
  httpTime := fun t => if t = 784111777 then ascii "Sun, 06 Nov 1994 08:49:37 GMT" else [] }

/-- a proxied response with one Last-Modified entry, which nginx has parsed -/
def modifiedState (value : Bytes) : St :=
  let h : HeadersOut :=
    { headers := .single [⟨1, ascii "Last-Modified", value⟩], lastModified := some 0, lastModifiedTime := 784111777 }
  { r := { headersOut := h }, ctx := {} }

/-- a response whose Server entry another module has deleted -/
def deletedServerState : St :=
  { r := { headersOut := { headers := .single [⟨0, ascii "Server", ascii "origin"⟩], server := some 0 } }, ctx := {} }

/-- the pairs the engine accepts when the filter runs on a fresh context -/
def pairsShown (s : St) : List HeaderPair := ((headerFilter : Handler ℤ ℤ).run modifiedEnv s).2.trace.pairs

/-- **A date in another spelling is not shown, and a deleted Server is.** The origin sends the same time in the older
of the two spellings nginx parses: the engine gets the newer one, the client the origin's bytes. -/
theorem respelled_or_deleted_not_represented :
    (SlotsInList (modifiedState (ascii "Sunday, 06-Nov-94 08:49:37 GMT")).r.headersOut ∧
      ¬ Represents (pairsShown (modifiedState (ascii "Sunday, 06-Nov-94 08:49:37 GMT")))
        (modifiedState (ascii "Sunday, 06-Nov-94 08:49:37 GMT")).r.headersOut) ∧
    SlotsInList deletedServerState.r.headersOut ∧
      ¬ Represents (pairsShown deletedServerState) deletedServerState.r.headersOut := by
  refine ⟨⟨⟨nofun, nofun, fun i h => ?_⟩, fun h => ?_⟩, ⟨fun i h => ?_, nofun, nofun⟩, fun h => ?_⟩
  · cases h; exact Nat.zero_lt_one
  · obtain ⟨name, hname⟩ := h 0 _ rfl
    have hval := congrArg (List.map HeaderPair.value) hname
    have hne : (ownPairs (pairsShown (modifiedState (ascii "Sunday, 06-Nov-94 08:49:37 GMT"))) 0).map
        HeaderPair.value ≠ [ascii "Sunday, 06-Nov-94 08:49:37 GMT"] := by decide +kernel
    exact hne hval
  · cases h; exact Nat.zero_lt_one
  · have hne : ownPairs (pairsShown deletedServerState) 0 ≠ [] := by decide +kernel
    exact hne (h 0 _ rfl)

theorem newer_spelling_represented : Represents (pairsShown (modifiedState (ascii "Sun, 06 Nov 1994 08:49:37 GMT")))
    (modifiedState (ascii "Sun, 06 Nov 1994 08:49:37 GMT")).r.headersOut := by
  set s := modifiedState (ascii "Sun, 06 Nov 1994 08:49:37 GMT")
  have hslots : SlotsInList s.r.headersOut := by
    refine ⟨nofun, nofun, fun i h => ?_⟩
    cases h
    exact Nat.zero_lt_one
  have hfaithful : SlotsFaithful modifiedEnv.httpTime s.r.headersOut := by
    refine ⟨nofun, nofun, fun i h => ?_, nofun, nofun, nofun⟩
    cases h.1
    decide +kernel
  exact (response_headers_shown_iff modifiedEnv s _ rfl rfl hslots (List.nil_append _).symm
    (by decide +kernel)).2 hfaithful
end CorazaNginx
