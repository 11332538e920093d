/-
The entity headers of a redirect.

`prepareRedirect` takes a response down to a body-less redirect: it resets the fields the header filters write entity
headers from and deletes the entries the dedicated slots point to. The client is sent the list, not the slots. A slot
holds one entry at most, and there is none for Content-Type, so a second ETag or an entry another module pushed is left
where it is: `redirect_advertises_iff` says that the response handed on by either caller is free of entity headers
exactly when every live one was in a slot.
-/
import Mathlib.Tactic
import CorazaNginx.Redirect

namespace CorazaNginx

open CorazaNginx.Core Prog Handler

variable {e : Env} {s : St}

/-! ## Entity headers -/

/-- the headers that describe a representation, in lower case -/
def entityNames : List Bytes :=
  [ascii "content-length", ascii "content-type", ascii "content-encoding", ascii "last-modified", ascii "etag",
    ascii "accept-ranges"]

/-- a live entry with one of these names -/
def TableElt.isLiveEntity (x : TableElt) : Bool := x.hash ≠ 0 && entityNames.contains (x.key.map lower)

/-- a response without entity headers, in its fields, its slots and its list -/
structure HeadersOut.EntityFree (h : HeadersOut) : Prop where
  contentLength : h.contentLengthN = -1
  contentType : h.contentType = []
  lastModified : h.lastModifiedTime = -1
  slots : h.entitySlots = []
  list : ∀ x ∈ h.headers.toList, x.isLiveEntity = false

/-- the addresses of the live entity headers -/
def HeadersOut.liveEntities (h : HeadersOut) : List ℕ :=
  (List.range h.headers.toList.length).filter fun i => (h.headers.toList[i]?).any TableElt.isLiveEntity

/-- every live entity header of the list is one a slot points to -/
def HeadersOut.EntityInSlots (h : HeadersOut) : Prop := ∀ i ∈ h.liveEntities, i ∈ h.entitySlots

instance (h : HeadersOut) : Decidable h.EntityInSlots :=
  inferInstanceAs (Decidable (∀ i ∈ h.liveEntities, i ∈ h.entitySlots))

theorem mem_liveEntities {h : HeadersOut} {i : ℕ} :
    i ∈ h.liveEntities ↔ ∃ x, h.headers.toList[i]? = some x ∧ x.isLiveEntity = true := by
  rw [HeadersOut.liveEntities, List.mem_filter, List.mem_range, Option.any_eq_true]
  constructor
  · rintro ⟨-, hx⟩
    exact hx
  · rintro ⟨x, hi, hx⟩
    exact ⟨(List.getElem?_eq_some_iff.1 hi).1, x, hi, hx⟩

theorem isLiveEntity_deleted (x : TableElt) : TableElt.isLiveEntity { x with hash := 0 } = false := by
  simp [TableElt.isLiveEntity]

/-! ## Deleting through slots -/

/-- no entry of a kind is left when the slots are deleted exactly when every one of them was in a slot -/
theorem kill_clears_iff (slots : List ℕ) (l : List TableElt) (P : TableElt → Bool)
    (hP : ∀ x : TableElt, P { x with hash := 0 } = false) :
    (∀ x ∈ kill slots l, P x = false) ↔ ∀ i x, l[i]? = some x → P x = true → i ∈ slots := by
  constructor
  · intro h i x hi hx
    by_contra hin
    have hleft : (kill slots l)[i]? = some x := by rw [kill_getElem?, hi, Option.map_some, if_neg hin]
    have hgone := h x (List.mem_of_getElem? hleft)
    rw [hx] at hgone
    cases hgone
  · intro h x hx
    obtain ⟨i, hi⟩ := List.mem_iff_getElem?.1 hx
    rw [kill_getElem?] at hi
    obtain ⟨y, hy, heq⟩ := Option.map_eq_some_iff.1 hi
    subst heq
    split_ifs with hin
    · exact hP y
    · rw [← Bool.not_eq_true]
      intro hyP
      exact hin (h i y hy hyP)

/-- **The prepared response.** -/
theorem prepareRedirect_entityFree_iff (r : Request) (status : ℤ) :
    (prepareRedirect r status).headersOut.EntityFree ↔ r.headersOut.EntityInSlots := by
  have hlist := kill_clears_iff r.headersOut.entitySlots r.headersOut.headers.toList TableElt.isLiveEntity
    isLiveEntity_deleted
  constructor
  · intro h i hi
    obtain ⟨x, hx, hlive⟩ := mem_liveEntities.1 hi
    have hfree := h.list
    rw [prepareRedirect_headers] at hfree
    exact hlist.1 hfree i x hx hlive
  · intro h
    refine ⟨rfl, rfl, rfl, rfl, ?_⟩
    rw [prepareRedirect_headers]
    apply hlist.2
    intro i x hi hx
    exact h i (mem_liveEntities.2 ⟨x, hi, hx⟩)

/-! ## The two callers -/

/-- the function that prepares a redirect and hands it on: the end of the header filter after the phase 3 poll, or the
end of a body filter call that a phase 4 interruption stopped -/
inductive RedirectCaller where
  | phase3
  | phase4

namespace RedirectCaller

/-- the caller's code, with the status it redirects with -/
def run (c : RedirectCaller) (status : ℤ) (e : Env) (s : St) : St :=
  match c with
  | .phase3 => ((call do dispatchHeaders status; return ngxOk : Handler ℤ ℤ).run e s).2
  | .phase4 => ((bodyFilterFinalize status : Handler ℤ ℤ).run e s).2

/-- the caller's guards for a redirect of its own -/
def Due (c : RedirectCaller) (status : ℤ) (s : St) : Prop :=
  isRedirectStatus status = true ∧ s.r.headersOut.location.isSome = true ∧
    match c with
    | .phase3 => s.r.errorPage = false
    | .phase4 => s.ctx.headersDelayed = true

end RedirectCaller

theorem isRedirectStatus_pos {status : ℤ} (h : isRedirectStatus status = true) : 0 < status := by
  simp only [isRedirectStatus, Bool.or_eq_true, decide_eq_true_eq] at h
  rcases h with (((h | h) | h) | h) | h <;> rw [h] <;> decide

/-- from `s` to `t` one thing happened: the redirect prepared from the response of `s` was handed on -/
def RedirectSent (status : ℤ) (s t : St) : Prop :=
  ∃ rc, t.trace = s.trace ++ [.call (.nextHeader (prepareRedirect s.r status).headersOut true) rc]

theorem dispatchHeaders_redirects {status : ℤ} (h : RedirectCaller.phase3.Due status s) :
    RedirectSent status s (RedirectCaller.phase3.run status e s) := by
  obtain ⟨hcode, hloc, hep⟩ := h
  have hpos := isRedirectStatus_pos hcode
  apply run_state
  rw [wp_call, wp_bind]
  apply dispatchHeaders_spec
  intro rc t ht
  cases ht with
  | yielded rc' hep' => exact absurd (hep.symm.trans hep') (by decide)
  | redirected rc' => exact ⟨rc', St.forwarded_trace _⟩
  | finalized rc' _ _ hno => exact absurd ⟨hcode, hloc⟩ hno
  | delayed _ hnon => exact absurd hpos (not_lt.2 hnon)
  | forwarded rc' _ hnon => exact absurd hpos (not_lt.2 hnon)

theorem bodyFilterFinalize_redirects {status : ℤ} (h : RedirectCaller.phase4.Due status s) :
    RedirectSent status s (RedirectCaller.phase4.run status e s) := by
  obtain ⟨hcode, hloc, hd⟩ := h
  apply run_state
  apply bodyFilterFinalize_spec
  intro rc t ht
  cases ht with
  | redirect rc' => exact ⟨rc', rfl⟩
  | finalize rc' hno => exact absurd ⟨hd, hcode, hloc⟩ hno

/-- **No entity header.** Whoever prepares the redirect, the one response it hands on is free of entity headers exactly
when every live entity header of the origin's list was one a slot pointed to. -/
theorem redirect_advertises_iff (c : RedirectCaller) (status : ℤ) (e : Env) (s : St) (h : c.Due status s) :
    ∃ hdr rc, (c.run status e s).trace = s.trace ++ [.call (.nextHeader hdr true) rc] ∧
      (hdr.EntityFree ↔ s.r.headersOut.EntityInSlots) := by
  have hsent : RedirectSent status s (c.run status e s) := by
    cases c with
    | phase3 => exact dispatchHeaders_redirects h
    | phase4 => exact bodyFilterFinalize_redirects h
  obtain ⟨rc, htr⟩ := hsent
  exact ⟨_, rc, htr, prepareRedirect_entityFree_iff s.r status⟩

/-- a delayed response with these ETags and the Location of a redirect behind them; the slot has the last ETag -/
def etagState (etags : List Bytes) : St where
  r := { headersOut := {
    headers := .single (etags.map (fun v => ⟨1, ascii "ETag", v⟩) ++ [⟨1, ascii "Location", ascii "/x"⟩])
    etag := some (etags.length - 1)
    location := some etags.length } }
  ctx := { headersDelayed := true }

theorem one_etag_cleared : ∃ hdr rc, (RedirectCaller.phase4.run 302 (Env.calm (.fill 1)) (etagState [[1]])).trace =
    [.call (.nextHeader hdr true) rc] ∧ hdr.EntityFree := by
  have hdue : RedirectCaller.phase4.Due 302 (etagState [[1]]) := ⟨rfl, rfl, rfl⟩
  obtain ⟨hdr, rc, htr, hiff⟩ := redirect_advertises_iff .phase4 302 (Env.calm (.fill 1)) (etagState [[1]]) hdue
  exact ⟨hdr, rc, htr, hiff.2 (by decide +kernel)⟩

/-- **A second ETag.** Either caller sends the first of two on with the redirect. -/
theorem second_etag_advertised : [RedirectCaller.phase3, .phase4].Forall fun c => c.Due 302 (etagState [[1], [2]]) ∧
    ∃ hdr rc, (c.run 302 (Env.calm (.fill 1)) (etagState [[1], [2]])).trace = [.call (.nextHeader hdr true) rc] ∧
      ⟨1, ascii "ETag", [1]⟩ ∈ hdr.headers.toList ∧ ¬ hdr.EntityFree := by
  rw [List.forall_iff_forall_mem]
  intro c _
  have hdue : c.Due 302 (etagState [[1], [2]]) := by cases c <;> exact ⟨rfl, rfl, rfl⟩
  have hsent : (c.run 302 (Env.calm (.fill 1)) (etagState [[1], [2]])).trace =
      [.call (.nextHeader (prepareRedirect (etagState [[1], [2]]).r 302).headersOut true) 0] := by
    cases c <;> decide +kernel
  have hin : (⟨1, ascii "ETag", [1]⟩ : TableElt) ∈
      (prepareRedirect (etagState [[1], [2]]).r 302).headersOut.headers.toList := by decide +kernel
  have hlive : TableElt.isLiveEntity ⟨1, ascii "ETag", [1]⟩ = true := by decide +kernel
  refine ⟨hdue, _, 0, hsent, hin, ?_⟩
  intro hfree
  rw [hfree.list _ hin] at hlive
  cases hlive

/-! ## A whole call -/

theorem installed_liveEntities {h : HeadersOut} {iv : Intervention} {data : Bytes}
    (hd : redirectTarget iv = some data) : (h.installed iv).EntityInSlots ↔ h.EntityInSlots := by
  obtain ⟨hlist, -, hent⟩ := installed_headers h hd
  have hname : entityNames.contains ((ascii "Location").map lower) = false := by decide +kernel
  have hnew : TableElt.isLiveEntity ⟨1, ascii "Location", safeLocation data⟩ = false := by
    rw [TableElt.isLiveEntity, Bool.and_eq_false_iff]
    exact Or.inr hname
  have hmem : ∀ i, i ∈ (h.installed iv).liveEntities ↔ i ∈ h.liveEntities := by
    intro i
    rw [mem_liveEntities, mem_liveEntities, hlist]
    constructor
    · rintro ⟨x, hi, hx⟩
      rcases lt_or_ge i h.headers.toList.length with hlt | hge
      · rw [List.getElem?_append_left hlt] at hi
        exact ⟨x, hi, hx⟩
      · rw [List.getElem?_append_right hge] at hi
        rw [List.mem_singleton.1 (List.mem_of_getElem? hi), hnew] at hx
        cases hx
    · rintro ⟨x, hi, hx⟩
      refine ⟨x, ?_, hx⟩
      rw [List.getElem?_append_left (List.getElem?_eq_some_iff.1 hi).1]
      exact hi
  simp only [HeadersOut.EntityInSlots, hmem, hent]

/-- **An enforced redirect.** In a whole call of either filter that a redirect interruption stops, everything handed on
is free of entity headers under the same condition on the response the call started with. -/
theorem redirect_call_advertises_iff (site : Site) (inn : List Buf) (tx : ℕ) (iv : Intervention) (data : Bytes)
    (hsite : site.Redirects s) (hep : s.r.errorPage = false) (hcode : isRedirectStatus iv.status = true)
    (hdata : iv.data = some data) (hmem : .poll tx false (some iv) ∈ site.events inn e s)
    (halloc : ∀ ev ∈ site.events inn e s, ev.allocFailed = false) :
    (∀ h only rc, .call (.nextHeader h only) rc ∈ site.events inn e s → h.EntityFree) ↔
      s.r.headersOut.EntityInSlots := by
  obtain ⟨r, rc, hr, hin, honly⟩ := hsite.hands hep hcode hdata hmem halloc
  rw [← installed_liveEntities (redirectTarget_of hcode hdata), ← hr, ← prepareRedirect_entityFree_iff r iv.status]
  constructor
  · intro hall
    exact hall _ _ _ hin
  · intro hfree h only rc' hin'
    rw [honly h only rc' hin']
    exact hfree

end CorazaNginx
