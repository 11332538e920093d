/-
The Location of a redirect the engine asks for.

`processIntervention` pushes a Location entry and points `headers_out.location` at it (`HeadersOut.installed`),
`prepareRedirect` takes the entity headers off the response, and one of the two filters forwards what is left. Neither
looks for a Location the response already has: `one_location_iff` says, for both filters, that the forwarded list
carries the engine's Location alone exactly when the response had no live Location that is not taken off with the entity
headers.
-/
import Mathlib.Tactic
import Mathlib.Data.List.TakeWhile
import CorazaNginx.Enforcement

namespace CorazaNginx

open CorazaNginx.Core Prog Handler

variable {e : Env} {s t : St}

/-! ## The value -/

/-- a byte a Location may contain -/
def safeByte (c : UInt8) : Bool := 0x20 ≤ c && c ≠ 0x7f

/-- the longest prefix of `data` without a byte below 0x20 and without 0x7f -/
structure LongestSafePrefix (data value : Bytes) : Prop where
  isPrefix : value <+: data
  safe : ∀ c ∈ value, safeByte c = true
  longest : ∀ p, p <+: data → (∀ c ∈ p, safeByte c = true) → p.length ≤ value.length

theorem length_le_takeWhile {α : Type} (P : α → Bool) (p l : List α) (h : p <+: l) (hp : ∀ x ∈ p, P x = true) :
    p.length ≤ (l.takeWhile P).length := by
  obtain ⟨m, rfl⟩ := h
  rw [List.takeWhile_append_of_pos hp, List.length_append]
  exact Nat.le_add_right _ _

/-- what is installed is that prefix -/
theorem safeLocation_longest (data : Bytes) : LongestSafePrefix data (safeLocation data) where
  isPrefix := List.takeWhile_prefix _
  safe := fun _ hc => List.mem_takeWhile_imp hc
  longest := fun p hp hs => length_le_takeWhile _ p data hp hs

/-! ## The list -/

/-- a live entry named Location -/
def TableElt.isLiveLocation (x : TableElt) : Bool := x.hash ≠ 0 && x.key.map lower = ascii "location"

/-- the addresses of the live entries named Location -/
def HeadersOut.liveLocations (h : HeadersOut) : List ℕ :=
  (List.range h.headers.toList.length).filter fun i => (h.headers.toList[i]?).any TableElt.isLiveLocation

/-- the entries that the entity slots point to -/
def HeadersOut.entitySlots (h : HeadersOut) : List ℕ :=
  h.contentLength.toList ++ h.lastModified.toList ++ h.contentEncoding.toList ++ h.etag.toList ++ h.acceptRanges.toList

/-- the entity slots point into the list -/
def HeadersOut.SlotsInRange (h : HeadersOut) : Prop := ∀ i ∈ h.entitySlots, i < h.headers.toList.length

instance (h : HeadersOut) : Decidable h.SlotsInRange :=
  inferInstanceAs (Decidable (∀ i ∈ h.entitySlots, i < h.headers.toList.length))

/-- every live Location of the response goes with an entity slot -/
def HeadersOut.NoLocationLeft (h : HeadersOut) : Prop := ∀ i ∈ h.liveLocations, i ∈ h.entitySlots

instance (h : HeadersOut) : Decidable h.NoLocationLeft :=
  inferInstanceAs (Decidable (∀ i ∈ h.liveLocations, i ∈ h.entitySlots))

/-- exactly one live Location, in the slot, with the value the interruption's data allows -/
def OneLocation (h : HeadersOut) (data : Bytes) : Prop :=
  ∃ i x, h.liveLocations = [i] ∧ h.location = some i ∧ h.headers.toList[i]? = some x ∧ LongestSafePrefix data x.value

/-- delete the entries at these addresses -/
def kill (slots : List ℕ) (l : List TableElt) : List TableElt :=
  slots.foldl (fun l i => l.modify i fun x => { x with hash := 0 }) l

theorem kill_append (a b : List ℕ) (l : List TableElt) : kill (a ++ b) l = kill b (kill a l) := List.foldl_append

/-- an entry of the list once the slots have been deleted: by induction on the slots -/
theorem kill_getElem? (slots : List ℕ) (l : List TableElt) (i : ℕ) :
    (kill slots l)[i]? = l[i]?.map fun x => if i ∈ slots then { x with hash := 0 } else x := by
  induction slots generalizing l with
  | nil => simp [kill]
  | cons j slots ih =>
    rw [kill, List.foldl_cons, ← kill, ih, List.getElem?_modify]
    by_cases hj : j = i
    · subst hj
      cases l[j]? with
      | none => rfl
      | some x =>
        by_cases hin : j ∈ slots <;> simp [hin]
    · have hmem : i ∈ j :: slots ↔ i ∈ slots := by simp [Ne.symm hj]
      simp [hj, hmem]

theorem kill_length (slots : List ℕ) (l : List TableElt) : (kill slots l).length = l.length := by
  induction slots generalizing l with
  | nil => rfl
  | cons j slots ih => rw [kill, List.foldl_cons, ← kill, ih, List.length_modify]

theorem unlink_toList (h : HeadersOut) (slot : Option ℕ) :
    (h.unlink slot).toList = kill slot.toList h.headers.toList := by
  cases slot <;> simp [HeadersOut.unlink, kill]

/-- what `prepareRedirect` leaves of the list: the entity slots deleted -/
theorem prepareRedirect_headers (r : Request) (status : ℤ) :
    (prepareRedirect r status).headersOut.headers.toList =
    kill r.headersOut.entitySlots r.headersOut.headers.toList := by
  simp only [prepareRedirect, unlink_toList, HeadersOut.entitySlots, kill_append]

theorem prepareRedirect_location (r : Request) (status : ℤ) :
    (prepareRedirect r status).headersOut.location = r.headersOut.location := rfl

/-- the list with a Location installed -/
theorem installed_headers (h : HeadersOut) {iv : Intervention} {data : Bytes} (hd : redirectTarget iv = some data) :
    (h.installed iv).headers.toList = h.headers.toList ++ [⟨1, ascii "Location", safeLocation data⟩] ∧
      (h.installed iv).location = some h.headers.toList.length ∧ (h.installed iv).entitySlots = h.entitySlots := by
  unfold HeadersOut.installed
  rw [hd]
  refine ⟨?_, rfl, rfl⟩
  simp [HeadersOut.setLocation, HeadersOut.pushLocation, Parts.modify_append]

/-- the live Locations of a prepared redirect: what is left of the response's own, and the engine's -/
theorem redirect_liveLocations (r : Request) (status : ℤ) (o : HeadersOut) {iv : Intervention} {data : Bytes}
    (hd : redirectTarget iv = some data) (hr : r.headersOut = o.installed iv) (hslots : o.SlotsInRange) :
    (prepareRedirect r status).headersOut.liveLocations =
      (o.liveLocations.filter fun i => i ∉ o.entitySlots) ++ [o.headers.toList.length] := by
  obtain ⟨hlist, -, hent⟩ := installed_headers o hd
  have hnew : o.headers.toList.length ∉ o.entitySlots := fun hin => lt_irrefl _ (hslots _ hin)
  have hlen : (prepareRedirect r status).headersOut.headers.toList.length = o.headers.toList.length + 1 := by
    rw [prepareRedirect_headers, kill_length, hr, hlist, List.length_append]
    rfl
  -- an entry is live when it was and its slot is not deleted
  have hlive : ∀ i, ((prepareRedirect r status).headersOut.headers.toList[i]?).any TableElt.isLiveLocation =
      (decide (i ∉ o.entitySlots) &&
        ((o.headers.toList ++ [⟨1, ascii "Location", safeLocation data⟩])[i]?).any TableElt.isLiveLocation) := by
    intro i
    rw [prepareRedirect_headers, kill_getElem?, hr, hlist, hent]
    cases (o.headers.toList ++ [⟨1, ascii "Location", safeLocation data⟩])[i]? with
    | none => simp
    | some x => by_cases hin : i ∈ o.entitySlots <;> simp [hin, TableElt.isLiveLocation]
  rw [HeadersOut.liveLocations, hlen, List.range_succ, List.filter_append]
  congr 1
  · rw [HeadersOut.liveLocations, List.filter_filter]
    refine List.filter_congr fun i hi => ?_
    have hlt : i < o.headers.toList.length := List.mem_range.1 hi
    rw [hlive, List.getElem?_append_left hlt]
  · have hloc : TableElt.isLiveLocation ⟨1, ascii "Location", safeLocation data⟩ = true := rfl
    rw [List.filter_singleton, hlive, List.getElem?_append_right le_rfl]
    simp [hnew, hloc]

/-- **The list.** A prepared redirect carries the engine's Location alone exactly when the response has none left. -/
theorem redirect_oneLocation_iff (r : Request) (status : ℤ) (o : HeadersOut) {iv : Intervention} {data : Bytes}
    (hd : redirectTarget iv = some data) (hr : r.headersOut = o.installed iv) (hslots : o.SlotsInRange) :
    OneLocation (prepareRedirect r status).headersOut data ↔ o.NoLocationLeft := by
  obtain ⟨hlist, hloc, hent⟩ := installed_headers o hd
  have hlive := redirect_liveLocations r status o hd hr hslots
  have hnew : o.headers.toList.length ∉ o.entitySlots := fun hin => lt_irrefl _ (hslots _ hin)
  have hleft : o.NoLocationLeft ↔ (o.liveLocations.filter fun i => i ∉ o.entitySlots) = [] := by
    rw [List.filter_eq_nil_iff]
    refine forall₂_congr fun i _ => ?_
    simp
  rw [hleft]
  constructor
  · rintro ⟨i, x, hone, -⟩
    rw [hlive] at hone
    have hlen := congrArg List.length hone
    simp only [List.length_append, List.length_singleton] at hlen
    exact List.length_eq_zero_iff.1 (by omega)
  · intro hnil
    refine ⟨o.headers.toList.length, ⟨1, ascii "Location", safeLocation data⟩, ?_, ?_, ?_, safeLocation_longest data⟩
    · rw [hlive, hnil, List.nil_append]
    · rw [prepareRedirect_location, hr, hloc]
    · rw [prepareRedirect_headers, kill_getElem?, hr, hlist, hent, List.getElem?_append_right le_rfl]
      simp [hnew]

/-! ## The two filters -/

/-- an allocation that failed -/
def Event.allocFailed : Event → Bool
  | .call (.alloc _) rc => rc = 0
  | _ => false

theorem clean_of_aux {evs : Trace} (haux : ∀ ev ∈ evs, ev.isAux = true)
    (halloc : ∀ ev ∈ evs, ev.allocFailed = false) : evs.Clean := by
  intro ev hev
  have ha := haux ev hev
  cases ev with
  | poll => cases ha
  | call c rc =>
    cases c with
    | engine tx c => cases c <;> first | rfl | cases ha
    | alloc n => exact halloc _ hev
    | _ => first | rfl | cases ha

/-- an interruption that redirects: the code returned is its status -/
theorem interventionRc_of_redirect {iv : Intervention} (hcode : isRedirectStatus iv.status = true) :
    iv.status ≠ 200 ∧ interventionRc false (some iv) = iv.status ∧ 0 < iv.status := by
  have hpos : 0 < iv.status ∧ iv.status ≠ 200 := by
    simp only [isRedirectStatus, Bool.or_eq_true, decide_eq_true_eq] at hcode
    rcases hcode with (((h | h) | h) | h) | h <;> rw [h] <;> exact ⟨by decide, by decide⟩
  exact ⟨hpos.2, interventionRc_unsent hpos.2, hpos.1⟩

/-- the redirect target of such an interruption is its data -/
theorem redirectTarget_of {iv : Intervention} {data : Bytes} (hcode : isRedirectStatus iv.status = true)
    (hd : iv.data = some data) : redirectTarget iv = some data := by
  rw [redirectTarget, if_pos hcode, hd]

/-- the call hands exactly one set of headers on, that of a redirect prepared from the response with the Location of
`iv` installed -/
def HandsRedirect (evs : Trace) (o : HeadersOut) (iv : Intervention) : Prop :=
  ∃ (r : Request) (rc : ℤ), r.headersOut = o.installed iv ∧
    .call (.nextHeader (prepareRedirect r iv.status).headersOut true) rc ∈ evs ∧
    ∀ h only rc', .call (.nextHeader h only) rc' ∈ evs → h = (prepareRedirect r iv.status).headersOut

/-- the only headers behind a quiet stretch are those of the event that ended it -/
theorem handsRedirect_of {evs : Trace} {o : HeadersOut} {iv : Intervention} {r : Request} {rc : ℤ} (hq : evs.Quiet)
    (hr : r.headersOut = o.installed iv) :
    HandsRedirect (evs ++ [.call (.nextHeader (prepareRedirect r iv.status).headersOut true) rc]) o iv := by
  refine ⟨r, rc, hr, by simp, fun h only rc' hin => ?_⟩
  have heq := List.mem_singleton.1 (header_mem_of_quiet hq hin)
  injection heq with heq
  injection heq

theorem bodyFilter_handsRedirect {inn : List Buf} {tx : ℕ} {iv : Intervention} {data : Bytes}
    (hep : s.r.errorPage = false) (hd : s.ctx.headersDelayed = true) (hcode : isRedirectStatus iv.status = true)
    (hdata : iv.data = some data) (hmem : .poll tx false (some iv) ∈ Site.bodyFilter.events inn e s)
    (halloc : ∀ ev ∈ Site.bodyFilter.events inn e s, ev.allocFailed = false) :
    HandsRedirect (Site.bodyFilter.events inn e s) s.r.headersOut iv := by
  obtain ⟨h200, hrc, hpos⟩ := interventionRc_of_redirect hcode
  have hne : interventionRc false (some iv) ≠ 0 := by omega
  unfold Site.events at hmem halloc ⊢
  simp only [Site.run] at hmem halloc ⊢
  rcases bodyFilter_clean_or_blocked (e := e) inn hep with ⟨evs, htr, hclean⟩ | ⟨m, status, hm, hx⟩
  · rw [drop_of_trace htr] at hmem
    exact absurd hmem (not_mem_of_clean hclean hne)
  generalize ((bodyFilter inn : Handler ℤ ℤ).run e s).2 = t at hmem halloc hx ⊢
  obtain ⟨evs, hevs, href, hacc⟩ := hm.trace
  obtain ⟨last, hlast, hend⟩ := hx.trace
  rw [hevs, St.setInn_trace, List.append_assoc] at hlast
  rw [drop_of_trace hlast] at hmem halloc ⊢
  have hin : Event.poll tx false (some iv) ∈ evs := by
    rcases List.mem_append.1 hmem with hin | hin
    · exact hin
    · have heq := List.mem_singleton.1 hin
      rw [← heq] at hend
      cases hend
  have hint : Event.interrupts (.poll tx false (some iv)) = true := by simpa [Event.interrupts] using hne
  -- the poll is the one the response was ended for
  have hstatus : status = iv.status ∧ m.r.headersOut = s.r.headersOut.installed iv := by
    generalize m.r.headersOut = h' at hacc ⊢
    cases hacc with
    | internal evs silent => exact absurd ((silent _ hin).symm.trans hint) (by decide)
    | polled pre post tx' iv' h' clean aux hrc' inst =>
      have heq : Event.poll tx false (some iv) = .poll tx' (s.setInn inn).r.headerSent iv' := by
        rcases List.mem_append.1 hin with hin | hin
        · exact absurd ((clean.silent _ hin).symm.trans hint) (by decide)
        · rcases List.mem_cons.1 hin with heq | hin
          · exact heq
          · have hax := aux _ hin
            cases hax
      injection heq with _ hsent hiv
      refine ⟨?_, inst iv hiv.symm h200 hsent.symm ?_⟩
      · rw [← hsent, ← hiv, hrc, blockStatus, if_pos hpos]
      · exact clean_of_aux aux fun ev hev => halloc ev (by simp [hev])
  obtain ⟨rfl, hm'⟩ := hstatus
  have hloc : m.r.headersOut.location.isSome = true := by
    rw [hm', (installed_headers _ (redirectTarget_of hcode hdata)).2.1]
    rfl
  have hdm : m.ctx.headersDelayed = true := by rw [hm.delayed]; exact hd
  cases hx with
  | redirect rc =>
    have heq : last = .call (.nextHeader (prepareRedirect m.r iv.status).headersOut true) rc := by
      have h1 : m.trace ++ [_] = s.trace ++ (evs ++ [last]) := hlast
      rw [hevs, St.setInn_trace, List.append_assoc] at h1
      have h2 := List.append_cancel_left (List.append_cancel_left h1)
      exact (List.singleton_inj.1 h2).symm
    rw [heq]
    exact handsRedirect_of href.quiet hm'
  | finalize rc hno => exact absurd ⟨hdm, hcode, hloc⟩ hno

theorem headerFilter_handsRedirect {inn : List Buf} {tx : ℕ} {iv : Intervention} {data : Bytes}
    (hep : s.r.errorPage = false) (hcode : isRedirectStatus iv.status = true) (hdata : iv.data = some data)
    (hmem : .poll tx false (some iv) ∈ Site.headerFilter.events inn e s)
    (halloc : ∀ ev ∈ Site.headerFilter.events inn e s, ev.allocFailed = false) :
    HandsRedirect (Site.headerFilter.events inn e s) s.r.headersOut iv := by
  obtain ⟨h200, hrc, hpos⟩ := interventionRc_of_redirect hcode
  unfold Site.events at hmem halloc ⊢
  simp only [Site.run] at hmem halloc ⊢
  by_cases hpass : s.ctx.interventionTriggered = true ∨ s.ctx.processed = true
  · rw [headerFilter_passive hpass, drop_of_trace (St.forwarded_trace _), List.mem_singleton] at hmem
    cases hmem
  rw [not_or, Bool.not_eq_true, Bool.not_eq_true] at hpass
  have ho := headerFilter_outcome (e := e) hpass.1 hpass.2
  generalize ((headerFilter : Handler ℤ ℤ).run e s).2 = t at hmem halloc ho ⊢
  cases ho with
  | broken evs c plain dirty =>
    rw [St.setCtx_trace, St.logs_trace, List.drop_left] at hmem
    have hp := plain _ hmem
    cases hp
  | dispatched evs p ret v _ upTo poll out =>
    obtain ⟨evs3, h3, hp3⟩ := out.trace_noPoll
    cases poll with
    | skipped ret failed =>
      -- no poll was made
      rw [drop_of_trace (by rw [h3, St.phase3_trace, List.append_assoc])] at hmem
      rcases List.mem_append.1 hmem with hin | hin
      · have hno := upTo.noPoll _ hin
        cases hno
      · have hno := hp3 _ hin
        cases hno
    | polled evs2 h aux zero sound inst =>
      have hevents : t.trace.drop s.trace.length = evs ++ (pollEvent e (s.phase3 evs p) :: evs2) ++ evs3 := by
        refine drop_of_trace ?_
        rw [h3, St.polled_trace, St.phase3_trace, List.append_assoc, List.append_assoc, List.append_assoc]
      rw [hevents] at hmem halloc ⊢
      -- the poll is the one the response was ended for
      have heq : Event.poll tx false (some iv) = pollEvent e (s.phase3 evs p) := by
        rcases List.mem_append.1 hmem with hin | hin
        · rcases List.mem_append.1 hin with hin | hin
          · have hno := upTo.noPoll _ hin
            cases hno
          · rcases List.mem_cons.1 hin with heq | hin
            · exact heq
            · have hax := aux _ hin
              cases hax
        · have hno := hp3 _ hin
          cases hno
      injection heq with _ hsent hiv
      have hclean : evs2.Clean := clean_of_aux aux fun ev hev => halloc ev (by simp [hev])
      have hh : h = s.r.headersOut.installed iv := inst iv hiv.symm h200 hsent.symm hclean
      have hret : interventionRc (s.phase3 evs p).r.headerSent (e.intervention (s.phase3 evs p).trace) = iv.status := by
        rw [← hsent, ← hiv, hrc]
      have hq : Trace.Quiet (evs ++ (pollEvent e (s.phase3 evs p) :: evs2)) := by
        refine Trace.quiet_append.2 ⟨upTo.quiet, fun ev hev => ?_⟩
        rcases List.mem_cons.1 hev with rfl | hev
        · rfl
        · exact Event.isOutput_of_aux (aux ev hev)
      rw [hret] at out
      cases out with
      | yielded rc hep' => exact absurd (hep.symm.trans hep') (by decide)
      | redirected rc _ _ _ =>
        obtain rfl := trace_cancel h3 (St.forwarded_trace _)
        exact handsRedirect_of hq hh
      | finalized rc _ _ hno =>
        refine absurd ⟨hcode, ?_⟩ hno
        rw [St.polled_r]
        change h.location.isSome = true
        rw [hh, (installed_headers _ (redirectTarget_of hcode hdata)).2.1]
        rfl
      | delayed _ hnon _ => exact absurd hpos (not_lt.2 hnon)
      | forwarded rc _ hnon _ => exact absurd hpos (not_lt.2 hnon)

/-! ## Every response -/

/-- where a redirect interruption is raised: in phase 3, or in phase 4 while the headers are delayed -/
def Site.Redirects (site : Site) (s : St) : Prop :=
  match site with
  | .headerFilter => True
  | .bodyFilter => s.ctx.headersDelayed = true
  | _ => False

theorem Site.Redirects.hands {site : Site} {inn : List Buf} {tx : ℕ} {iv : Intervention} {data : Bytes}
    (hsite : site.Redirects s) (hep : s.r.errorPage = false) (hcode : isRedirectStatus iv.status = true)
    (hdata : iv.data = some data) (hmem : .poll tx false (some iv) ∈ site.events inn e s)
    (halloc : ∀ ev ∈ site.events inn e s, ev.allocFailed = false) :
    HandsRedirect (site.events inn e s) s.r.headersOut iv := by
  cases site with
  | rewrite => exact hsite.elim
  | preAccess => exact hsite.elim
  | headerFilter => exact headerFilter_handsRedirect hep hcode hdata hmem halloc
  | bodyFilter => exact bodyFilter_handsRedirect hep hsite hcode hdata hmem halloc

/-- the call hands headers on, and all that it hands carry the engine's Location alone -/
def Site.RedirectsAlone (site : Site) (inn : List Buf) (e : Env) (s : St) (data : Bytes) : Prop :=
  (∃ h only rc, .call (.nextHeader h only) rc ∈ site.events inn e s) ∧
    ∀ h only rc, .call (.nextHeader h only) rc ∈ site.events inn e s → OneLocation h data

/-- **One Location.** A redirect interruption goes out with its own Location and no other exactly when the response has
no live Location but those the entity slots point to. -/
theorem one_location_iff (site : Site) (inn : List Buf) (e : Env) (s : St) (tx : ℕ) (iv : Intervention) (data : Bytes)
    (hsite : site.Redirects s) (hep : s.r.errorPage = false) (hslots : s.r.headersOut.SlotsInRange)
    (hcode : isRedirectStatus iv.status = true) (hdata : iv.data = some data)
    (hmem : .poll tx false (some iv) ∈ site.events inn e s)
    (halloc : ∀ ev ∈ site.events inn e s, ev.allocFailed = false) :
    site.RedirectsAlone inn e s data ↔ s.r.headersOut.NoLocationLeft := by
  obtain ⟨r, rc, hr, hin, honly⟩ := hsite.hands hep hcode hdata hmem halloc
  rw [← redirect_oneLocation_iff r iv.status s.r.headersOut (redirectTarget_of hcode hdata) hr hslots]
  constructor
  · rintro ⟨-, hall⟩
    exact hall _ _ _ hin
  · intro hone
    refine ⟨⟨_, _, _, hin⟩, fun h only rc' hin' => ?_⟩
    rw [honly h only rc' hin']
    exact hone

/-- a redirect to /x, with bytes behind it that a Location may not contain -/
def redirectIv : Intervention := ⟨302, some (ascii "/x\r\nY")⟩

/-- an engine that redirects in phase 3 -/
def redirectingEnv : Env := { Env.calm (.fill 1) with
  intervention := fun _ => some redirectIv
  ret := fun t call => match call with
    | .engine _ (.processResponseHeaders ..) => 1
    | _ => (Env.calm (.fill 1)).ret t call }

/-- a response with one live header -/
def oneHeaderState (name : String) : St where
  r := { headersOut := { headers := .single [⟨1, ascii name, ascii "/other"⟩] } }
  ctx := {}

theorem one_location_without_origin :
    Site.headerFilter.RedirectsAlone [] redirectingEnv (oneHeaderState "Server") (ascii "/x\r\nY") :=
  (one_location_iff .headerFilter [] redirectingEnv (oneHeaderState "Server") 0 redirectIv _ trivial rfl
    (by decide +kernel) rfl rfl (by decide +kernel) (by decide +kernel)).2 (by decide +kernel)

/-- **Two Locations.** The origin's own goes out beside the engine's. -/
theorem two_locations :
    .poll 0 false (some redirectIv) ∈ Site.headerFilter.events [] redirectingEnv (oneHeaderState "Location") ∧
      (∀ ev ∈ Site.headerFilter.events [] redirectingEnv (oneHeaderState "Location"), ev.allocFailed = false) ∧
      ¬ Site.headerFilter.RedirectsAlone [] redirectingEnv (oneHeaderState "Location") (ascii "/x\r\nY") := by
  refine ⟨by decide +kernel, by decide +kernel, ?_⟩
  rintro ⟨-, hall⟩
  set r := (oneHeaderState "Location").r
  set h := (prepareRedirect (r.setHeadersOut (r.headersOut.installed redirectIv)) 302).headersOut
  have hlast : (Site.headerFilter.events [] redirectingEnv (oneHeaderState "Location")).getLast? =
      some (.call (.nextHeader h true) 0) := by decide +kernel
  obtain ⟨i, x, hone, -⟩ := hall h true 0 (List.mem_of_getLast? hlast)
  have htwo : h.liveLocations = [0, 1] := by decide +kernel
  rw [htwo] at hone
  cases hone

end CorazaNginx
