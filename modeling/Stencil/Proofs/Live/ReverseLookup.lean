import Stencil.Proofs.Live.Reachable
import Stencil.Proofs.Live.Room

/-! # Points and their elements, back and forth

What `Registry.locate` finds is reported by `Registry.reverseLocate`, with the index that was asked
for. And what `reverseLocate` reports is exactly what the paths of the points lead to.
-/
namespace Stencil

namespace Live
namespace Selector
variable {s : Selector} {indices : List Nat}

theorem index?_getLast? {keys : List String} (h : keys.map s.index? = indices.map some) :
    some (indices.getLast?.getD 0) =
      match keys.getLast? with
      | none => some 0
      | some key => s.index? key := by
  have hlast := congrArg List.getLast? h
  rw [List.getLast?_map, List.getLast?_map] at hlast
  cases hk : keys.getLast? with
  | none =>
    rw [hk] at hlast
    rw [Option.map_eq_none_iff.1 hlast.symm]
    rfl
  | some key =>
    rw [hk] at hlast
    obtain ⟨i, hi, hindex⟩ := Option.map_eq_some_iff.1 hlast.symm
    rw [hi]
    exact hindex

end Selector

namespace Document
variable {d : Document} {root target a : Handle} {chain : List Handle} {n : Nat}
  {path : Path} {indices : List Nat}

/-- The chain down to a node holds the nodes above it, each at its level. -/
theorem getElem?_chain (hf : d.Forest) (h : d.ancestorChain? root target = some chain) :
    chain[n]? = some a ↔ d.Below root n a ∧ d.Within a target := by
  obtain ⟨hc, hhead, hlast⟩ := ancestorChain?_sound h
  obtain ⟨rest, rfl⟩ := List.head?_eq_some_iff.1 hhead
  have below_target {x : Handle} {m : Nat} (hm : (root :: rest)[m]? = some x) :
      d.Below x (rest.length - m) target := by
    obtain ⟨hlt, rfl⟩ := List.getElem?_eq_some_iff.1 hm
    have hdrop := List.drop_eq_getElem_cons hlt
    have hchain := hc.drop m
    rw [hdrop] at hchain
    refine below_of_isChain hchain ?_
    rw [← hdrop, List.getElem?_drop, ← hlast, List.getLast?_eq_getElem?, List.length_cons]
    congr 1
    rw [List.length_cons] at hlt
    omega
  constructor
  · intro hn
    exact ⟨below_of_isChain hc hn, (below_target hn).within⟩
  · rintro ⟨ha, m, hm⟩
    have hlevel := (below_target (m := 0) rfl).level_unique hf (ha.trans hm)
    have hlt : n < (root :: rest).length := by
      rw [List.length_cons]
      omega
    have hn : (root :: rest)[n]? = some (root :: rest)[n] := List.getElem?_eq_getElem hlt
    rw [hn]
    have hsame := below_target hn
    rw [show rest.length - n = m by omega] at hsame
    exact congrArg some (hsame.top_unique hm)

theorem Within.lt_size (hf : d.Forest) (h : d.Within root target) (hne : target ≠ root) :
    target < d.size := by
  obtain ⟨n, hn⟩ := h
  cases n with
  | zero =>
    cases hn
    exact absurd rfl hne
  | succ n => exact hn.lt_size hf

theorem text_of_not_isElement (hlt : target < d.size) (h : ¬ d.isElement target) :
    ∃ s, d.get? target = some (.text s) := by
  unfold Document.isElement at h
  cases hg : d.get? target with
  | none => exact absurd hlt (Nat.not_lt_of_le (get?_eq_none_iff.1 hg))
  | some content =>
    cases content with
    | text s => exact ⟨s, rfl⟩
    | element tag attributes children =>
      rw [hg] at h
      exact absurd rfl h

theorem Leads.isElement (hf : d.Forest) (h : d.Leads path indices root a) :
    a = root ∨ d.isElement a := by
  have step {id child a : Handle} {position : Nat}
      (taken : (d.elementChildren id)[position]? = some child) (hrest : a = child ∨ d.isElement a) :
      d.isElement a := by
    rcases hrest with rfl | h
    · exact ((mem_elementChildren hf).1 (List.mem_of_getElem? taken)).2
    · exact h
  induction h with
  | here id => exact .inl rfl
  | fixed _ _ taken _ ih => exact .inr (step taken ih)
  | repeated _ taken _ ih => exact .inr (step taken ih)

end Document
end Live

namespace Registry
open Live Document
variable {r : Registry} {d : Document} {root target e : Handle} {name p : String} {D : Descriptor}
  {entry : PointEntry} {loc : Location} {steps : List Step}

/-- The entry of a point in the table of a template. -/
def point? (r : Registry) (name point : String) : Option PointEntry :=
  (r.get? name).bind (·.table.point? point)

/-! ## Downwards -/

section Downwards
variable {s : Selector} {front : Path} {key : String} {base trailing i : Nat} {parent : Handle}

theorem locate_of_point? (hentry : r.point? name s.point = some entry) (d : Document)
    (root : Handle) : r.locate d root name s = d.follow? s entry.path root := by
  unfold locate
  rw [show (r.get? name).bind (·.table.point? s.point) = some entry from hentry]

/-- Below the element that the front of a path leads to, a repeated segment chooses the child of
that repetition, as long as the siblings that follow the repetitions are there as well. -/
theorem locate_repeated (hentry : r.point? name s.point = some entry)
    (hpath : entry.path = front ++ [.repeated key base trailing]) (hi : s.index? key = some i)
    (hword : base + i + trailing < wordSize) (hparent : d.follow? s front root = .ok (some parent)) :
    r.locate d root name s =
      .ok (if base + i + trailing < (d.elementChildren parent).length
        then (d.elementChildren parent)[base + i]? else none) := by
  rw [locate_of_point? hentry, hpath, follow?_append hparent, follow?_repeated hi hword]

theorem follow?_withIndex (hkey : key ∉ front.keys) (i : Nat) :
    d.follow? (s.withIndex key i) front root = d.follow? s front root := by
  refine follow?_congr fun other hmem => ?_
  rw [Selector.index?_withIndex, if_neg]
  rintro rfl
  exact hkey hmem

theorem locate_withIndex (hentry : r.point? name s.point = some entry)
    (hpath : entry.path = front ++ [.repeated key base trailing]) (hkey : key ∉ front.keys)
    (hword : base + i + trailing < wordSize) (hparent : d.follow? s front root = .ok (some parent)) :
    r.locate d root name (s.withIndex key i) =
      .ok (if base + i + trailing < (d.elementChildren parent).length
        then (d.elementChildren parent)[base + i]? else none) := by
  have hown : (s.withIndex key i).index? key = some i := by
    rw [Selector.index?_withIndex, if_pos rfl]
  exact locate_repeated (s := s.withIndex key i) hentry hpath hown hword
    ((follow?_withIndex hkey i).trans hparent)

theorem exists_of_locate (h : r.locate d root name s = .ok (some e)) :
    ∃ entry, r.point? name s.point = some entry ∧ d.follow? s entry.path root = .ok (some e) := by
  cases hentry : r.point? name s.point with
  | none =>
    unfold locate at h
    rw [show (r.get? name).bind (·.table.point? s.point) = none from hentry] at h
    cases h
  | some entry => exact ⟨entry, rfl, (locate_of_point? hentry d root).symm.trans h⟩

theorem locate_eq_some_iff :
    r.locate d root name s = .ok (some e) ↔
      ∃ entry indices, r.point? name s.point = some entry ∧
        entry.path.keys.map s.index? = indices.map some ∧
        d.Leads entry.path indices root e := by
  constructor
  · intro h
    obtain ⟨entry, hentry, hfollow⟩ := exists_of_locate h
    obtain ⟨indices, hindices, hleads⟩ := follow?_eq_some_iff.1 hfollow
    exact ⟨entry, indices, hentry, hindices, hleads⟩
  · rintro ⟨entry, indices, hentry, hindices, hleads⟩
    rw [locate_of_point? hentry]
    exact follow?_eq_some_iff.2 ⟨indices, hindices, hleads⟩

end Downwards

/-! ## Upwards -/

theorem reverseLocate_of_steps (hD : r.get? name = some D)
    (hsteps : (d.ancestorChain? root target).bind d.steps? = some steps) :
    r.reverseLocate d root name target = .ok (some loc) ↔
      matchPoints steps D.table.points = .ok loc := by
  rw [reverseLocate, hD, hsteps, Checked.bind_eq_ok]
  simp

theorem reverseLocate_eq_none (hD : r.get? name = some D) :
    r.reverseLocate d root name target = .ok none ↔
      (d.ancestorChain? root target).bind d.steps? = none := by
  rw [reverseLocate, hD]
  cases (d.ancestorChain? root target).bind d.steps? with
  | none => exact iff_of_true rfl rfl
  | some steps =>
    simp only [Checked.bind_eq_ok]
    simp

theorem steps_isSome (hf : d.Forest) :
    ((d.ancestorChain? root target).bind d.steps?).isSome ↔
      d.Within root target ∧ (target = root ∨ d.isElement target) := by
  cases hc : d.ancestorChain? root target with
  | none =>
    rw [ancestorChain?_eq_none hf] at hc
    simp [hc]
  | some chain =>
    obtain ⟨hchain, hhead, hlast⟩ := ancestorChain?_sound hc
    obtain ⟨rest, rfl⟩ := List.head?_eq_some_iff.1 hhead
    rw [Option.bind_some, steps?_isSome hf hchain hlast]
    exact ⟨fun h => ⟨within_of_ancestorChain? hc, h⟩, fun h => h.2⟩

def recognized? (steps : List Step) (point : String × PointEntry) : Option (String × Nat) :=
  (capturePath point.2.path steps).toOption.join.map fun index => (point.1, index.getD 0)

theorem eq_filterMap_of_matchPoints {points : NameMap PointEntry}
    (h : matchPoints steps points = .ok loc) : loc = points.filterMap (recognized? steps) := by
  induction points generalizing loc with
  | nil =>
    cases h
    rfl
  | cons point points ih =>
    obtain ⟨found, hfound, h⟩ := Checked.bind_eq_ok.1 h
    have hrecognized : recognized? steps point = found.map fun index => (point.1, index.getD 0) := by
      rw [recognized?, hfound]
      rfl
    rw [List.filterMap_cons, hrecognized]
    cases found with
    | none => exact ih h
    | some index =>
      obtain ⟨rest, hrest, h⟩ := Checked.bind_eq_ok.1 h
      cases h
      rw [ih hrest]
      rfl

/-- A point is reported if its path is recognized, with the index that is found. -/
theorem find?_matchPoints {points : NameMap PointEntry} (hs : points.Sorted)
    (h : matchPoints steps points = .ok loc) {i : Nat} :
    loc.find? p = some i ↔
      ∃ entry last, points.find? p = some entry ∧
        capturePath entry.path steps = .ok (some last) ∧ i = last.getD 0 := by
  rw [eq_filterMap_of_matchPoints h, NameMap.find?_filterMap ?_ hs p]
  · rw [Option.bind_eq_some_iff]
    constructor
    · rintro ⟨entry, hentry, hfound⟩
      obtain ⟨_, hrecognized, rfl⟩ := Option.map_eq_some_iff.1 hfound
      obtain ⟨last, hlast, rfl⟩ := Option.map_eq_some_iff.1 hrecognized
      cases hcapture : capturePath entry.path steps with
      | error overflow =>
        rw [hcapture] at hlast
        cases hlast
      | ok found =>
        rw [hcapture] at hlast
        obtain rfl : found = some last := hlast
        exact ⟨entry, last, hentry, hcapture, rfl⟩
    · rintro ⟨entry, last, hentry, hcapture, rfl⟩
      refine ⟨entry, hentry, ?_⟩
      rw [recognized?, hcapture]
      rfl
  · rintro ⟨name, entry⟩ e he
    obtain ⟨index, _, rfl⟩ := Option.map_eq_some_iff.1 he
    rfl

theorem exists_reverseLocate (hr : r.Reachable) (hf : d.Forest) (hroom : r.FitsBeside d)
    (hD : r.get? name = some D) (root target : Handle) :
    ∃ found, r.reverseLocate d root name target = .ok found := by
  cases hsteps : (d.ancestorChain? root target).bind d.steps? with
  | none => exact ⟨none, (reverseLocate_eq_none hD).2 hsteps⟩
  | some steps =>
    obtain ⟨chain, hchain, hs⟩ := Option.bind_eq_some_iff.1 hsteps
    obtain ⟨_, hhead, _⟩ := ancestorChain?_sound hchain
    obtain ⟨rest, rfl⟩ := List.head?_eq_some_iff.1 hhead
    obtain ⟨loc, hloc⟩ := hr.exists_matchPoints hf hroom hD hs
    exact ⟨some loc, (reverseLocate_of_steps hD hsteps).2 hloc⟩

/-- A point is reported if its path leads to the node or to one above it. -/
theorem find?_reverseLocate (hr : r.Reachable) (hd : d.Reachable)
    (hloc : r.reverseLocate d root name target = .ok (some loc)) (p : String) (i : Nat) :
    loc.find? p = some i ↔
      ∃ entry a indices, r.point? name p = some entry ∧ d.Below root entry.path.length a ∧
        d.Within a target ∧ d.Leads entry.path indices root a ∧
        i = indices.getLast?.getD 0 := by
  have hf := hd.forest
  cases hD : r.get? name with
  | none =>
    rw [reverseLocate, hD] at hloc
    cases hloc
  | some D =>
    cases hsteps : (d.ancestorChain? root target).bind d.steps? with
    | none =>
      rw [(reverseLocate_eq_none hD).2 hsteps] at hloc
      cases hloc
    | some steps =>
      obtain ⟨chain, hc, hs⟩ := Option.bind_eq_some_iff.1 hsteps
      obtain ⟨hchain, hhead, _⟩ := ancestorChain?_sound hc
      obtain ⟨rest, rfl⟩ := List.head?_eq_some_iff.1 hhead
      have htable : r.point? name p = D.table.points.find? p := by
        rw [point?, hD]
        rfl
      rw [find?_matchPoints (hr.sorted_points hD) ((reverseLocate_of_steps hD hsteps).1 hloc), htable]
      constructor
      · rintro ⟨entry, last, hentry, hcapture, rfl⟩
        obtain ⟨a, indices, ha, hleads, rfl⟩ := leads_of_capturePath hf hchain hs hcapture
        obtain ⟨hlevel, hwithin⟩ := (getElem?_chain hf hc).1 ha
        exact ⟨entry, a, indices, hentry, hlevel, hwithin, hleads, rfl⟩
      · rintro ⟨entry, a, indices, hentry, hlevel, hwithin, hleads, rfl⟩
        have ha := (getElem?_chain hf hc).2 ⟨hlevel, hwithin⟩
        exact ⟨entry, _, hentry, hleads.capturePath hf hchain ha hs, rfl⟩

theorem reverseLocate_of_leads (hr : r.Reachable) (hd : d.Reachable) (hroom : r.FitsBeside d)
    {indices : List Nat} (hentry : r.point? name p = some entry)
    (h : d.Leads entry.path indices root e) :
    ∃ loc, r.reverseLocate d root name e = .ok (some loc) ∧
      loc.find? p = some (indices.getLast?.getD 0) := by
  have hf := hd.forest
  obtain ⟨D, hD, hpoint⟩ := Option.bind_eq_some_iff.1 hentry
  have hlevel := h.level hf
  obtain ⟨found, hfound⟩ := exists_reverseLocate hr hf hroom hD root e
  cases found with
  | none =>
    have hsteps := (steps_isSome hf).2 ⟨hlevel.within, h.isElement hf⟩
    rw [(reverseLocate_eq_none hD).1 hfound] at hsteps
    cases hsteps
  | some loc =>
    exact ⟨loc, hfound, (find?_reverseLocate hr hd hfound p _).2
      ⟨entry, e, indices, hentry, hlevel, .refl d e, h, rfl⟩⟩

/-! ## A listing

A heading and a repeated item, and a document that shows the heading and one item.
-/

def listingTree : Node :=
  .element "div" .anonymous .empty
    [.element "h1" .anonymous .empty [], .element "p" ⟨some "items", .multiple, false⟩ .empty []]

def listing : Registry := Registry.empty.register "Listing" listingTree

def listed : Document :=
  let d := (Document.empty.createElement "div" .empty).2
  let d := (d.createElement "h1" .empty).2
  let d := (d.createElement "p" .empty).2
  let d := (d.append 0 1).1
  (d.append 0 2).1

theorem reachable_listing : listing.Reachable := .register (.withSettings _) _ _

theorem reachable_listed : listed.Reachable := by
  have headed := (Reachable.empty.createElement "div" .empty).createElement "h1" .empty
  have two := (headed.createElement "p" .empty).append 0 1 ⟨by decide, by decide⟩
  exact two.append 0 2 ⟨by decide, by decide⟩

theorem fitsBeside_listed : listing.FitsBeside listed := fitsBeside_of_forall (by decide)

theorem entry_items :
    ∃ entry, listing.point? "Listing" "items" = some entry ∧
      (entry.node, entry.path) = (2, [.repeated "items" 1 0]) :=
  Option.map_eq_some_iff.1
    (by decide : (listing.point? "Listing" "items").map (fun e => (e.node, e.path)) = _)

/-! ## The theorems -/

/-- **What is found is found again.** The point is reported for the element it was located at, with
the index that the selector has for the last repetition on its path. -/
theorem reverseLocate_of_locate (hr : r.Reachable) (hd : d.Reachable) (hroom : r.FitsBeside d)
    {s : Selector} (h : r.locate d root name s = .ok (some e)) :
    ∃ entry loc, r.point? name s.point = some entry ∧
      r.reverseLocate d root name e = .ok (some loc) ∧ loc.contains s.point ∧
      loc.find? s.point =
        match entry.path.keys.getLast? with
        | none => some 0
        | some key => s.index? key := by
  obtain ⟨entry, indices, hentry, hindices, hleads⟩ := locate_eq_some_iff.1 h
  obtain ⟨loc, hloc, hfind⟩ := reverseLocate_of_leads hr hd hroom hentry hleads
  refine ⟨entry, loc, hentry, hloc, ?_, ?_⟩
  · rw [NameMap.contains, hfind]
    rfl
  · rw [hfind]
    exact Selector.index?_getLast? hindices

theorem reverseLocate_of_locate_item :
    listing.locate listed 0 "Listing" (.ofPoint "items") = .ok (some 2) ∧
    ∃ entry loc, listing.point? "Listing" "items" = some entry ∧
      listing.reverseLocate listed 0 "Listing" 2 = .ok (some loc) ∧ loc.contains "items" ∧
      loc.find? "items" =
        match entry.path.keys.getLast? with
        | none => some 0
        | some key => (Selector.ofPoint "items").index? key :=
  ⟨by decide, reverseLocate_of_locate reachable_listing reachable_listed fitsBeside_listed
    (s := .ofPoint "items") (by decide)⟩

/-- **What is reported.** Nothing is known about a node outside the root or a text below it. Of any
other node a point is reported if its path leads to the node or to one above it, and the index is
the last one taken. So what is reported of a node is reported of everything below it. -/
theorem reverseLocate_spec (hr : r.Reachable) (hd : d.Reachable) (hroom : r.FitsBeside d)
    (hname : r.contains name) (root target : Handle) :
    ∃ found, r.reverseLocate d root name target = .ok found ∧
      (found = none ↔
        ¬ d.Within root target ∨ target ≠ root ∧ ∃ s, d.get? target = some (.text s)) ∧
      ∀ loc, found = some loc →
        (∀ p i, loc.find? p = some i ↔
          ∃ entry a indices, r.point? name p = some entry ∧ d.Below root entry.path.length a ∧
            d.Within a target ∧ d.Leads entry.path indices root a ∧
            i = indices.getLast?.getD 0) ∧
        ∀ a loc', d.Within a target → r.reverseLocate d root name a = .ok (some loc') →
          ∀ p i, loc'.find? p = some i → loc.find? p = some i := by
  have hf := hd.forest
  obtain ⟨D, hD⟩ := Option.isSome_iff_exists.1 hname
  obtain ⟨found, hfound⟩ := exists_reverseLocate hr hf hroom hD root target
  refine ⟨found, hfound, ?_, ?_⟩
  · have hnone : found = none ↔ r.reverseLocate d root name target = .ok none := by
      rw [hfound, Except.ok.injEq]
    rw [hnone, reverseLocate_eq_none hD, ← Option.not_isSome_iff_eq_none, steps_isSome hf,
      not_and_or, not_or]
    by_cases hw : d.Within root target
    · refine or_congr_right (and_congr_right fun hne => ⟨fun h => ?_, ?_⟩)
      · exact text_of_not_isElement (hw.lt_size hf hne) h
      · rintro ⟨s, hs⟩
        simp [Document.isElement, hs]
    · exact iff_of_true (.inl hw) (.inl hw)
  · rintro loc rfl
    refine ⟨find?_reverseLocate hr hd hfound, fun a loc' ha hloc' p i hp => ?_⟩
    obtain ⟨entry, b, indices, hentry, hlevel, hwithin, hleads, hi⟩ :=
      (find?_reverseLocate hr hd hloc' p i).1 hp
    exact (find?_reverseLocate hr hd hfound p i).2
      ⟨entry, b, indices, hentry, hlevel, hwithin.trans ha, hleads, hi⟩

/-- The item of the listing is reported at index 0. -/
theorem reverseLocate_spec_listing :
    listing.reverseLocate listed 0 "Listing" 2 = .ok (some [("items", 0)]) ∧
      ∀ p i, NameMap.find? [("items", 0)] p = some i ↔
        ∃ entry a indices, listing.point? "Listing" p = some entry ∧
          listed.Below 0 entry.path.length a ∧ listed.Within a 2 ∧
          listed.Leads entry.path indices 0 a ∧ i = indices.getLast?.getD 0 := by
  have hvalue : listing.reverseLocate listed 0 "Listing" 2 = .ok (some [("items", 0)]) := by decide
  obtain ⟨found, hfound, -, hreported⟩ := reverseLocate_spec reachable_listing reachable_listed
    fitsBeside_listed (by decide : listing.contains "Listing") 0 2
  obtain rfl := Except.ok.inj (hvalue.symm.trans hfound)
  exact ⟨hvalue, (hreported _ rfl).1⟩

end Registry
end Stencil
