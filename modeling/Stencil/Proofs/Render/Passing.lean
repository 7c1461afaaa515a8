import Stencil.Proofs.Data.Merging
import Stencil.Proofs.Render.Supply

/-! # Attributes that are handed on

A reference hands its attributes, below those that are laid over it, to the root of its template. A
slot does the same for its point, and so does a reference for the data of one point. Along a chain
of such steps everything is merged, and what arrives does not depend on how the merges are grouped.
-/
namespace Stencil.Render
variable {settings : Settings} {inclusion : Inclusion} {scopes : List Record} {s' X X' : Record}
  {slot : String × Slot} {slots : List (String × Slot)} {own attributes : Attributes}
  {name q : String} {sub : Descriptor} {r : Registry} {parts : List Attributes}

/-! ## Where overrides are found -/

/-- Where overrides of a node are found: under its name, and at its position if it is repeated. -/
structure Overlay where
  scopes : List Record
  name : Option String
  index : Option Nat

namespace Overlay

def overrides (o : Overlay) : Option Attributes :=
  (o.name.bind fun name => lookup o.scopes (attributeKey name)).bind (·.attributesAt o.index)

/-- What is laid over the node. -/
def laid (o : Overlay) : Attributes := o.overrides.getD .empty

theorem laid_singleton (s : Record) (name : String) :
    (⟨[s], some name, none⟩ : Overlay).laid = s.laid name := by
  rw [laid, overrides, Option.bind_some, lookup_singleton]
  rfl

end Overlay

/-- The overrides of each emission are found under the name of its node or under the root key. -/
theorem exists_overlay {point : PointSpec} {isRoot : Bool} {found : List Emission}
    {emission : Emission} (h : emissions point isRoot scopes = .ok found)
    (hemission : emission ∈ found) : ∃ o : Overlay, o.scopes = scopes ∧
      (o.name = point.id ∨ isRoot ∧ o.name = some rootKey) ∧ emission.overrides = o.overrides := by
  -- one name serves all positions
  have hname : ∃ name : Option String, (name = point.id ∨ isRoot ∧ name = some rootKey) ∧
      (bound point isRoot scopes).overrides =
        name.bind fun name => lookup scopes (attributeKey name) := by
    unfold bound
    cases isRoot with
    | false => exact ⟨point.id, .inl rfl, rfl⟩
    | true =>
      cases hroot : lookup scopes (attributeKey rootKey) with
      | none => exact ⟨point.id, .inl rfl, rfl⟩
      | some value => exact ⟨some rootKey, .inr ⟨rfl, rfl⟩, hroot.symm⟩
  obtain ⟨name, hname, hbound⟩ := hname
  have hindex : ∃ index, emission.overrides =
      (bound point isRoot scopes).overrides.bind (·.attributesAt index) := by
    rw [emissions_eq] at h
    unfold emissionsOf at h
    split at h
    · cases h
    · cases h
      cases hemission
    · cases h
      obtain ⟨i, _, rfl⟩ := List.mem_mapIdx.1 hemission
      exact ⟨some i, rfl⟩
    · cases h
      exact ⟨none, congrArg Emission.overrides (List.mem_singleton.1 hemission)⟩
  obtain ⟨index, hindex⟩ := hindex
  exact ⟨⟨scopes, name, index⟩, rfl, hname, by rw [hindex, hbound]; rfl⟩

/-! ## The scope in which a reference renders its template -/

namespace Emission

/-- The scopes for the slots of a reference. -/
def inner (emission : Emission) (scopes : List Record) : List Record :=
  match emission.value with
  | some (.item fields) => fields :: scopes
  | _ => scopes

/-- The slots of a reference that are filled; markup leaves no room for them. -/
def filled (emission : Emission) (slots : List (String × Slot)) : List (String × Slot) :=
  match emission.value with
  | some (.scalar _) => []
  | _ => slots

theorem filled_eq_of_mem {emission : Emission} (h : slot ∈ emission.filled slots) :
    emission.filled slots = slots := by
  unfold filled at h ⊢
  split at h
  · cases h
  · rfl

end Emission

/-- The scope that an emission of a reference makes for the template. -/
def referenceScope (settings : Settings) (inclusion : Inclusion) (scopes : List Record)
    (attributes : Attributes) (slots : List (String × Slot)) (emission : Emission) :
    Option Record :=
  bindSlots settings inclusion (emission.inner scopes)
    (rootScope (attributes.merged emission.overrides) emission.value) (emission.filled slots)

theorem emit_reference {template : String} {expand : Record → Option (List Piece)}
    (h : inclusion template = some expand) (point : PointSpec) (emission : Emission) :
    emit settings inclusion scopes (.reference template point attributes slots) emission =
      (referenceScope settings inclusion scopes attributes slots emission).bind expand := by
  obtain ⟨value, overrides⟩ := emission
  simp only [emit, h]
  cases value with
  | none => rfl
  | some value =>
    cases value with
    | scalar markup =>
      simp [emitReference, referenceScope, Emission.filled, bindSlots]
    | item | sequence => rfl

section
variable {emission : Emission} (named : ∀ slot ∈ slots, IsName slot.1)
  (hscope : referenceScope settings inclusion scopes own slots emission = some s')
include named hscope

theorem laid_rootKey_of_referenceScope :
    s'.laid rootKey = (own.merge (emission.overrides.getD .empty)).sorted := by
  have hkeep := find?_of_bindSlots (attributeKey rootKey) hscope fun slot hslot => by
    have hslot : slot ∈ slots := Emission.filled_eq_of_mem hslot ▸ hslot
    exact ⟨((named slot hslot).ne_attributeKey _).symm, (named slot hslot).attributeKey_ne.symm⟩
  rw [Record.laid, hkeep, ← Record.laid, laid_rootScope,
    Record.scalarAttributes_ofAttributes_eq_sorted, merged_eq_merge]

theorem laid_slot_of_referenceScope (sorted : NameMap.Sorted slots)
    (hslot : slot ∈ emission.filled slots) :
    s'.laid slot.1 = (slot.2.attributes.merge
      (⟨emission.inner scopes, slot.2.id, none⟩ : Overlay).laid).sorted := by
  have hfilled := Emission.filled_eq_of_mem hslot
  rw [referenceScope, hfilled] at hscope
  rw [hfilled] at hslot
  rw [Record.laid, find?_attributeKey_of_bindSlots sorted named hscope hslot, ← Record.laid,
    laid_bindAttributes (lacks_rootScope (named slot hslot) _ _).overrides,
    Record.scalarAttributes_ofAttributes_eq_sorted, laidBy, merged_eq_merge]
  rfl

end

/-! ## The data of one point -/

/-- What a reference supplies to a point of its template: its own attributes to the root, and above
them those of the slot. -/
def suppliedParts (sub : Descriptor) (attributes : Attributes) (slots : List (String × Slot))
    (q : String) : List Attributes :=
  [if (sub.table.point? q).any fun entry => entry.path.isEmpty then attributes else .empty,
    ((NameMap.find? slots q).map (·.attributes)).getD .empty]

theorem laid_of_suppliedData (h : r.suppliedData inclusion sub attributes slots q X = some X') :
    X'.laid rootKey =
      (((suppliedParts sub attributes slots q).foldl Attributes.merge .empty).merge
        (X.laid rootKey)).sorted := by
  have hdata : ∃ value, X' = Registry.withRoot X value
      (((suppliedParts sub attributes slots q).foldl Attributes.merge .empty).merge
        (X.laid rootKey)) := by
    rw [suppliedParts, List.foldl_cons, Attributes.empty_merge, List.foldl_cons, List.foldl_nil,
      ← merged_eq_merge]
    unfold Registry.suppliedData at h
    simp only [merged_eq_merge _ (Option.bind _ _)] at h
    split at h
    · cases h
      exact ⟨none, rfl⟩
    · obtain ⟨supplied, hsupplied, hbound⟩ := Option.bind_eq_some_iff.1 h
      obtain ⟨markup, _, rfl⟩ := Option.map_eq_some_iff.1 hsupplied
      cases hbound
      exact ⟨some _, rfl⟩
  obtain ⟨value, rfl⟩ := hdata
  rw [Registry.laid_withRoot, Record.scalarAttributes_ofAttributes_eq_sorted]

/-! ## Chains of steps -/

/-- A step hands attributes on: `parts` come below what is laid over the node before. -/
inductive Hands (r : Registry) (inclusion : Inclusion) :
    Overlay → List Attributes → Overlay → Prop
  | reference {o : Overlay} {own : Attributes} {slots : List (String × Slot)} {emission : Emission}
      {s' : Record} (named : ∀ slot ∈ slots, IsName slot.1)
      (overridden : emission.overrides = o.overrides)
      (scope : referenceScope r.settings inclusion o.scopes own slots emission = some s') :
      Hands r inclusion o [own] ⟨[s'], some rootKey, none⟩
  | slot {scopes : List Record} {own : Attributes} {slots : List (String × Slot)}
      {emission : Emission} {slot : String × Slot} {s' : Record} (sorted : NameMap.Sorted slots)
      (named : ∀ slot ∈ slots, IsName slot.1)
      (scope : referenceScope r.settings inclusion scopes own slots emission = some s')
      (filled : slot ∈ emission.filled slots) :
      Hands r inclusion ⟨emission.inner scopes, slot.2.id, none⟩ [slot.2.attributes]
        ⟨[s'], some slot.1, none⟩
  | data {q : String} {sub : Descriptor} {attributes : Attributes}
      {slots : List (String × Slot)} {X X' : Record}
      (supplied : r.suppliedData inclusion sub attributes slots q X = some X') :
      Hands r inclusion ⟨[X], some rootKey, none⟩ (suppliedParts sub attributes slots q)
        ⟨[X'], some rootKey, none⟩

theorem Hands.of_emit {template : String} {expand : Record → Option (List Piece)}
    {point : PointSpec} {isRoot : Bool} {found : List Emission} {emission : Emission}
    {pieces : List Piece} (named : ∀ slot ∈ slots, IsName slot.1)
    (hinclusion : inclusion template = some expand)
    (hfound : emissions point isRoot scopes = .ok found) (hemission : emission ∈ found)
    (hshown : emit r.settings inclusion scopes (.reference template point own slots) emission =
      some pieces) :
    ∃ o s', o.scopes = scopes ∧ (o.name = point.id ∨ isRoot ∧ o.name = some rootKey) ∧
      Hands r inclusion o [own] ⟨[s'], some rootKey, none⟩ ∧ expand s' = some pieces := by
  obtain ⟨o, rfl, hname, hoverrides⟩ := exists_overlay hfound hemission
  rw [emit_reference hinclusion] at hshown
  obtain ⟨s', hs', hpieces⟩ := Option.bind_eq_some_iff.1 hshown
  exact ⟨o, s', rfl, hname, .reference named hoverrides hs', hpieces⟩

theorem Hands.of_bare (o : Overlay) (own : Attributes) :
    Hands r inclusion o [own] ⟨[rootScope (own.merged o.overrides) none], some rootKey, none⟩ := by
  have hscope : referenceScope r.settings inclusion o.scopes own [] ⟨none, o.overrides⟩ =
      some (rootScope (own.merged o.overrides) none) := rfl
  exact .reference (List.forall_mem_nil _) rfl hscope

/-- Steps one after the other, each of which finds the overrides that the last one left. What a
later step hands on comes below. -/
inductive Route (r : Registry) (inclusion : Inclusion) :
    Overlay → List Attributes → Overlay → Prop
  | one {o o' : Overlay} {parts : List Attributes} (hands : Hands r inclusion o parts o') :
      Route r inclusion o parts o'
  | more {o o' next o'' : Overlay} {parts below : List Attributes}
      (route : Route r inclusion o parts o') (found : next.overrides = o'.overrides)
      (hands : Hands r inclusion next below o'') : Route r inclusion o (below ++ parts) o''

theorem Hands.laid_eq {o o' : Overlay} (h : Hands r inclusion o parts o') :
    o'.laid = ((parts.foldl Attributes.merge .empty).merge o.laid).sorted := by
  cases h with
  | reference named overridden scope =>
    rw [Overlay.laid_singleton, laid_rootKey_of_referenceScope named scope, overridden,
      List.foldl_cons, List.foldl_nil, Attributes.empty_merge]
    rfl
  | slot sorted named scope filled =>
    rw [Overlay.laid_singleton, laid_slot_of_referenceScope named scope sorted filled,
      List.foldl_cons, List.foldl_nil, Attributes.empty_merge]
  | data supplied =>
    rw [Overlay.laid_singleton, Overlay.laid_singleton, laid_of_suppliedData supplied]

theorem Route.laid_eq {o o' : Overlay} (h : Route r inclusion o parts o') :
    o'.laid = ((parts.foldl Attributes.merge .empty).merge o.laid).sorted := by
  induction h with
  | one hands => exact hands.laid_eq
  | @more o' next o'' parts below _ found hands ih =>
    -- the overrides were sorted on the way, which the sorting at the end does not notice
    have hnext : next.laid = o'.laid := congrArg (·.getD Attributes.empty) found
    rw [hands.laid_eq, hnext, ih, Attributes.sorted_merge_sorted, ← Attributes.merge_assoc,
      List.foldl_append, Attributes.foldl_merge parts (below.foldl Attributes.merge .empty)]

/-- **Merging is an ordered monoid whose upper side wins.** The attribute maps that can be built are
the lists of entries without a repeated key, and the laws hold for all of them. What is merged along
a chain of references and slots is what any grouping of the merges gives, in the order of the keys. -/
theorem merging :
    (∀ entries, AttributeList.Built entries ↔ (entries.map Prod.fst).Nodup) ∧
      (∀ a b c, Attributes.MergeLaws a b c) ∧
      (∀ g g' : Attributes.Grouping, g.parts = g'.parts → g.merged = g'.merged) ∧
      ∀ (r : Registry) (inclusion : Inclusion) (o o' : Overlay) (parts : List Attributes),
        Route r inclusion o parts o' → ∀ g : Attributes.Grouping, g.parts = parts ++ [o.laid] →
          o'.laid = g.merged.sorted := by
  refine ⟨fun _ => Attributes.built_iff_nodup, Attributes.mergeLaws, fun g g' hparts => ?_,
    fun r inclusion o o' parts route g hparts => ?_⟩
  · rw [g.merged_eq_foldl, hparts, g'.merged_eq_foldl]
  · rw [route.laid_eq, g.merged_eq_foldl, hparts, List.foldl_append, List.foldl_cons,
      List.foldl_nil]

def outerClass : Attributes := .ofList [("class", "a")]

def innerIdAndClass : Attributes := .ofList [("id", "b"), ("class", "c")]

/-- A reference with a class, and at the root of its template another one with a class and an id. -/
theorem merging_two_references :
    ∃ s s' : Record,
      Route .empty (fun _ => none) ⟨[[]], none, none⟩ [outerClass] ⟨[s], some rootKey, none⟩ ∧
      Route .empty (fun _ => none) ⟨[[]], none, none⟩ [innerIdAndClass, outerClass]
        ⟨[s'], some rootKey, none⟩ ∧
      s'.laid rootKey = .ofList [("class", "a"), ("id", "b")] := by
  let o : Overlay := ⟨[rootScope outerClass none], some rootKey, none⟩
  have houter : Route .empty (fun _ => none) ⟨[[]], none, none⟩ [outerClass] o :=
    .one (.of_bare ..)
  have hroute : Route .empty (fun _ => none) ⟨[[]], none, none⟩ [innerIdAndClass, outerClass]
      ⟨[rootScope (innerIdAndClass.merged o.overrides) none], some rootKey, none⟩ :=
    .more houter rfl (.of_bare ..)
  refine ⟨_, _, houter, hroute, ?_⟩
  have hmerged := merging.2.2.2 _ _ _ _ _ hroute
    (.pair (.one innerIdAndClass) (.pair (.one outerClass) (.one .empty))) rfl
  rw [← Overlay.laid_singleton, hmerged, ← Attributes.ofList_nameMap]
  decide +kernel

end Stencil.Render
