import Stencil.Proofs.Point.Place
import Stencil.Proofs.Point.Sightings

/-! # The names that occur in a template

At each place that the survey comes to, some names occur: that of the node itself, those of the
points of a template that is referenced there, and those of the slots whose points that template
has. The table of the template can be told from these occurrences, in whatever order the survey
comes across them.
-/
namespace Stencil.Survey
variable {lookup : String → Option Descriptor} {owner name template : String} {path : Path}
  {detached : Bool} {id reference : NodeId} {point : PointSpec} {sub : Descriptor} {s : Sighting}

namespace Place

/-- The name occurs at the place, with the entry that it would have. -/
inductive Offers (lookup : String → Option Descriptor) (owner : String) (place : Place) :
    String → PointEntry → Prop
  /-- The node declares the name itself. -/
  | own {name : String} {point : PointSpec} (declared : place.node.point? = some point)
      (named : point.id = some name) :
      Offers lookup owner place name ⟨owner, place.id, point.cardinality, place.path, none⟩
  /-- The node references a template that has a point of this name. -/
  | inherited {name template : String} {point : PointSpec} {attributes : Attributes}
      {slots : List (String × Slot)} {sub : Descriptor} {target : PointEntry}
      (reference : place.node = .reference template point attributes slots)
      (registered : lookup template = some sub) (held : (name, target) ∈ sub.table.points) :
      Offers lookup owner place name (through place.id place.path name target)
  /-- It gives the name to a slot, and the template has the point of the slot. -/
  | renamed {name template : String} {point : PointSpec} {attributes : Attributes}
      {slots : List (String × Slot)} {sub : Descriptor} {target : PointEntry}
      {slot : String × Slot} (reference : place.node = .reference template point attributes slots)
      (registered : lookup template = some sub) (among : slot ∈ slots)
      (known : sub.table.point? slot.1 = some target) (named : slot.2.id = some name) :
      Offers lookup owner place name (through place.id place.path slot.1 target)

/-- What the survey notes at a place. -/
inductive Notes (lookup : String → Option Descriptor) (owner : String) (place : Place) :
    Sighting → Prop
  | point {name : String} {entry : PointEntry} (attached : place.detached = false)
      (offers : place.Offers lookup owner name entry) : Notes lookup owner place (.point name entry)
  | unaddressable {name : String} {entry : PointEntry} (detached : place.detached = true)
      (offers : place.Offers lookup owner name entry) :
      Notes lookup owner place (.unaddressable name)
  | ambiguous {name template : String} {point : PointSpec} {attributes : Attributes}
      {slots : List (String × Slot)} {sub : Descriptor} (attached : place.detached = false)
      (reference : place.node = .reference template point attributes slots)
      (registered : lookup template = some sub) (ambiguous : sub.table.isAmbiguous name) :
      Notes lookup owner place (.ambiguous name)
  | unresolved {template : String} {point : PointSpec} {attributes : Attributes}
      {slots : List (String × Slot)}
      (reference : place.node = .reference template point attributes slots)
      (unregistered : lookup template = none) : Notes lookup owner place (.unresolved template)
  | unknownSlot {template : String} {point : PointSpec} {attributes : Attributes}
      {slots : List (String × Slot)} {sub : Descriptor} {slot : String × Slot}
      (reference : place.node = .reference template point attributes slots)
      (registered : lookup template = some sub) (among : slot ∈ slots)
      (unknown : sub.table.point? slot.1 = none) :
      Notes lookup owner place (.unknownSlot template slot.1)

theorem mem_ownPoint :
    s ∈ ownPoint owner path detached id point ↔ ∃ name, point.id = some name ∧
      s = sight detached name ⟨owner, id, point.cardinality, path, none⟩ := by
  unfold ownPoint
  cases point.id <;> simp

theorem mem_inheritedPoints :
    s ∈ inheritedPoints sub path detached reference ↔
      (detached = false ∧ ∃ name, sub.table.isAmbiguous name ∧ s = .ambiguous name) ∨
        ∃ name target, (name, target) ∈ sub.table.points ∧
          s = sight detached name (through reference path name target) := by
  have hnames (name : String) :
      name ∈ sub.table.ambiguous.names ↔ sub.table.isAmbiguous name := by
    rw [PointTable.isAmbiguous, NameMap.contains, Option.isSome_iff_ne_none, ne_eq,
      NameMap.find?_eq_none_iff, not_not]
  unfold inheritedPoints
  rw [List.mem_append]
  cases detached <;> simp [hnames, eq_comm (a := s)]

theorem mem_slotSightings {slot : String × Slot} :
    s ∈ slotSightings template sub path detached reference slot ↔
      (sub.table.point? slot.1 = none ∧ s = .unknownSlot template slot.1) ∨
        ∃ target name, sub.table.point? slot.1 = some target ∧ slot.2.id = some name ∧
          s = sight detached name (through reference path slot.1 target) := by
  unfold slotSightings
  cases sub.table.point? slot.1 <;> simp [eq_comm (a := s)]

theorem noted_of_reference {place : Place} {attributes : Attributes}
    {slots : List (String × Slot)} (h : place.node = .reference template point attributes slots)
    (hsub : lookup template = some sub) :
    place.noted lookup owner = ownPoint owner place.path place.detached place.id point ++
      (inheritedPoints sub place.path place.detached place.id ++
        slots.flatMap (slotSightings template sub place.path place.detached place.id)) := by
  rw [noted, h]
  simp only [hsub]

theorem Offers.notes {place : Place} {entry : PointEntry}
    (h : place.Offers lookup owner name entry) :
    place.Notes lookup owner (sight place.detached name entry) := by
  unfold sight
  split
  · next hdetached => exact .unaddressable hdetached h
  · next hattached => exact .point (eq_false_of_ne_true hattached) h

theorem Offers.mem_noted {place : Place} {entry : PointEntry}
    (h : place.Offers lookup owner name entry) :
    sight place.detached name entry ∈ place.noted lookup owner := by
  cases h with
  | @own point declared named =>
    obtain ⟨path, detached, id, node⟩ := place
    have hown : sight detached name ⟨owner, id, point.cardinality, path, none⟩ ∈
        ownPoint owner path detached id point := mem_ownPoint.2 ⟨name, named, rfl⟩
    cases node with
    | text => cases declared
    | element =>
      cases declared
      exact hown
    | reference =>
      cases declared
      exact List.mem_append_left _ hown
  | inherited reference registered held =>
    rw [noted_of_reference reference registered]
    apply List.mem_append_right
    apply List.mem_append_left
    exact mem_inheritedPoints.2 (.inr ⟨_, _, held, rfl⟩)
  | renamed reference registered among known named =>
    rw [noted_of_reference reference registered]
    apply List.mem_append_right
    apply List.mem_append_right
    exact List.mem_flatMap.2 ⟨_, among, mem_slotSightings.2 (.inr ⟨_, _, known, named, rfl⟩)⟩

theorem notes_of_mem_noted {place : Place} (h : s ∈ place.noted lookup owner) :
    place.Notes lookup owner s := by
  obtain ⟨path, detached, id, node⟩ := place
  have hown {point : PointSpec} (hpoint : node.point? = some point)
      (h : s ∈ ownPoint owner path detached id point) :
      Notes lookup owner ⟨path, detached, id, node⟩ s := by
    obtain ⟨name, hname, rfl⟩ := mem_ownPoint.1 h
    exact Offers.notes (.own hpoint hname)
  cases node with
  | text => cases h
  | element => exact hown rfl h
  | reference template point attributes slots =>
    cases hsub : lookup template with
    | none =>
      rcases List.mem_append.1 h with h | h
      · exact hown rfl h
      · rw [hsub] at h
        rw [List.mem_singleton.1 h]
        exact .unresolved rfl hsub
    | some sub =>
      rw [noted_of_reference rfl hsub, List.mem_append, List.mem_append] at h
      rcases h with h | h | h
      · exact hown rfl h
      · rcases mem_inheritedPoints.1 h with ⟨rfl, name, hname, rfl⟩ | ⟨name, target, hheld, rfl⟩
        · exact .ambiguous rfl rfl hsub hname
        · exact Offers.notes (.inherited rfl hsub hheld)
      · obtain ⟨slot, hslot, h⟩ := List.mem_flatMap.1 h
        rcases mem_slotSightings.1 h with ⟨hnone, rfl⟩ | ⟨target, name, hknown, hname, rfl⟩
        · exact .unknownSlot rfl hsub hslot hnone
        · exact Offers.notes (.renamed rfl hsub hslot hknown hname)

/-- What is noted at a place is what its node has to offer, and what it lacks. -/
theorem mem_noted_iff {place : Place} :
    s ∈ place.noted lookup owner ↔ place.Notes lookup owner s := by
  constructor
  · exact notes_of_mem_noted
  · intro h
    cases h with
    | point attached offers =>
      have hmem := offers.mem_noted
      rwa [attached] at hmem
    | unaddressable detached offers =>
      have hmem := offers.mem_noted
      rwa [detached] at hmem
    | ambiguous attached reference registered ambiguous =>
      rw [noted_of_reference reference registered]
      apply List.mem_append_right
      apply List.mem_append_left
      exact mem_inheritedPoints.2 (.inl ⟨attached, _, ambiguous, rfl⟩)
    | unresolved reference unregistered =>
      rw [noted, reference]
      simp only [unregistered]
      exact List.mem_append_right _ List.mem_cons_self
    | unknownSlot reference registered among unknown =>
      rw [noted_of_reference reference registered]
      apply List.mem_append_right
      apply List.mem_append_right
      exact List.mem_flatMap.2 ⟨_, among, mem_slotSightings.2 (.inl ⟨unknown, rfl⟩)⟩

theorem mem_visit_iff_notes {node : Node} :
    s ∈ visit lookup owner path detached id node ↔
      ∃ place, Reaches lookup ⟨path, detached, id, node⟩ place ∧ place.Notes lookup owner s := by
  simp only [mem_visit_iff, mem_noted_iff]

end Place

/-! ## Occurrences -/

/-- The name occurs with this path, at a place whose position is fixed. -/
def Occurs (lookup : String → Option Descriptor) (owner : String) (root : Node) (name : String)
    (path : Path) : Prop :=
  ∃ place entry, Place.Reaches lookup (.root root) place ∧ place.detached = false ∧
    place.Offers lookup owner name entry ∧ entry.path = path

/-- The name occurs at or below a child that has no fixed position. -/
def OccursDetached (lookup : String → Option Descriptor) (owner : String) (root : Node)
    (name : String) : Prop :=
  ∃ place entry, Place.Reaches lookup (.root root) place ∧ place.detached = true ∧
    place.Offers lookup owner name entry

/-- The name is ambiguous in a template that is referenced at a place whose position is fixed. -/
def AmbiguousBelow (lookup : String → Option Descriptor) (root : Node) (name : String) : Prop :=
  ∃ place template point attributes slots sub, Place.Reaches lookup (.root root) place ∧
    place.detached = false ∧ place.node = .reference template point attributes slots ∧
      lookup template = some sub ∧ sub.table.isAmbiguous name

variable {root : Node}

theorem sighted_iff_occurs :
    PointTable.Sighted (visit lookup owner [] false 0 root) name path ↔
      Occurs lookup owner root name path := by
  constructor
  · rintro ⟨entry, hseen, rfl⟩
    obtain ⟨place, hreaches, hnotes⟩ := Place.mem_visit_iff_notes.1 hseen
    cases hnotes with
    | point attached offers => exact ⟨place, entry, hreaches, attached, offers, rfl⟩
  · rintro ⟨place, entry, hreaches, hattached, hoffers, rfl⟩
    exact ⟨entry, Place.mem_visit_iff_notes.2 ⟨place, hreaches, .point hattached hoffers⟩, rfl⟩

theorem unaddressable_mem_visit :
    .unaddressable name ∈ visit lookup owner [] false 0 root ↔
      OccursDetached lookup owner root name := by
  rw [Place.mem_visit_iff_notes]
  constructor
  · rintro ⟨place, hreaches, hnotes⟩
    cases hnotes with
    | unaddressable detached offers => exact ⟨place, _, hreaches, detached, offers⟩
  · rintro ⟨place, entry, hreaches, hdetached, hoffers⟩
    exact ⟨place, hreaches, .unaddressable hdetached hoffers⟩

theorem ambiguous_mem_visit :
    .ambiguous name ∈ visit lookup owner [] false 0 root ↔ AmbiguousBelow lookup root name := by
  rw [Place.mem_visit_iff_notes]
  constructor
  · rintro ⟨place, hreaches, hnotes⟩
    cases hnotes with
    | ambiguous attached reference registered ambiguous =>
      exact ⟨place, _, _, _, _, _, hreaches, attached, reference, registered, ambiguous⟩
  · rintro ⟨place, _, _, _, _, _, hreaches, hattached, hreference, hregistered, hambiguous⟩
    exact ⟨place, hreaches, .ambiguous hattached hreference hregistered hambiguous⟩

end Stencil.Survey

namespace Stencil.Descriptor
open Survey
variable {lookup : String → Option Descriptor} {name : String} {root : Node}

/-- **The table of a template can be told from the names that occur in it**, in whatever order they
are come across. -/
theorem compile_table (lookup : String → Option Descriptor) (name : String) (root : Node) :
    let table := (compile lookup name root).table
    (∀ p, table.isAmbiguous p ↔
        (∃ path path', path ≠ path' ∧ Occurs lookup name root p path ∧
          Occurs lookup name root p path') ∨ AmbiguousBelow lookup root p) ∧
      (∀ p path, table.path? p = some path ↔
        table.isAmbiguous p = false ∧ Occurs lookup name root p path) ∧
      (∀ p, .ambiguousPoint p ∈ table.issues ↔ table.isAmbiguous p) ∧
      (∀ p, .unaddressablePoint p ∈ table.issues ↔ OccursDetached lookup name root p) ∧
      table.issues.Nodup ∧
      ∀ seen, seen.Perm (visit lookup name [] false 0 root) →
        (PointTable.ofSightings seen).Agrees table := by
  intro table
  have hsums : PointTable.Sums (visit lookup name [] false 0 root) table :=
    PointTable.sums_ofSightings _
  refine ⟨fun p => ?_, fun p path => ?_, fun p => ?_, fun p => ?_, hsums.nodup, fun seen hseen => ?_⟩
  · rw [hsums.ambiguous, PointTable.Disputed, ambiguous_mem_visit, or_comm]
    simp only [sighted_iff_occurs]
  · rw [hsums.path, ← hsums.ambiguous, Bool.not_eq_true, sighted_iff_occurs]
  · rw [hsums.issue, hsums.ambiguous, PointTable.Due]
  · rw [hsums.issue, PointTable.due_unaddressable, unaddressable_mem_visit]
  · exact PointTable.agrees_of_perm hseen

/-! ## A desk with two drawers -/

def drawer : Descriptor :=
  compile (fun _ => none) "Drawer"
    (.element "div" .anonymous .empty [.element "b" ⟨some "knob", .single, false⟩ .empty []])

def furniture (template : String) : Option Descriptor :=
  if template = "Drawer" then some drawer else none

def deskRoot : Node := .element "div" .anonymous .empty
  [.reference "Drawer" .anonymous .empty [], .reference "Drawer" .anonymous .empty [],
    .element "h2" ⟨some "title", .single, false⟩ .empty [],
    .element "p" ⟨some "notes", .multiple, false⟩ .empty [],
    .element "p" ⟨some "files", .multiple, false⟩ .empty []]

/-- Both drawers have a knob, and nothing behind the notes has a fixed position. -/
theorem compile_table_desk :
    let table := (compile furniture "Desk" deskRoot).table
    table.issues =
        [.ambiguousPoint "knob", .unaddressablePoint "notes", .unaddressablePoint "files"] ∧
      table.isAmbiguous "knob" ∧ Occurs furniture "Desk" deskRoot "title" [.index 2] ∧
      OccursDetached furniture "Desk" deskRoot "notes" := by
  obtain ⟨_, hpath, _, hdetached, _⟩ := compile_table furniture "Desk" deskRoot
  have hissues : (compile furniture "Desk" deskRoot).table.issues =
      [.ambiguousPoint "knob", .unaddressablePoint "notes", .unaddressablePoint "files"] := by
    decide
  refine ⟨hissues, by decide, ((hpath "title" [.index 2]).1 (by decide)).2, (hdetached "notes").1 ?_⟩
  rw [hissues]
  decide

end Stencil.Descriptor
