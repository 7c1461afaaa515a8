import Stencil.Proofs.Point.Survey

/-! # Tables in the place of trees

Where a template is referenced, the survey reads the template's table instead of its tree. The table
has its points at the same paths as the tree, but it holds no ambiguous names: of these it is only
noted that they are ambiguous. A list of sightings expands another one if it has at its place what
the other one knows from a table. Both lead to the same names, paths and ambiguities.
-/
namespace Stencil

/-! ## Moving a tree -/

def PointEntry.moved (front : Path) (entry : PointEntry) : PointEntry :=
  { entry with path := front ++ entry.path }

def Sighting.moved (front : Path) : Sighting → Sighting
  | .point name entry => .point name (entry.moved front)
  | s => s

namespace Survey
open Sighting (moved)
variable {lookup : String → Option Descriptor} {owner : String} {children : List Node}
  {slots : List (String × Slot)} {seen seen' rest rest' : List Sighting} {name : String}
  {path : Path} {detached : Bool} {id : NodeId} {node root : Node} {entry entry' : PointEntry}

theorem sight_moved (front : Path) (detached : Bool) (name : String) (entry : PointEntry) :
    sight detached name (entry.moved front) = (sight detached name entry).moved front := by
  unfold sight
  split <;> rfl

theorem ownPoint_moved (front path : Path) (detached : Bool) (id : NodeId) (point : PointSpec) :
    ownPoint owner (front ++ path) detached id point =
      (ownPoint owner path detached id point).map (moved front) := by
  unfold ownPoint
  cases point.id with
  | none => rfl
  | some name =>
    have hsight := sight_moved front detached name ⟨owner, id, point.cardinality, path, none⟩
    exact congrArg (List.cons · []) hsight

theorem through_moved (front path : Path) (reference : NodeId) (name : String)
    (entry : PointEntry) :
    through reference (front ++ path) name entry =
      (through reference path name entry).moved front := by
  simp only [through, PointEntry.moved, List.append_assoc]

theorem inheritedPoints_moved (front : Path) (sub : Descriptor) (path : Path) (detached : Bool)
    (reference : NodeId) :
    inheritedPoints sub (front ++ path) detached reference =
      (inheritedPoints sub path detached reference).map (moved front) := by
  unfold inheritedPoints
  rw [List.map_append, List.map_map]
  congr 1
  · cases detached <;> simp [moved]
  · apply List.map_congr_left
    rintro ⟨name, entry⟩ _
    simp only [Function.comp_apply, through_moved, sight_moved]

theorem visitList_moved
    (h : ∀ c ∈ children, ∀ front path detached id,
      visit lookup owner (front ++ path) detached id c =
        (visit lookup owner path detached id c).map (moved front))
    (front path : Path) (detached : Bool) (next : NodeId) (placements : List Placement) :
    visitList lookup owner (front ++ path) detached next placements children =
      (visitList lookup owner path detached next placements children).map (moved front) := by
  induction children generalizing next placements with
  | nil => cases placements <;> simp [visitList]
  | cons c rest ih =>
    obtain ⟨hc, hrest⟩ := List.forall_mem_cons.1 h
    cases placements with
    | nil => simp [visitList]
    | cons placement placements =>
      rw [visitList, visitList, List.append_assoc, hc, ih hrest, List.map_append]

theorem visitSlots_moved
    (h : ∀ slot ∈ slots, ∀ c ∈ slot.2.children, ∀ front path detached id,
      visit lookup owner (front ++ path) detached id c =
        (visit lookup owner path detached id c).map (moved front))
    (front : Path) (template : String) (sub : Descriptor) (path : Path) (detached : Bool)
    (reference next : NodeId) :
    visitSlots lookup owner template sub (front ++ path) detached reference next slots =
      (visitSlots lookup owner template sub path detached reference next slots).map
        (moved front) := by
  induction slots generalizing next with
  | nil => simp [visitSlots]
  | cons slot rest ih =>
    obtain ⟨hslot, hrest⟩ := List.forall_mem_cons.1 h
    obtain ⟨name, id, attributes, children⟩ := slot
    rw [visitSlots, visitSlots, ih hrest, List.map_append]
    congr 1
    cases sub.table.point? name with
    | none => rfl
    | some target =>
      have hpath : (through reference (front ++ path) name target).path =
          front ++ (through reference path name target).path := List.append_assoc ..
      simp only [hpath, visitList_moved hslot, List.map_append]
      congr 1
      cases id with
      | none => rfl
      | some id => simp only [through_moved, sight_moved, List.map_singleton]

theorem visit_moved (front path : Path) (detached : Bool) (id : NodeId) (node : Node) :
    visit lookup owner (front ++ path) detached id node =
      (visit lookup owner path detached id node).map (moved front) := by
  induction node using Node.induct generalizing front path detached id with
  | step node ih =>
    cases node with
    | text => rw [visit, visit, List.map_nil]
    | element tag point attributes children =>
      have hlist := visitList_moved (show ∀ c ∈ children, _ from fun c hc front path detached id =>
        ih c hc front path detached id)
      rw [visit, visit, ownPoint_moved, hlist, List.map_append]
    | reference template point attributes slots =>
      have hslots := visitSlots_moved fun slot hslot c hc front path detached id =>
        ih c (Node.mem_childNodes_of_slot hslot hc template point attributes) front path detached id
      rw [visit, visit, ownPoint_moved, List.map_append]
      congr 1
      cases lookup template with
      | none => rfl
      | some sub => simp only [inheritedPoints_moved, hslots, List.map_append]

/-! ## Expansion -/

open PointTable

/-- The second list has what the first one knows. Of a name that is ambiguous for the first, it has
at least two places. -/
structure Expands (seen seen' : List Sighting) : Prop where
  shown : ∀ name entry, .point name entry ∈ seen → ∃ entry', .point name entry' ∈ seen' ∧
    entry'.path = entry.path ∧ entry'.cardinality = entry.cardinality
  covered : ∀ name path, Sighted seen' name path → .ambiguous name ∈ seen ∨ Sighted seen name path
  disputed : ∀ name, .ambiguous name ∈ seen →
    ∃ p q, p ≠ q ∧ Sighted seen' name p ∧ Sighted seen' name q

theorem sighted_append :
    Sighted (seen ++ rest) name path ↔ Sighted seen name path ∨ Sighted rest name path := by
  simp only [Sighted, List.mem_append, or_and_right, exists_or]

theorem sighted_moved (front : Path) :
    Sighted (seen.map (moved front)) name path ↔ ∃ q, path = front ++ q ∧ Sighted seen name q := by
  constructor
  · rintro ⟨entry, hmem, rfl⟩
    obtain ⟨s, hs, hmoved⟩ := List.mem_map.1 hmem
    cases s <;> cases hmoved
    exact ⟨_, rfl, _, hs, rfl⟩
  · rintro ⟨q, rfl, entry, hmem, rfl⟩
    exact ⟨entry.moved front, List.mem_map.2 ⟨_, hmem, rfl⟩, rfl⟩

theorem ambiguous_mem_moved (front : Path) :
    .ambiguous name ∈ seen.map (moved front) ↔ .ambiguous name ∈ seen := by
  constructor
  · intro h
    obtain ⟨s, hs, hmoved⟩ := List.mem_map.1 h
    cases s <;> cases hmoved
    exact hs
  · intro h
    exact List.mem_map.2 ⟨_, h, rfl⟩

namespace Expands

theorem append (h : Expands seen seen') (h' : Expands rest rest') :
    Expands (seen ++ rest) (seen' ++ rest') where
  shown name entry hmem := by
    rcases List.mem_append.1 hmem with hmem | hmem
    · obtain ⟨entry', hmem', hsame⟩ := h.shown name entry hmem
      exact ⟨entry', List.mem_append_left _ hmem', hsame⟩
    · obtain ⟨entry', hmem', hsame⟩ := h'.shown name entry hmem
      exact ⟨entry', List.mem_append_right _ hmem', hsame⟩
  covered name path hsighted := by
    simp only [sighted_append, List.mem_append] at hsighted ⊢
    rcases hsighted with hsighted | hsighted
    · exact (h.covered name path hsighted).imp .inl .inl
    · exact (h'.covered name path hsighted).imp .inr .inr
  disputed name hmem := by
    simp only [sighted_append]
    rcases List.mem_append.1 hmem with hmem | hmem
    · obtain ⟨p, q, hne, hp, hq⟩ := h.disputed name hmem
      exact ⟨p, q, hne, .inl hp, .inl hq⟩
    · obtain ⟨p, q, hne, hp, hq⟩ := h'.disputed name hmem
      exact ⟨p, q, hne, .inr hp, .inr hq⟩

theorem of_none (hpoint : ∀ name entry, .point name entry ∉ seen)
    (hambiguous : ∀ name, .ambiguous name ∉ seen)
    (hpoint' : ∀ name entry, .point name entry ∉ seen') : Expands seen seen' where
  shown name entry hmem := absurd hmem (hpoint name entry)
  covered name _ := fun ⟨entry, hmem, _⟩ => absurd hmem (hpoint' name entry)
  disputed name hmem := absurd hmem (hambiguous name)

theorem nil : Expands [] [] := .of_none nofun nofun nofun

theorem moved (h : Expands seen seen') (front : Path) :
    Expands (seen.map (Sighting.moved front)) (seen'.map (Sighting.moved front)) where
  shown name entry hmem := by
    obtain ⟨s, hs, hmoved⟩ := List.mem_map.1 hmem
    cases s <;> cases hmoved
    obtain ⟨entry', hmem', hpath, hcardinality⟩ := h.shown name _ hs
    exact ⟨entry'.moved front, List.mem_map.2 ⟨_, hmem', rfl⟩, congrArg (front ++ ·) hpath,
      hcardinality⟩
  covered name path hsighted := by
    obtain ⟨q, rfl, hq⟩ := (sighted_moved front).1 hsighted
    rw [ambiguous_mem_moved, sighted_moved]
    exact (h.covered name q hq).imp_right fun hq' => ⟨q, rfl, hq'⟩
  disputed name hmem := by
    obtain ⟨p, q, hne, hp, hq⟩ := h.disputed name ((ambiguous_mem_moved front).1 hmem)
    exact ⟨front ++ p, front ++ q, fun heq => hne (List.append_cancel_left heq),
      (sighted_moved front).2 ⟨p, rfl, hp⟩, (sighted_moved front).2 ⟨q, rfl, hq⟩⟩

theorem sighted (h : Expands seen seen') (hsighted : Sighted seen name path) :
    Sighted seen' name path := by
  obtain ⟨entry, hmem, rfl⟩ := hsighted
  obtain ⟨entry', hmem', hpath, _⟩ := h.shown name entry hmem
  exact ⟨entry', hmem', hpath⟩

theorem disputed_iff (h : Expands seen seen') (hplain : ∀ name, .ambiguous name ∉ seen') :
    Disputed seen name ↔ Disputed seen' name := by
  constructor
  · rintro (hmem | ⟨p, q, hne, hp, hq⟩)
    · exact .inr (h.disputed name hmem)
    · exact .inr ⟨p, q, hne, h.sighted hp, h.sighted hq⟩
  · rintro (hmem | ⟨p, q, hne, hp, hq⟩)
    · exact absurd hmem (hplain name)
    · rcases h.covered name p hp with hmem | hp
      · exact .inl hmem
      · rcases h.covered name q hq with hmem | hq
        · exact .inl hmem
        · exact .inr ⟨p, q, hne, hp, hq⟩

/-- What expands the sightings that a table was made of expands what the table passes on. -/
theorem inheritedPoints {sub : Descriptor} (h : Expands seen seen')
    (htable : sub.table = ofSightings seen) (reference : NodeId) :
    Expands (inheritedPoints sub [] false reference) seen' := by
  have hsums : Sums seen sub.table := htable ▸ sums_ofSightings seen
  have hsorted : sub.table.points.Sorted := htable ▸ sorted_ofSightings seen
  have hambiguous (name : String) :
      .ambiguous name ∈ Survey.inheritedPoints sub [] false reference ↔ Disputed seen name := by
    rw [← hsums.ambiguous, Place.mem_inheritedPoints]
    constructor
    · rintro (⟨_, name', hname', heq⟩ | ⟨_, _, _, heq⟩)
      · cases heq
        exact hname'
      · cases heq
    · intro hname
      exact .inl ⟨rfl, name, hname, rfl⟩
  refine ⟨fun name entry hmem => ?_, fun name path hsighted => ?_, fun name hmem => ?_⟩
  · obtain ⟨_, target, htarget, rfl⟩ := point_of_inheritedPoints hmem
    have hpoint : sub.table.point? name = some target := NameMap.find?_of_mem hsorted htarget
    rw [htable] at hpoint
    exact h.shown name target (sighted_of_point? hpoint)
  · rw [hambiguous]
    by_cases hdisputed : Disputed seen name
    · exact .inl hdisputed
    · rcases h.covered name path hsighted with hmem | hsighted
      · exact absurd (.inl hmem) hdisputed
      · obtain ⟨target, htarget, rfl⟩ :=
          Option.map_eq_some_iff.1 ((hsums.path _ _).2 ⟨hdisputed, hsighted⟩)
        exact .inr ⟨_, Place.mem_inheritedPoints.2
          (.inr ⟨name, target, NameMap.mem_of_find? htarget, rfl⟩), rfl⟩
  · rcases (hambiguous name).1 hmem with hmem | ⟨p, q, hne, hp, hq⟩
    · exact h.disputed name hmem
    · exact ⟨p, q, hne, h.sighted hp, h.sighted hq⟩

end Expands

/-! ## Trees without references -/

theorem Place.Reaches.mem_referencedTemplates {place first : Place} {template : String}
    {point : PointSpec} {attributes : Attributes} (h : Place.Reaches lookup place first)
    (hreference : first.node = .reference template point attributes slots) :
    template ∈ place.node.referencedTemplates :=
  Node.mem_referencedTemplates.2 ⟨_, h.mem_preorder, congrArg Node.referenced? hreference⟩

theorem ambiguous_not_mem_visit (hfree : root.referencedTemplates = []) :
    .ambiguous name ∉ visit lookup owner path detached id root := by
  intro hmem
  obtain ⟨place, hreaches, hnotes⟩ := Place.mem_visit_iff_notes.1 hmem
  cases hnotes with
  | ambiguous _ reference =>
    have hmentioned := hreaches.mem_referencedTemplates reference
    rw [hfree] at hmentioned
    cases hmentioned

/-- What the last segment of a path says of the number of elements. -/
def cardinality? (path : Path) : Option Cardinality :=
  path.getLast?.map fun segment => if segment.key?.isSome then .multiple else .single

theorem cardinality_of_isFixed {pre post : List Footprint} {c : Node} {point : PointSpec}
    (hpoint : c.point? = some point)
    (hfixed : (Placement.between pre post (Footprint.ofNode c)).isFixed) :
    (if (Placement.between pre post (Footprint.ofNode c)).segment.key?.isSome then
      Cardinality.multiple else .single) = point.cardinality := by
  rw [Placement.key?_between]
  -- a repeated node without a name is the one case that is ruled out by the fixed placement
  obtain ⟨id, cardinality, exported⟩ := point
  cases cardinality <;> cases id <;>
    simp_all [Footprint.ofNode, Footprint.key?, Placement.between]

theorem cardinality_of_reaches {place : Place} {point : PointSpec}
    (h : Place.Reaches lookup (.root root) place) (hattached : place.detached = false)
    (hpoint : place.node.point? = some point) :
    place = .root root ∨ cardinality? place.path = some point.cardinality := by
  rcases Relation.ReflTransGen.cases_tail h with heq | ⟨before, _, hstep⟩
  · exact .inl heq
  · right
    have hchild {path : Path} {detached : Bool} {next : NodeId} {pre post : List Node} {c : Node}
        (hattached : (Place.child path detached next pre c post).detached = false)
        (hpoint : c.point? = some point) :
        cardinality? (Place.child path detached next pre c post).path = some point.cardinality := by
      have hfixed := (Bool.or_eq_false_iff.1 hattached).2
      rw [Bool.not_eq_false'] at hfixed
      rw [cardinality?, Place.child, List.getLast?_append, List.getLast?_singleton, Option.some_or,
        Option.map_some, cardinality_of_isFixed hpoint hfixed]
    cases hstep with
    | child => exact hchild hattached hpoint
    | slotChild => exact hchild hattached hpoint

/-- Points of a tree without references that have the same path have the same cardinality. -/
theorem cardinality_of_path (hfree : root.referencedTemplates = []) {name' : String}
    (h : .point name entry ∈ visit lookup owner [] false 0 root)
    (h' : .point name' entry' ∈ visit lookup owner [] false 0 root)
    (hpath : entry.path = entry'.path) : entry.cardinality = entry'.cardinality := by
  have hown {name : String} {entry : PointEntry}
      (h : .point name entry ∈ visit lookup owner [] false 0 root) :
      (entry.path = [] ∧ root.point?.map (·.cardinality) = some entry.cardinality) ∨
        cardinality? entry.path = some entry.cardinality := by
    obtain ⟨place, hreaches, hnoted⟩ := Place.mem_visit_iff.1 h
    obtain ⟨hattached, ⟨point, hpoint, _, rfl⟩ |
      ⟨template, _, _, _, _, _, _, hreference, _⟩⟩ := point_of_noted hnoted
    · refine (cardinality_of_reaches hreaches hattached hpoint).imp_left ?_
      rintro rfl
      exact ⟨rfl, congrArg (Option.map (·.cardinality)) hpoint⟩
    · have hmentioned := hreaches.mem_referencedTemplates hreference
      rw [hfree] at hmentioned
      cases hmentioned
  rcases hown h with ⟨hroot, hcardinality⟩ | hcardinality <;>
    rcases hown h' with ⟨hroot', hcardinality'⟩ | hcardinality'
  · exact Option.some.inj (hcardinality.symm.trans hcardinality')
  · rw [← hpath, hroot] at hcardinality'
    cases hcardinality'
  · rw [hpath, hroot'] at hcardinality
    cases hcardinality
  · rw [hpath] at hcardinality
    exact Option.some.inj (hcardinality.symm.trans hcardinality')

/-- **A table and its expansion.** Sightings and what expands them make tables with the same names,
paths, cardinalities and ambiguous names. -/
theorem Expands.ofSightings (hfree : root.referencedTemplates = [])
    (h : Expands seen (visit lookup owner [] false 0 root)) :
    let table := PointTable.ofSightings seen
    let table' := PointTable.ofSightings (visit lookup owner [] false 0 root)
    table.points.mapValues (fun entry => (entry.path, entry.cardinality)) =
        table'.points.mapValues (fun entry => (entry.path, entry.cardinality)) ∧
      table.ambiguous = table'.ambiguous := by
  intro table table'
  have hsums : Sums seen table := sums_ofSightings _
  have hsums' : Sums _ table' := sums_ofSightings _
  have hdisputed (name : String) : Disputed seen name ↔ Disputed _ name :=
    h.disputed_iff fun _ => ambiguous_not_mem_visit hfree
  have hambiguous (name : String) : table.isAmbiguous name = table'.isAmbiguous name := by
    rw [Bool.eq_iff_iff, hsums.ambiguous, hsums'.ambiguous, hdisputed]
  have hpath (name : String) : table.path? name = table'.path? name := by
    ext path
    rw [hsums.path, hsums'.path, hdisputed]
    refine and_congr_right fun hclear => ⟨h.sighted, fun hsighted => ?_⟩
    exact (h.covered name path hsighted).resolve_left fun hmem =>
      hclear ((hdisputed name).1 (.inl hmem))
  constructor
  · apply (NameMap.sorted_mapValues (sorted_ofSightings _) _).eq_of_find?
      (NameMap.sorted_mapValues (sorted_ofSightings _) _)
    intro name
    rw [NameMap.find?_mapValues, NameMap.find?_mapValues]
    have hname : (table.point? name).map (·.path) = (table'.point? name).map (·.path) := hpath name
    change (table.point? name).map _ = (table'.point? name).map _
    cases hentry : table.point? name with
    | none =>
      rw [hentry, Option.map_none, eq_comm, Option.map_eq_none_iff] at hname
      rw [hname]
    | some entry =>
      rw [hentry, Option.map_some, eq_comm, Option.map_eq_some_iff] at hname
      obtain ⟨entry', hentry', hsame⟩ := hname
      obtain ⟨shown, hshown, hshownPath, hshownCardinality⟩ :=
        h.shown name entry (sighted_of_point? hentry)
      have hcardinality := cardinality_of_path hfree hshown (sighted_of_point? hentry')
        (hshownPath.trans hsame.symm)
      rw [hentry', Option.map_some, Option.map_some, hsame, ← hcardinality, hshownCardinality]
  · apply (sorted_ambiguous_ofSightings _).eq_of_find? (sorted_ambiguous_ofSightings _)
    intro name
    have hname : (table.ambiguous.find? name).isSome = (table'.ambiguous.find? name).isSome :=
      hambiguous name
    change table.ambiguous.find? name = table'.ambiguous.find? name
    cases hfind : table.ambiguous.find? name <;> cases hfind' : table'.ambiguous.find? name <;>
      simp_all

end Survey
end Stencil
