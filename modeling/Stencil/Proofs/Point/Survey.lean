import Stencil.Proofs.Point.Occurrence

/-! # What the survey of a template sees

A point that is seen is a node of the template at the end of a path, or a point of a template that
is referenced there. Every node on the way has a fixed placement among its siblings.
-/
namespace Stencil.Survey
variable {lookup : String → Option Descriptor} {owner name : String}
  {path : Path} {detached : Bool} {id next : NodeId} {point : PointSpec} {entry : PointEntry}
  {tag : String} {attributes : Attributes} {children : List Node} {placements : List Placement}
  {s : Sighting} {node : Node} {template : String} {sub : Descriptor}
  {slots : List (String × Slot)}

theorem point_of_sight {name' : String} {entry' : PointEntry}
    (h : Sighting.point name entry = sight detached name' entry') :
    detached = false ∧ name = name' ∧ entry = entry' := by
  unfold sight at h
  split at h
  · cases h
  · next hd =>
    obtain ⟨rfl, rfl⟩ := Sighting.point.inj h
    exact ⟨eq_false_of_ne_true hd, rfl, rfl⟩

theorem point_of_ownPoint (h : .point name entry ∈ ownPoint owner path detached id point) :
    detached = false ∧ point.id = some name ∧
      entry = ⟨owner, id, point.cardinality, path, none⟩ := by
  obtain ⟨own, hown, hsight⟩ := Place.mem_ownPoint.1 h
  obtain ⟨hd, rfl, rfl⟩ := point_of_sight hsight
  exact ⟨hd, hown, rfl⟩

theorem point_of_inheritedPoints (h : .point name entry ∈ inheritedPoints sub path detached id) :
    detached = false ∧ ∃ target, (name, target) ∈ sub.table.points ∧
      entry = through id path name target := by
  rcases Place.mem_inheritedPoints.1 h with ⟨_, _, _, hambiguous⟩ | ⟨name', target, hmem, hsight⟩
  · cases hambiguous
  · obtain ⟨hd, rfl, rfl⟩ := point_of_sight hsight
    exact ⟨hd, target, hmem, rfl⟩

theorem point_of_slotSightings {slot : String × Slot}
    (h : .point name entry ∈ Place.slotSightings template sub path detached id slot) :
    detached = false ∧ slot.2.id = some name ∧ ∃ target, sub.table.point? slot.1 = some target ∧
      entry = through id path slot.1 target := by
  rcases Place.mem_slotSightings.1 h with ⟨_, hunknown⟩ | ⟨target, own, htarget, hown, hsight⟩
  · cases hunknown
  · obtain ⟨hd, rfl, rfl⟩ := point_of_sight hsight
    exact ⟨hd, hown, target, htarget, rfl⟩

/-- What is seen at a reference is its own point, a point of the referenced template, or what is
seen at a slot. -/
theorem point_of_reference (h : .point name entry ∈
      visit lookup owner path detached id (.reference template point attributes slots)) :
    .point name entry ∈ ownPoint owner path detached id point ∨
      ∃ sub, lookup template = some sub ∧
        ((detached = false ∧ ∃ target, (name, target) ∈ sub.table.points ∧
            entry = through id path name target) ∨
          ∃ pre slot post target, slots = pre ++ slot :: post ∧
            sub.table.point? slot.1 = some target ∧
            ((detached = false ∧ slot.2.id = some name ∧ entry = through id path slot.1 target) ∨
              .point name entry ∈ visitList lookup owner (path ++ target.path) detached
                (id + 1 + (Node.preorderSlots pre).length)
                (Placement.ofFootprints (slot.2.children.map Footprint.ofNode))
                slot.2.children)) := by
  rw [visit, List.mem_append] at h
  refine h.imp_right fun h => ?_
  cases hsub : lookup template with
  | none => simp [hsub] at h
  | some sub =>
    rw [hsub] at h
    refine ⟨sub, rfl, (List.mem_append.1 h).imp point_of_inheritedPoints fun h => ?_⟩
    rcases Place.mem_visitSlots_iff.1 h with
      ⟨slot, hslot, h⟩ | ⟨before, slot, after, target, hamong, htarget, h⟩
    · obtain ⟨before, after, hamong⟩ := List.append_of_mem hslot
      obtain ⟨hd, hid, target, htarget, hentry⟩ := point_of_slotSightings h
      exact ⟨before, slot, after, target, hamong, htarget, .inl ⟨hd, hid, hentry⟩⟩
    · exact ⟨before, slot, after, target, hamong, htarget, .inr h⟩

theorem noted_of_own {place : Place} (hattached : place.detached = false)
    (hpoint : place.node.point? = some point) (hid : point.id = some name) :
    .point name ⟨owner, place.id, point.cardinality, place.path, none⟩ ∈
      place.noted lookup owner :=
  Place.mem_noted_iff.2 (.point hattached (.own hpoint hid))

theorem point_of_noted {place : Place} (h : .point name entry ∈ place.noted lookup owner) :
    place.detached = false ∧
      ((∃ point, place.node.point? = some point ∧ point.id = some name ∧
          entry = ⟨owner, place.id, point.cardinality, place.path, none⟩) ∨
        ∃ template point attributes slots sub q target,
          place.node = .reference template point attributes slots ∧ lookup template = some sub ∧
          (q, target) ∈ sub.table.points ∧ entry = through place.id place.path q target ∧
          (name = q ∨ ∃ slot, (q, slot) ∈ slots ∧ slot.id = some name)) := by
  cases Place.mem_noted_iff.1 h with
  | point attached offers =>
    refine ⟨attached, ?_⟩
    cases offers with
    | own declared named => exact .inl ⟨_, declared, named, rfl⟩
    | inherited reference registered held =>
      exact .inr ⟨_, _, _, _, _, _, _, reference, registered, held, rfl, .inl rfl⟩
    | renamed reference registered among known named =>
      exact .inr ⟨_, _, _, _, _, _, _, reference, registered, NameMap.mem_of_find? known, rfl,
        .inr ⟨_, among, named⟩⟩

theorem attached_of_point (h : .point name entry ∈ visit lookup owner path detached id node) :
    detached = false := by
  obtain ⟨_, hreaches, hnoted⟩ := Place.mem_visit_iff.1 h
  exact (Place.Reaches.grows hreaches).2 (point_of_noted hnoted).1

theorem point_of_visitList (h : .point name entry ∈ visitList lookup owner path false next
      (Placement.ofFootprints (children.map Footprint.ofNode)) children) :
    ∃ pre child post, children = pre ++ child :: post ∧
      (Placement.between (pre.map Footprint.ofNode) (post.map Footprint.ofNode)
        (Footprint.ofNode child)).isFixed ∧
      .point name entry ∈ visit lookup owner
        (path ++ [(Placement.between (pre.map Footprint.ofNode) (post.map Footprint.ofNode)
          (Footprint.ofNode child)).segment])
        false (next + Node.sizeList pre) child := by
  obtain ⟨pre, child, post, rfl, hs⟩ := Place.mem_visitList_iff.1 h
  have hattached := attached_of_point hs
  rw [Place.seen, hattached] at hs
  refine ⟨pre, child, post, rfl, ?_, hs⟩
  simpa [Place.child] using hattached

theorem point_of_visit
    (h : .point name entry ∈
      visit lookup owner path false id (.element tag point attributes children)) :
    (entry.node = id ∧ entry.path = path ∧ entry.inherited = none) ∨
      ∃ pre child post, children = pre ++ child :: post ∧
        (Placement.between (pre.map Footprint.ofNode) (post.map Footprint.ofNode)
          (Footprint.ofNode child)).isFixed ∧
        .point name entry ∈ visit lookup owner
          (path ++ [(Placement.between (pre.map Footprint.ofNode) (post.map Footprint.ofNode)
            (Footprint.ofNode child)).segment])
          false (id + 1 + Node.sizeList pre) child := by
  rw [visit, List.mem_append] at h
  rcases h with h | h
  · obtain ⟨_, _, rfl⟩ := point_of_ownPoint h
    exact .inl ⟨rfl, rfl, rfl⟩
  · exact .inr (point_of_visitList h)

theorem prefix_of_visit (h : .point name entry ∈ visit lookup owner path detached id node) :
    path <+: entry.path := by
  obtain ⟨_, hreaches, hnoted⟩ := Place.mem_visit_iff.1 h
  apply (Place.Reaches.grows hreaches).1.trans
  rcases (point_of_noted hnoted).2 with
    ⟨_, _, _, rfl⟩ | ⟨_, _, _, _, _, _, _, _, _, _, rfl, _⟩
  · exact List.prefix_refl _
  · exact List.prefix_append _ _

theorem prefix_of_visitList (h : .point name entry ∈
      visitList lookup owner path detached next
        (Placement.ofFootprints (children.map Footprint.ofNode)) children) :
    path <+: entry.path := by
  obtain ⟨_, _, _, _, hs⟩ := Place.mem_visitList_iff.1 h
  exact (List.prefix_append _ _).trans (prefix_of_visit hs)

end Stencil.Survey
