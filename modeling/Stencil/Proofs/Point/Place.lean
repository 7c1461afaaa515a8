import Mathlib.Logic.Relation
import Stencil.Proofs.Point.Placement
import Stencil.Proofs.Template.Numbered

/-! # Where the survey goes

The survey goes from place to place: from an element to its children, and from a reference to the
children of those slots whose point the referenced template has. It comes to each node at most once.
What it sees is what it notes at the places it comes to.
-/
namespace Stencil.Survey
variable {lookup : String → Option Descriptor} {owner template : String} {path : Path}
  {detached : Bool} {next reference : NodeId} {children : List Node} {placements : List Placement}
  {slots : List (String × Slot)} {sub : Descriptor} {s : Sighting}

/-- A node with its number, and the path on which the survey comes to it. -/
structure Place where
  path : Path
  detached : Bool
  id : NodeId
  node : Node

namespace Place

/-- The place of the root of a template. -/
def root (node : Node) : Place := ⟨[], false, 0, node⟩

/-- A child between its siblings, the first of which has the number `next`; `path` leads to their
parent. -/
def child (path : Path) (detached : Bool) (next : NodeId) (pre : List Node) (c : Node)
    (post : List Node) : Place :=
  let placement := Placement.between (pre.map Footprint.ofNode) (post.map Footprint.ofNode)
    (Footprint.ofNode c)
  ⟨path ++ [placement.segment], detached || !placement.isFixed, next + Node.sizeList pre, c⟩

variable (lookup) in
/-- One step of the survey. -/
inductive Visits (place : Place) : Place → Prop
  | child {tag : String} {point : PointSpec} {attributes : Attributes}
      {children pre post : List Node} {c : Node}
      (element : place.node = .element tag point attributes children)
      (split : children = pre ++ c :: post) :
      Visits place (.child place.path place.detached (place.id + 1) pre c post)
  | slotChild {template : String} {point : PointSpec} {attributes : Attributes} {sub : Descriptor}
      {target : PointEntry} {slots before after : List (String × Slot)} {slot : String × Slot}
      {pre post : List Node} {c : Node}
      (reference : place.node = .reference template point attributes slots)
      (among : slots = before ++ slot :: after) (registered : lookup template = some sub)
      (listed : sub.table.point? slot.1 = some target)
      (split : slot.2.children = pre ++ c :: post) :
      Visits place (.child (place.path ++ target.path) place.detached
        (place.id + 1 + (Node.preorderSlots before).length) pre c post)

variable (lookup) in
/-- The places that the survey comes to from a place on. -/
abbrev Reaches : Place → Place → Prop := Relation.ReflTransGen (Visits lookup)

variable {place first second : Place}

/-! ## Each node once -/

def last (place : Place) : NodeId := place.id + place.node.size

/-- The number is that of a node at or below the place. -/
def Covers (place : Place) (id : NodeId) : Prop := place.id ≤ id ∧ id < place.last

theorem Visits.numbered {root : Node} {next : Place} (h : Visits lookup place next)
    (hplace : root.Numbered place.id place.node) : root.Numbered next.id next.node := by
  cases h with
  | child element split =>
    rw [element, split] at hplace
    exact hplace.of_child
  | slotChild reference among _ _ split =>
    rw [reference, among] at hplace
    exact hplace.of_slotChild split

theorem Reaches.numbered {node : Node} (h : Reaches lookup (root node) place) :
    node.Numbered place.id place.node := by
  induction h with
  | refl => exact node.numbered_root
  | tail _ hstep ih => exact hstep.numbered ih

theorem Visits.inside {next : Place} (h : Visits lookup place next) :
    place.id < next.id ∧ next.last ≤ place.last := by
  cases h with
  | child element split =>
    simp only [Place.child, last, element, split, Node.size_element, Node.sizeList_append,
      Node.sizeList_cons, NodeId]
    omega
  | slotChild reference among _ _ split =>
    simp only [Place.child, last, reference, among, Node.size_reference,
      Node.length_preorderSlots_append, split, Node.sizeList_append, Node.sizeList_cons, NodeId]
    omega

theorem Reaches.inside (h : Reaches lookup place first) :
    place.id ≤ first.id ∧ first.last ≤ place.last := by
  induction h with
  | refl => exact ⟨Nat.le_refl _, Nat.le_refl _⟩
  | tail _ hstep ih =>
    have hinside := hstep.inside
    simp only [NodeId] at *
    omega

theorem child_unique {pre pre' post post' : List Node} {c c' : Node} {id : NodeId}
    (h : pre ++ c :: post = pre' ++ c' :: post')
    (hid : (child path detached next pre c post).Covers id)
    (hid' : (child path detached next pre' c' post').Covers id) :
    child path detached next pre c post = child path detached next pre' c' post' := by
  simp only [child, Covers, last, NodeId] at hid hid'
  rcases Node.split_cases h with ⟨rfl, rfl, rfl⟩ | ⟨mid, rfl⟩ | ⟨mid, rfl⟩
  · rfl
  · rw [Node.sizeList_append, Node.sizeList_cons] at hid'
    omega
  · rw [Node.sizeList_append, Node.sizeList_cons] at hid
    omega

/-- Two steps from one place to nodes that share a number come to the same place. -/
theorem Visits.unique {id : NodeId} (h : Visits lookup place first)
    (h' : Visits lookup place second) (hid : first.Covers id) (hid' : second.Covers id) :
    first = second := by
  cases h with
  | child element split =>
    cases h' with
    | child element' split' =>
      cases element.symm.trans element'
      exact child_unique (split.symm.trans split') hid hid'
    | slotChild reference' => cases element.symm.trans reference'
  | slotChild reference among registered listed split =>
    cases h' with
    | child element' => cases reference.symm.trans element'
    | slotChild reference' among' registered' listed' split' =>
      cases reference.symm.trans reference'
      cases registered.symm.trans registered'
      rcases Node.split_cases (among.symm.trans among') with
        ⟨rfl, rfl, rfl⟩ | ⟨mid, rfl⟩ | ⟨mid, rfl⟩
      · cases listed.symm.trans listed'
        exact child_unique (split.symm.trans split') hid hid'
      · simp only [Place.child, Covers, last, Node.length_preorderSlots_append, split,
          Node.sizeList_append, Node.sizeList_cons, NodeId] at hid hid'
        omega
      · simp only [Place.child, Covers, last, Node.length_preorderSlots_append, split',
          Node.sizeList_append, Node.sizeList_cons, NodeId] at hid hid'
        omega

/-- The survey comes to a node with one path. -/
theorem Reaches.unique (h : Reaches lookup place first) (h' : Reaches lookup place second)
    (hid : first.id = second.id) : first = second := by
  have hpos := first.node.size_pos
  have hpos' := second.node.size_pos
  induction h using Relation.ReflTransGen.head_induction_on with
  | refl =>
    rcases h'.cases_head with heq | ⟨next, hstep, hrest⟩
    · exact heq
    · have hlt := hstep.inside.1
      have hle := Reaches.inside hrest
      simp only [NodeId] at *
      omega
  | @head place next hstep hrest ih =>
    have hle := Reaches.inside hrest
    rcases h'.cases_head with rfl | ⟨next', hstep', hrest'⟩
    · have hlt := hstep.inside.1
      simp only [NodeId] at *
      omega
    · have hle' := Reaches.inside hrest'
      have hin : next.Covers first.id := by
        simp only [Covers, last, NodeId] at *
        omega
      have hin' : next'.Covers first.id := by
        simp only [Covers, last, NodeId] at *
        omega
      obtain rfl := hstep.unique hstep' hin hin'
      exact ih hrest'

/-! ## What is seen -/

variable (lookup owner)

def seen (place : Place) : List Sighting :=
  visit lookup owner place.path place.detached place.id place.node

def slotSightings (template : String) (sub : Descriptor) (path : Path) (detached : Bool)
    (reference : NodeId) (slot : String × Slot) : List Sighting :=
  match sub.table.point? slot.1 with
  | none => [.unknownSlot template slot.1]
  | some target =>
    slot.2.id.toList.map fun name => sight detached name (through reference path slot.1 target)

/-- What the survey notes at a place itself. -/
def noted (place : Place) : List Sighting :=
  match place.node with
  | .text _ => []
  | .element _ point _ _ => ownPoint owner place.path place.detached place.id point
  | .reference template point _ slots =>
    ownPoint owner place.path place.detached place.id point ++
      match lookup template with
      | none => [.unresolved template]
      | some sub =>
        inheritedPoints sub place.path place.detached place.id ++
          slots.flatMap (slotSightings template sub place.path place.detached place.id)

variable {lookup owner}

theorem mem_visitList :
    s ∈ visitList lookup owner path detached next placements children ↔
      ∃ pre c post placement, children = pre ++ c :: post ∧
        placements[pre.length]? = some placement ∧
        s ∈ visit lookup owner (path ++ [placement.segment]) (detached || !placement.isFixed)
          (next + Node.sizeList pre) c := by
  induction children generalizing next placements with
  | nil => cases placements <;> simp [visitList]
  | cons child rest ih =>
    cases placements with
    | nil => simp [visitList]
    | cons placement placements =>
      rw [visitList, List.mem_append, ih]
      constructor
      · rintro (h | ⟨pre, c, post, placement', rfl, hplacement, h⟩)
        · exact ⟨[], child, rest, placement, rfl, rfl, h⟩
        · refine ⟨child :: pre, c, post, placement', rfl, hplacement, ?_⟩
          rw [Node.sizeList_cons, ← Nat.add_assoc]
          exact h
      · rintro ⟨pre, c, post, placement', hsplit, hplacement, h⟩
        cases pre with
        | nil =>
          cases hsplit
          cases hplacement
          exact .inl h
        | cons child' pre =>
          cases hsplit
          rw [Node.sizeList_cons, ← Nat.add_assoc] at h
          exact .inr ⟨pre, c, post, placement', rfl, hplacement, h⟩

theorem mem_visitList_iff :
    s ∈ visitList lookup owner path detached next
        (Placement.ofFootprints (children.map Footprint.ofNode)) children ↔
      ∃ pre c post, children = pre ++ c :: post ∧
        s ∈ (child path detached next pre c post).seen lookup owner := by
  have hplaced (pre post : List Node) (c : Node) :
      (Placement.ofFootprints ((pre ++ c :: post).map Footprint.ofNode))[pre.length]? =
        some (Placement.between (pre.map Footprint.ofNode) (post.map Footprint.ofNode)
          (Footprint.ofNode c)) := by
    have hlength : pre.length = (pre.map Footprint.ofNode).length := (List.length_map _).symm
    rw [List.map_append, List.map_cons, hlength, Placement.getElem?_ofFootprints]
  rw [mem_visitList]
  constructor
  · rintro ⟨pre, c, post, placement, rfl, hplacement, h⟩
    rw [hplaced] at hplacement
    cases hplacement
    exact ⟨pre, c, post, rfl, h⟩
  · rintro ⟨pre, c, post, rfl, h⟩
    exact ⟨pre, c, post, _, rfl, hplaced pre post c, h⟩

theorem mem_visitSlots_cons {slot : String × Slot} {rest : List (String × Slot)} :
    s ∈ visitSlots lookup owner template sub path detached reference next (slot :: rest) ↔
      (s ∈ slotSightings template sub path detached reference slot ∨
        ∃ target, sub.table.point? slot.1 = some target ∧
          s ∈ visitList lookup owner (path ++ target.path) detached next
            (Placement.ofFootprints (slot.2.children.map Footprint.ofNode)) slot.2.children) ∨
      s ∈ visitSlots lookup owner template sub path detached reference
        (next + Node.sizeList slot.2.children) rest := by
  obtain ⟨name, slotId, attributes, children⟩ := slot
  rw [visitSlots, List.mem_append]
  apply or_congr_left
  cases htarget : sub.table.point? name with
  | none => simp [slotSightings, htarget]
  | some target => cases slotId <;> simp [slotSightings, htarget, through]

/-- What is seen at slots is noted at one of them, or it is seen in the content of one. -/
theorem mem_visitSlots_iff :
    s ∈ visitSlots lookup owner template sub path detached reference next slots ↔
      (∃ slot ∈ slots, s ∈ slotSightings template sub path detached reference slot) ∨
        ∃ before slot after target, slots = before ++ slot :: after ∧
          sub.table.point? slot.1 = some target ∧
          s ∈ visitList lookup owner (path ++ target.path) detached
            (next + (Node.preorderSlots before).length)
            (Placement.ofFootprints (slot.2.children.map Footprint.ofNode)) slot.2.children := by
  induction slots generalizing next with
  | nil => simp [visitSlots]
  | cons slot rest ih =>
    have hnext (before : List (String × Slot)) :
        next + (Node.preorderSlots (slot :: before)).length =
          next + Node.sizeList slot.2.children + (Node.preorderSlots before).length := by
      rw [Node.preorderSlots, List.length_append, ← Nat.add_assoc]
      rfl
    rw [mem_visitSlots_cons, ih]
    constructor
    · rintro ((h | ⟨target, htarget, h⟩) | ⟨slot', hslot, h⟩ |
        ⟨before, slot', after, target, rfl, htarget, h⟩)
      · exact .inl ⟨slot, List.mem_cons_self, h⟩
      · exact .inr ⟨[], slot, rest, target, rfl, htarget, h⟩
      · exact .inl ⟨slot', List.mem_cons_of_mem _ hslot, h⟩
      · exact .inr ⟨slot :: before, slot', after, target, rfl, htarget, hnext before ▸ h⟩
    · rintro (⟨slot', hslot, h⟩ | ⟨before, slot', after, target, hsplit, htarget, h⟩)
      · rcases List.mem_cons.1 hslot with rfl | hslot
        · exact .inl (.inl h)
        · exact .inr (.inl ⟨slot', hslot, h⟩)
      · cases before with
        | nil =>
          cases hsplit
          exact .inl (.inr ⟨target, htarget, h⟩)
        | cons slot' before =>
          cases hsplit
          rw [hnext] at h
          exact .inr (.inr ⟨before, _, after, target, rfl, htarget, h⟩)

/-- What is seen at a place is noted there, or it is seen one step further. -/
theorem mem_seen_iff_step :
    s ∈ place.seen lookup owner ↔
      s ∈ place.noted lookup owner ∨ ∃ next, Visits lookup place next ∧
        s ∈ next.seen lookup owner := by
  obtain ⟨path, detached, id, node⟩ := place
  cases node with
  | text markup =>
    constructor
    · nofun
    · rintro (h | ⟨_, hstep, _⟩)
      · cases h
      · cases hstep <;> contradiction
  | element tag point attributes children =>
    rw [seen, visit, List.mem_append, noted, mem_visitList_iff]
    apply or_congr_right
    constructor
    · rintro ⟨pre, c, post, hsplit, h⟩
      exact ⟨_, .child rfl hsplit, h⟩
    · rintro ⟨_, hstep, h⟩
      cases hstep with
      | child element split =>
        cases element
        exact ⟨_, _, _, split, h⟩
      | slotChild reference => cases reference
  | reference template point attributes slots =>
    rw [seen, visit, List.mem_append, noted, List.mem_append, or_assoc]
    apply or_congr_right
    cases hsub : lookup template with
    | none =>
      constructor
      · exact .inl
      · rintro (h | ⟨_, hstep, _⟩)
        · exact h
        · cases hstep with
          | child element => cases element
          | slotChild reference _ registered =>
            cases reference
            rw [hsub] at registered
            cases registered
    | some sub =>
      simp only [List.mem_append, mem_visitSlots_iff, List.mem_flatMap, or_assoc]
      apply or_congr_right
      apply or_congr_right
      constructor
      · rintro ⟨before, slot, after, target, hamong, htarget, h⟩
        obtain ⟨pre, c, post, hsplit, h⟩ := mem_visitList_iff.1 h
        exact ⟨_, .slotChild rfl hamong hsub htarget hsplit, h⟩
      · rintro ⟨_, hstep, h⟩
        cases hstep with
        | child element => cases element
        | slotChild reference among registered listed split =>
          cases reference
          cases hsub.symm.trans registered
          exact ⟨_, _, _, _, among, listed, mem_visitList_iff.2 ⟨_, _, _, split, h⟩⟩

theorem Visits.mem_childNodes {next : Place} (h : Visits lookup place next) :
    next.node ∈ place.node.childNodes := by
  cases h with
  | child element split =>
    rw [element, split]
    exact List.mem_append_right _ List.mem_cons_self
  | slotChild reference among _ _ split =>
    rw [reference, among]
    apply Node.mem_childNodes_of_slot (List.mem_append_right _ List.mem_cons_self)
    rw [split]
    exact List.mem_append_right _ List.mem_cons_self

theorem Reaches.mem_preorder (h : Reaches lookup place first) :
    first.node ∈ place.node.preorder := by
  induction h using Relation.ReflTransGen.head_induction_on with
  | refl => exact Node.mem_preorder_self _
  | head hstep _ ih => exact Node.mem_preorder_of_child hstep.mem_childNodes ih

theorem mem_seen_iff :
    s ∈ place.seen lookup owner ↔
      ∃ reached, Reaches lookup place reached ∧ s ∈ reached.noted lookup owner := by
  constructor
  · intro h
    obtain ⟨path, detached, id, node⟩ := place
    induction node using Node.induct generalizing path detached id with
    | step node ih =>
      rcases mem_seen_iff_step.1 h with h | ⟨next, hstep, h⟩
      · exact ⟨_, .refl, h⟩
      · obtain ⟨reached, hrest, h⟩ := ih next.node hstep.mem_childNodes _ _ _ h
        exact ⟨reached, .head hstep hrest, h⟩
  · rintro ⟨reached, hreaches, h⟩
    induction hreaches using Relation.ReflTransGen.head_induction_on with
    | refl => exact mem_seen_iff_step.2 (.inl h)
    | head hstep _ ih => exact mem_seen_iff_step.2 (.inr ⟨_, hstep, ih⟩)

theorem mem_visit_iff {id : NodeId} {node : Node} :
    s ∈ visit lookup owner path detached id node ↔
      ∃ reached, Reaches lookup ⟨path, detached, id, node⟩ reached ∧
        s ∈ reached.noted lookup owner := by
  rw [← mem_seen_iff, seen]

/-! ## Further on -/

theorem Visits.grows {next : Place} (h : Visits lookup place next) :
    place.path <+: next.path ∧ (next.detached = false → place.detached = false) := by
  have hfixed {a b : Bool} (hor : (a || b) = false) : a = false := (Bool.or_eq_false_iff.1 hor).1
  cases h with
  | child => exact ⟨List.prefix_append _ _, hfixed⟩
  | slotChild =>
    exact ⟨(List.prefix_append _ _).trans (List.prefix_append _ _), hfixed⟩

theorem Reaches.grows (h : Reaches lookup place first) :
    place.path <+: first.path ∧ (first.detached = false → place.detached = false) := by
  induction h with
  | refl => exact ⟨List.prefix_refl _, fun h => h⟩
  | tail _ hstep ih => exact ⟨ih.1.trans hstep.grows.1, fun h => ih.2 (hstep.grows.2 h)⟩

end Place
end Stencil.Survey
