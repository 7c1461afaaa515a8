import Stencil.Proofs.NameMap
import Stencil.Template.Node

/-! # The names in a tree

A tree looks up data by the names of its points and slots, and it includes the templates that its
references name. Both are collected over the whole tree, so what a child mentions its parent
mentions.
-/
namespace Stencil.Node
variable {name : String} {point : PointSpec} {node m c : Node} {children : List Node}
  {slots : List (String × Slot)} {slot : String × Slot}

/-- The children of an element, or of all slots of a reference. -/
def childNodes : Node → List Node
  | text _ => []
  | element _ _ _ children => children
  | reference _ _ _ slots => slots.flatMap (·.2.children)

theorem sizeOf_childNodes (h : c ∈ node.childNodes) : sizeOf c < sizeOf node := by
  cases node with
  | text => cases h
  | element tag point attributes children =>
    have : sizeOf c < sizeOf children := List.sizeOf_lt_of_mem h
    simp only [element.sizeOf_spec]
    omega
  | reference template point attributes slots =>
    obtain ⟨⟨name, id, attributes', children⟩, hslot, hc⟩ := List.mem_flatMap.1 h
    have := List.sizeOf_lt_of_mem hslot
    have := List.sizeOf_lt_of_mem hc
    simp only [Prod.mk.sizeOf_spec, SlotOf.mk.sizeOf_spec, reference.sizeOf_spec] at *
    omega

@[elab_as_elim]
theorem induct {motive : Node → Prop}
    (step : ∀ node, (∀ c ∈ node.childNodes, motive c) → motive node) (node : Node) : motive node :=
  step node fun c hc =>
    have := sizeOf_childNodes hc
    induct step c
termination_by sizeOf node

theorem mem_childNodes_of_slot (hslot : slot ∈ slots) (hc : c ∈ slot.2.children) (template : String)
    (point : PointSpec) (attributes : Attributes) :
    c ∈ (reference template point attributes slots).childNodes :=
  List.mem_flatMap.2 ⟨slot, hslot, hc⟩

/-! ## The nodes of a tree -/

theorem mem_preorderList : m ∈ preorderList children ↔ ∃ c ∈ children, m ∈ c.preorder := by
  induction children with
  | nil => simp [preorderList]
  | cons c rest ih => simp [preorderList, ih]

theorem preorderList_append (pre post : List Node) :
    preorderList (pre ++ post) = preorderList pre ++ preorderList post := by
  induction pre with
  | nil => rfl
  | cons c pre ih => rw [List.cons_append, preorderList, preorderList, ih, List.append_assoc]

theorem preorderSlots_append (pre : List (String × Slot)) (slot : String × Slot)
    (post : List (String × Slot)) :
    preorderSlots (pre ++ slot :: post) =
      preorderSlots pre ++ (preorderList slot.2.children ++ preorderSlots post) := by
  induction pre with
  | nil => rfl
  | cons s pre ih =>
    rw [List.cons_append, preorderSlots, ih, preorderSlots, List.append_assoc]

theorem mem_preorderSlots :
    m ∈ preorderSlots slots ↔ ∃ slot ∈ slots, ∃ c ∈ slot.2.children, m ∈ c.preorder := by
  induction slots with
  | nil => simp [preorderSlots]
  | cons slot rest ih => simp [preorderSlots, ih, mem_preorderList]

theorem mem_preorder_iff :
    m ∈ node.preorder ↔ m = node ∨ ∃ c ∈ node.childNodes, m ∈ c.preorder := by
  cases node with
  | text => simp [preorder, childNodes]
  | element => simp [preorder, childNodes, mem_preorderList]
  | reference =>
    simp only [preorder, childNodes, List.mem_cons, mem_preorderSlots, List.mem_flatMap]
    apply or_congr_right
    constructor
    · rintro ⟨slot, hslot, c, hc, h⟩
      exact ⟨c, ⟨slot, hslot, hc⟩, h⟩
    · rintro ⟨c, ⟨slot, hslot, hc⟩, h⟩
      exact ⟨slot, hslot, c, hc, h⟩

theorem mem_preorder_self (node : Node) : node ∈ node.preorder := mem_preorder_iff.2 (.inl rfl)

theorem mem_preorder_of_child (hc : c ∈ node.childNodes) (h : m ∈ c.preorder) :
    m ∈ node.preorder := mem_preorder_iff.2 (.inr ⟨c, hc, h⟩)

/-! ## Names of points and slots -/

def ownNames : Node → List String
  | text _ => []
  | element _ point _ _ => point.id.toList
  | reference _ point _ slots => point.id.toList ++ slots.filterMap (·.2.id)

/-- The names of the points and slots of a tree, once for each place. -/
def names (node : Node) : List String := node.preorder.flatMap ownNames

theorem mem_names_of_mem (hm : m ∈ node.preorder) (h : name ∈ m.ownNames) : name ∈ node.names :=
  List.mem_flatMap.2 ⟨m, hm, h⟩

theorem mem_names_of_own (h : name ∈ node.ownNames) : name ∈ node.names :=
  mem_names_of_mem (mem_preorder_self node) h

theorem mem_names_of_child (hc : c ∈ node.childNodes) (h : name ∈ c.names) : name ∈ node.names := by
  obtain ⟨m, hm, hname⟩ := List.mem_flatMap.1 h
  exact mem_names_of_mem (mem_preorder_of_child hc hm) hname

theorem names_element (tag : String) (point : PointSpec) (attributes : Attributes)
    (children : List Node) :
    (element tag point attributes children).names =
      point.id.toList ++ children.flatMap names := by
  have hlist : (preorderList children).flatMap ownNames = children.flatMap names := by
    induction children with
    | nil => rfl
    | cons c rest ih => rw [preorderList, List.flatMap_append, ih, List.flatMap_cons, names]
  rw [names, preorder, List.flatMap_cons, hlist, ownNames]

theorem mem_ownNames_of_point (hpoint : node.point? = some point) (h : point.id = some name) :
    name ∈ node.ownNames := by
  cases node with
  | text => cases hpoint
  | element =>
    cases hpoint
    simp [ownNames, h]
  | reference =>
    cases hpoint
    simp [ownNames, h]

theorem mem_names_of_point (hpoint : node.point? = some point) (h : point.id = some name) :
    name ∈ node.names := mem_names_of_own (mem_ownNames_of_point hpoint h)

theorem mem_ownNames_of_slot (hslot : slot ∈ slots) (h : slot.2.id = some name) (template : String)
    (point : PointSpec) (attributes : Attributes) :
    name ∈ (reference template point attributes slots).ownNames :=
  List.mem_append_right _ (List.mem_filterMap.2 ⟨slot, hslot, h⟩)

theorem mem_names_of_slot (hslot : slot ∈ slots) (h : slot.2.id = some name) (template : String)
    (point : PointSpec) (attributes : Attributes) :
    name ∈ (reference template point attributes slots).names :=
  mem_names_of_own (mem_ownNames_of_slot hslot h ..)

/-! ## Referenced templates -/

theorem mem_referencedTemplates :
    name ∈ node.referencedTemplates ↔ ∃ m ∈ node.preorder, m.referenced? = some name := by
  rw [referencedTemplates, NameMap.mem_names_ofList, List.map_map, List.mem_map]
  simp only [List.mem_filterMap, Function.comp_apply, exists_eq_right]

theorem mem_referencedTemplates_of_own (h : node.referenced? = some name) :
    name ∈ node.referencedTemplates :=
  mem_referencedTemplates.2 ⟨node, mem_preorder_self node, h⟩

theorem mem_referencedTemplates_of_child (hc : c ∈ node.childNodes)
    (h : name ∈ c.referencedTemplates) : name ∈ node.referencedTemplates := by
  obtain ⟨m, hm, hname⟩ := mem_referencedTemplates.1 h
  exact mem_referencedTemplates.2 ⟨m, mem_preorder_of_child hc hm, hname⟩

/-- A reference to the template stands in the tree: at its root, below an element, or in a slot. -/
inductive Mentions (name : String) : Node → Prop
  | here (point : PointSpec) (attributes : Attributes) (slots : List (String × Slot)) :
      Mentions name (reference name point attributes slots)
  | element {c : Node} {children : List Node} (tag : String) (point : PointSpec)
      (attributes : Attributes) (hc : c ∈ children) (h : Mentions name c) :
      Mentions name (element tag point attributes children)
  | slot {c : Node} {slots : List (String × Slot)} {slot : String × Slot} (template : String)
      (point : PointSpec) (attributes : Attributes) (hslot : slot ∈ slots)
      (hc : c ∈ slot.2.children) (h : Mentions name c) :
      Mentions name (reference template point attributes slots)

/-- The templates that are collected are those that the tree mentions. -/
theorem mem_referencedTemplates_iff : name ∈ node.referencedTemplates ↔ node.Mentions name := by
  constructor
  · intro h
    induction node using induct with
    | step node ih =>
      obtain ⟨m, hm, hname⟩ := mem_referencedTemplates.1 h
      rcases mem_preorder_iff.1 hm with rfl | ⟨c, hc, hm⟩
      · cases m with
        | text | element => cases hname
        | reference template point attributes slots =>
          cases hname
          exact .here point attributes slots
      · have hchild := ih c hc (mem_referencedTemplates.2 ⟨m, hm, hname⟩)
        cases node with
        | text => cases hc
        | element tag point attributes children => exact .element tag point attributes hc hchild
        | reference template point attributes slots =>
          obtain ⟨slot, hslot, hc⟩ := List.mem_flatMap.1 hc
          exact .slot template point attributes hslot hc hchild
  · intro h
    induction h with
    | here => exact mem_referencedTemplates_of_own rfl
    | element tag point attributes hc _ ih => exact mem_referencedTemplates_of_child hc ih
    | slot template point attributes hslot hc _ ih =>
      exact mem_referencedTemplates_of_child
        (mem_childNodes_of_slot hslot hc template point attributes) ih

end Stencil.Node
