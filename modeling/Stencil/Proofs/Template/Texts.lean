import Mathlib.Logic.Relation
import Stencil.Proofs.Template.Names

/-! # Texts in a tree

Texts can be put in and taken out among the children of elements and slots. Trees that differ in
nothing but such texts come to the same tree when all of them are left out, and they reference the
same templates.
-/
namespace Stencil.Node

/-- The second tree is the first with a text put in among the children of an element or a slot. -/
inductive Inserts : Node → Node → Prop
  | child (tag : String) (point : PointSpec) (attributes : Attributes) (pre post : List Node)
      (markup : String) :
      Inserts (element tag point attributes (pre ++ post))
        (element tag point attributes (pre ++ text markup :: post))
  | slotChild (template : String) (point : PointSpec) (attributes : Attributes)
      (before after : List (String × Slot)) (name : String) (id : Option String)
      (slotAttributes : Attributes) (pre post : List Node) (markup : String) :
      Inserts
        (reference template point attributes
          (before ++ (name, ⟨id, slotAttributes, pre ++ post⟩) :: after))
        (reference template point attributes
          (before ++ (name, ⟨id, slotAttributes, pre ++ text markup :: post⟩) :: after))
  | belowChild {c c' : Node} (tag : String) (point : PointSpec) (attributes : Attributes)
      (pre post : List Node) (h : Inserts c c') :
      Inserts (element tag point attributes (pre ++ c :: post))
        (element tag point attributes (pre ++ c' :: post))
  | belowSlotChild {c c' : Node} (template : String) (point : PointSpec) (attributes : Attributes)
      (before after : List (String × Slot)) (name : String) (id : Option String)
      (slotAttributes : Attributes) (pre post : List Node) (h : Inserts c c') :
      Inserts
        (reference template point attributes
          (before ++ (name, ⟨id, slotAttributes, pre ++ c :: post⟩) :: after))
        (reference template point attributes
          (before ++ (name, ⟨id, slotAttributes, pre ++ c' :: post⟩) :: after))

mutual

/-- The tree without the texts among children. A text that is the root stays. -/
def withoutTexts : Node → Node
  | text markup => text markup
  | element tag point attributes children =>
    element tag point attributes (withoutTextsList children)
  | reference template point attributes slots =>
    reference template point attributes (withoutTextsSlots slots)

def withoutTextsList : List Node → List Node
  | [] => []
  | child :: rest =>
    if child.isText then withoutTextsList rest else child.withoutTexts :: withoutTextsList rest

def withoutTextsSlots : List (String × Slot) → List (String × Slot)
  | [] => []
  | (name, ⟨id, attributes, children⟩) :: rest =>
    (name, ⟨id, attributes, withoutTextsList children⟩) :: withoutTextsSlots rest

end

variable {node c root root' : Node} {children pre post : List Node} {slots : List (String × Slot)}

@[simp] theorem point?_withoutTexts (node : Node) : node.withoutTexts.point? = node.point? := by
  cases node <;> rw [withoutTexts] <;> rfl

theorem withoutTextsList_append (pre post : List Node) :
    withoutTextsList (pre ++ post) = withoutTextsList pre ++ withoutTextsList post := by
  induction pre with
  | nil => rfl
  | cons c pre ih =>
    rw [List.cons_append, withoutTextsList, withoutTextsList, ih]
    split
    · rfl
    · rw [List.cons_append]

theorem withoutTextsSlots_append (before after : List (String × Slot)) :
    withoutTextsSlots (before ++ after) = withoutTextsSlots before ++ withoutTextsSlots after := by
  induction before with
  | nil => rfl
  | cons slot before ih =>
    rw [List.cons_append, withoutTextsSlots, withoutTextsSlots, ih, List.cons_append]

theorem Inserts.isText (h : Inserts root root') : root.isText = root'.isText := by
  cases h <;> rfl

theorem Inserts.withoutTexts (h : Inserts root root') : root.withoutTexts = root'.withoutTexts := by
  induction h with
  | child | slotChild =>
    simp only [Node.withoutTexts, withoutTextsList_append, withoutTextsSlots_append,
      withoutTextsList, withoutTextsSlots, Node.isText, if_true]
  | belowChild _ _ _ _ _ h ih | belowSlotChild _ _ _ _ _ _ _ _ _ _ h ih =>
    simp only [Node.withoutTexts, withoutTextsList_append, withoutTextsSlots_append,
      withoutTextsList, withoutTextsSlots, h.isText, ih]

theorem withoutTexts_of_eqvGen (h : Relation.EqvGen Inserts root root') :
    root.withoutTexts = root'.withoutTexts := by
  induction h with
  | rel _ _ h => exact h.withoutTexts
  | refl => rfl
  | symm _ _ _ ih => exact ih.symm
  | trans _ _ _ _ _ ih ih' => exact ih.trans ih'

/-! ## References -/

theorem filterMap_preorderList_withoutTexts
    (h : ∀ c ∈ children,
      c.withoutTexts.preorder.filterMap referenced? = c.preorder.filterMap referenced?) :
    (preorderList (withoutTextsList children)).filterMap referenced? =
      (preorderList children).filterMap referenced? := by
  induction children with
  | nil => rfl
  | cons c rest ih =>
    obtain ⟨hc, hrest⟩ := List.forall_mem_cons.1 h
    rw [withoutTextsList, preorderList, List.filterMap_append]
    split
    · next htext =>
      cases c with
      | text => exact ih hrest
      | element | reference => cases htext
    · rw [preorderList, List.filterMap_append, hc, ih hrest]

theorem filterMap_preorderSlots_withoutTexts
    (h : ∀ slot ∈ slots, ∀ c ∈ slot.2.children,
      c.withoutTexts.preorder.filterMap referenced? = c.preorder.filterMap referenced?) :
    (preorderSlots (withoutTextsSlots slots)).filterMap referenced? =
      (preorderSlots slots).filterMap referenced? := by
  induction slots with
  | nil => rfl
  | cons slot rest ih =>
    obtain ⟨hslot, hrest⟩ := List.forall_mem_cons.1 h
    rw [withoutTextsSlots, preorderSlots, preorderSlots, List.filterMap_append,
      List.filterMap_append, filterMap_preorderList_withoutTexts hslot, ih hrest]

theorem filterMap_preorder_withoutTexts (node : Node) :
    node.withoutTexts.preorder.filterMap referenced? = node.preorder.filterMap referenced? := by
  induction node using induct with
  | step node ih =>
    cases node with
    | text => rw [withoutTexts]
    | element tag point attributes children =>
      rw [withoutTexts, preorder, preorder]
      exact filterMap_preorderList_withoutTexts ih
    | reference template point attributes slots =>
      have hslots := filterMap_preorderSlots_withoutTexts fun slot hslot c hc =>
        ih c (mem_childNodes_of_slot hslot hc template point attributes)
      rw [withoutTexts, preorder, preorder]
      exact congrArg (template :: ·) hslots

@[simp] theorem referencedTemplates_withoutTexts (node : Node) :
    node.withoutTexts.referencedTemplates = node.referencedTemplates := by
  rw [referencedTemplates, referencedTemplates, filterMap_preorder_withoutTexts]

end Stencil.Node
