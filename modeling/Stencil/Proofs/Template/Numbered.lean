import Stencil.Proofs.Template.Names
import Stencil.Template.Tree

/-! # The numbers of nodes

Nodes are numbered in document order, those in slots with the children of their reference. The
numbers below a node follow its own without a gap, and those below one child come behind those below
an earlier one.
-/
namespace Stencil.Node
variable {root node child c : Node} {point : PointSpec} {id : NodeId} {tag : String}
  {attributes : Attributes} {pre post children : List Node}

theorem split_cases {α : Type} {a b : α} {pre post pre' post' : List α}
    (h : pre ++ a :: post = pre' ++ b :: post') :
    (pre = pre' ∧ a = b ∧ post = post') ∨ (∃ mid, pre' = pre ++ a :: mid) ∨
      ∃ mid, pre = pre' ++ b :: mid := by
  rcases List.append_eq_append_iff.1 h with ⟨mid, rfl, hmid⟩ | ⟨mid, rfl, hmid⟩
  · cases mid with
    | nil =>
      obtain ⟨rfl, rfl⟩ := List.cons.inj hmid
      exact .inl ⟨(List.append_nil _).symm, rfl, rfl⟩
    | cons x mid =>
      obtain ⟨rfl, _⟩ := List.cons.inj hmid
      exact .inr (.inl ⟨mid, rfl⟩)
  · cases mid with
    | nil =>
      obtain ⟨rfl, rfl⟩ := List.cons.inj hmid
      exact .inl ⟨List.append_nil _, rfl, rfl⟩
    | cons x mid =>
      obtain ⟨rfl, _⟩ := List.cons.inj hmid
      exact .inr (.inr ⟨mid, rfl⟩)

/-! ## How many nodes there are -/

theorem size_element (tag : String) (point : PointSpec) (attributes : Attributes)
    (children : List Node) :
    (element tag point attributes children).size = sizeList children + 1 := rfl

theorem size_reference (template : String) (point : PointSpec) (attributes : Attributes)
    (slots : List (String × Slot)) :
    (reference template point attributes slots).size = (preorderSlots slots).length + 1 := rfl

theorem size_pos (node : Node) : 0 < node.size := by
  cases node <;> exact Nat.succ_pos _

theorem sizeList_cons (child : Node) (rest : List Node) :
    sizeList (child :: rest) = child.size + sizeList rest := List.length_append

theorem sizeList_append (pre post : List Node) :
    sizeList (pre ++ post) = sizeList pre + sizeList post := by
  induction pre with
  | nil => exact (Nat.zero_add _).symm
  | cons child pre ih => rw [List.cons_append, sizeList_cons, sizeList_cons, ih, Nat.add_assoc]

theorem length_preorderSlots_append (before : List (String × Slot)) (slot : String × Slot)
    (after : List (String × Slot)) :
    (preorderSlots (before ++ slot :: after)).length =
      (preorderSlots before).length + sizeList slot.2.children + (preorderSlots after).length := by
  rw [preorderSlots_append, List.length_append, List.length_append, ← Nat.add_assoc]
  rfl

theorem length_le_sizeList (children : List Node) : children.length ≤ sizeList children := by
  induction children with
  | nil => exact Nat.le_refl _
  | cons child rest ih =>
    have hpos := child.size_pos
    rw [sizeList_cons, List.length_cons]
    omega

theorem sizeList_of_split {child' : Node} {pre' post' : List Node}
    (h : pre ++ child :: post = pre' ++ child' :: post') (hlt : pre.length < pre'.length) :
    sizeList pre + child.size ≤ sizeList pre' := by
  rcases split_cases h with ⟨rfl, _⟩ | ⟨mid, rfl⟩ | ⟨mid, rfl⟩
  · exact absurd hlt (Nat.lt_irrefl _)
  · rw [sizeList_append, sizeList_cons]
    omega
  · rw [List.length_append] at hlt
    omega

theorem size_le_of_mem (hc : c ∈ children) : c.size ≤ sizeList children := by
  obtain ⟨pre, post, rfl⟩ := List.append_of_mem hc
  rw [sizeList_append, sizeList_cons]
  omega

theorem sizeList_lt_of_slot {slots : List (String × Slot)} {slot : String × Slot}
    (hslot : slot ∈ slots) (template : String) (point : PointSpec) (attributes : Attributes) :
    sizeList slot.2.children < (reference template point attributes slots).size := by
  obtain ⟨before, after, rfl⟩ := List.append_of_mem hslot
  rw [size_reference, length_preorderSlots_append]
  omega

theorem size_le_of_child (hc : c ∈ node.childNodes) : c.size ≤ node.size := by
  cases node with
  | text => cases hc
  | element tag point attributes children =>
    rw [size_element]
    exact Nat.le_trans (size_le_of_mem hc) (Nat.le_succ _)
  | reference template point attributes slots =>
    obtain ⟨slot, hslot, hc⟩ := List.mem_flatMap.1 hc
    exact Nat.le_trans (size_le_of_mem hc)
      (Nat.le_of_lt (sizeList_lt_of_slot hslot template point attributes))

/-! ## The node with a number -/

/-- The node has the number `id` in the tree of `root`. -/
def Numbered (root : Node) (id : NodeId) (c : Node) : Prop :=
  ∃ pre post, root.preorder = pre ++ c.preorder ++ post ∧ pre.length = id

theorem numbered_root (root : Node) : root.Numbered 0 root := ⟨[], [], by simp, rfl⟩

theorem Numbered.getElem? (h : root.Numbered id c) : root.preorder[id]? = some c := by
  obtain ⟨pre, post, hroot, rfl⟩ := h
  rw [hroot, List.append_assoc, List.getElem?_append_right (Nat.le_refl _), Nat.sub_self]
  cases c <;> rfl

theorem Numbered.below (front back : List Node) (h : root.Numbered id node)
    (hnode : node.preorder = front ++ c.preorder ++ back) :
    root.Numbered (id + front.length) c := by
  obtain ⟨pre, post, hroot, rfl⟩ := h
  exact ⟨pre ++ front, back ++ post, by simp [hroot, hnode], List.length_append⟩

theorem Numbered.of_child
    (h : root.Numbered id (.element tag point attributes (pre ++ child :: post))) :
    root.Numbered (id + 1 + sizeList pre) child := by
  have hbelow := h.below (c := child)
    (.element tag point attributes (pre ++ child :: post) :: preorderList pre)
    (preorderList post) (by
      rw [preorder, preorderList_append, preorderList, List.cons_append, List.cons_append,
        List.append_assoc])
  rwa [List.length_cons, Nat.add_comm _ 1, ← Nat.add_assoc] at hbelow

theorem Numbered.of_slotChild {template : String} {before after : List (String × Slot)}
    {slot : String × Slot} (hslot : slot.2.children = pre ++ child :: post)
    (h : root.Numbered id (.reference template point attributes (before ++ slot :: after))) :
    root.Numbered (id + 1 + (preorderSlots before).length + sizeList pre) child := by
  have hbelow := h.below (c := child)
    (.reference template point attributes (before ++ slot :: after) ::
      (preorderSlots before ++ preorderList pre))
    (preorderList post ++ preorderSlots after) (by
      rw [preorder, preorderSlots_append, hslot, preorderList_append, preorderList]
      simp)
  rw [List.length_cons, List.length_append] at hbelow
  rwa [show id + 1 + (preorderSlots before).length + sizeList pre =
    id + ((preorderSlots before).length + (preorderList pre).length + 1) by
      simp only [sizeList, NodeId]
      omega]

end Stencil.Node
