import Mathlib.Data.List.Basic
import Mathlib.Data.Nat.Init
import Stencil.Proofs.Template.Numbered

/-! # The stored copy of a template

Storing a node appends the rows of its subtree, one for each node, and touches nothing that has been
stored before: the placeholder of the node is filled in when the rows of its children stand behind
it. So a subtree takes consecutive numbers from that of its root on, and each child of a node is
found where the sizes of the children in front of it say. From this every way to look at a stored
template follows: it is read back node by node, it is walked in the order of the numbers, and the
table of the parents is the inverse of the lists of children.
-/
namespace Stencil.Tree
open Node

variable {t : Tree} {node child c : Node} {parent : Option NodeId} {id next p k depth : Nat}
  {children : List Node} {slots : List (String × Slot)} {path : List NodeId}

/-! ## The rows of a subtree -/

/-- Numbers for consecutive siblings, the first of which is numbered `next`. -/
def numberList (next : Nat) : List Node → List NodeId
  | [] => []
  | child :: rest => next :: numberList (next + child.size) rest

def numberSlots (next : Nat) : List (String × Slot) → List (String × SlotOf NodeId)
  | [] => []
  | (name, slot) :: rest =>
    (name, ⟨slot.id, slot.attributes, numberList next slot.children⟩) ::
      numberSlots (next + sizeList slot.children) rest

/-- A node with the numbers of its children, if its own number is `id`. -/
def cellOf (id : Nat) : Node → Cell
  | .text markup => .text markup
  | .element tag point attributes children =>
    .element tag point attributes (numberList (id + 1) children)
  | .reference template point attributes slots =>
    .reference template point attributes (numberSlots (id + 1) slots)

/-- What is stored for a node: its cell, and its parent in the other table. -/
abbrev Row := Cell × Option NodeId

variable {more more' : List Row}

mutual

/-- The rows of a subtree whose root is numbered `id`, in the order of their numbers. -/
def rows (parent : Option NodeId) (id : Nat) : Node → List Row
  | .text markup => [(.text markup, parent)]
  | .element tag point attributes children =>
    (.element tag point attributes (numberList (id + 1) children), parent) ::
      rowsList id (id + 1) children
  | .reference template point attributes slots =>
    (.reference template point attributes (numberSlots (id + 1) slots), parent) ::
      rowsSlots id (id + 1) slots

def rowsList (parent next : Nat) : List Node → List Row
  | [] => []
  | child :: rest => rows (some parent) next child ++ rowsList parent (next + child.size) rest

def rowsSlots (parent next : Nat) : List (String × Slot) → List Row
  | [] => []
  | (_, ⟨_, _, children⟩) :: rest =>
    rowsList parent next children ++ rowsSlots parent (next + sizeList children) rest

end

mutual

theorem length_rows (parent : Option NodeId) (id : Nat) (node : Node) :
    (rows parent id node).length = node.size := by
  cases node with
  | text => rfl
  | element tag point attributes children =>
    rw [rows, List.length_cons, length_rowsList, size_element]
  | reference template point attributes slots =>
    rw [rows, List.length_cons, length_rowsSlots, size_reference]

theorem length_rowsList (parent next : Nat) (children : List Node) :
    (rowsList parent next children).length = sizeList children := by
  cases children with
  | nil => rfl
  | cons child rest =>
    rw [rowsList, List.length_append, length_rows, length_rowsList, sizeList_cons]

theorem length_rowsSlots (parent next : Nat) (slots : List (String × Slot)) :
    (rowsSlots parent next slots).length = (preorderSlots slots).length := by
  match slots with
  | [] => rfl
  | (_, ⟨_, _, children⟩) :: rest =>
    rw [rowsSlots, List.length_append, length_rowsList, length_rowsSlots, preorderSlots,
      List.length_append]
    rfl

end

/-- The tables with more rows at their ends. -/
def append (t : Tree) (more : List Row) : Tree :=
  { t with
    cells := t.cells ++ (more.map (·.1)).toArray
    parents := t.parents ++ (more.map (·.2)).toArray }

theorem append_nil (t : Tree) : t.append [] = t := by
  simp [append]

theorem append_append (t : Tree) (more more' : List Row) :
    (t.append more).append more' = t.append (more ++ more') := by
  simp [append]

theorem size_append (t : Tree) (more : List Row) :
    (t.append more).size = t.size + more.length := by
  simp [append, size]

theorem size_reserve (t : Tree) (parent : Option NodeId) : (t.reserve parent).size = t.size + 1 :=
  Array.size_push ..

theorem put_append_reserve (t : Tree) (parent : Option NodeId) (more : List Row) (cell : Cell) :
    ((t.reserve parent).append more).put t.size cell = t.append ((cell, parent) :: more) := by
  simp [put, reserve, append, size]

/-! ## Storing a subtree -/

mutual

theorem insert_eq (t : Tree) (parent : Option NodeId) (node : Node) :
    t.insert parent node = (t.append (rows parent t.size node), t.size) := by
  cases node with
  | text markup =>
    have hput := put_append_reserve t parent [] (.text markup)
    rw [append_nil] at hput
    rw [insert, rows, ← hput]
  | element tag point attributes children =>
    rw [insert, insertList_eq, size_reserve, rows]
    simp only [put_append_reserve]
  | reference template point attributes slots =>
    rw [insert, insertSlots_eq, size_reserve, rows]
    simp only [put_append_reserve]

theorem insertList_eq (t : Tree) (parent : NodeId) (children : List Node) :
    t.insertList parent children =
      (t.append (rowsList parent t.size children), numberList t.size children) := by
  cases children with
  | nil => rw [insertList, rowsList, numberList, append_nil]
  | cons child rest =>
    rw [insertList, insert_eq]
    dsimp only
    rw [insertList_eq, size_append, length_rows, append_append, rowsList, numberList]

theorem insertSlots_eq (t : Tree) (parent : NodeId) (slots : List (String × Slot)) :
    t.insertSlots parent slots =
      (t.append (rowsSlots parent t.size slots), numberSlots t.size slots) := by
  match slots with
  | [] => rw [insertSlots, rowsSlots, numberSlots, append_nil]
  | (_, ⟨_, _, children⟩) :: rest =>
    rw [insertSlots, insertList_eq]
    dsimp only
    rw [insertSlots_eq, size_append, length_rowsList, append_append, rowsSlots, numberSlots]

end

theorem build_eq (node : Node) : build node = empty.append (rows none 0 node) := by
  rw [build, insert_eq]
  rfl

theorem root_build (node : Node) : (build node).root = 0 := by
  rw [build_eq]
  rfl

theorem size_build (node : Node) : (build node).size = node.size := by
  rw [build_eq, size_append, length_rows]
  exact Nat.zero_add _

/-! ## Stored rows -/

theorem numberList_append (next : Nat) (pre post : List Node) :
    numberList next (pre ++ post) =
      numberList next pre ++ numberList (next + sizeList pre) post := by
  induction pre generalizing next with
  | nil => rfl
  | cons child pre ih =>
    rw [List.cons_append, numberList, numberList, ih, sizeList_cons, Nat.add_assoc,
      List.cons_append]

theorem rowsList_append (parent next : Nat) (pre post : List Node) :
    rowsList parent next (pre ++ post) =
      rowsList parent next pre ++ rowsList parent (next + sizeList pre) post := by
  induction pre generalizing next with
  | nil => rfl
  | cons child pre ih =>
    rw [List.cons_append, rowsList, rowsList, ih, sizeList_cons, Nat.add_assoc, List.append_assoc]

theorem children_numberSlots (next : Nat) (slots : List (String × Slot)) :
    (numberSlots next slots).flatMap (·.2.children) =
      numberList next (slots.flatMap (·.2.children)) := by
  induction slots generalizing next with
  | nil => rfl
  | cons slot rest ih =>
    rw [numberSlots, List.flatMap_cons, ih, List.flatMap_cons, numberList_append]

theorem rowsSlots_eq (parent next : Nat) (slots : List (String × Slot)) :
    rowsSlots parent next slots = rowsList parent next (slots.flatMap (·.2.children)) := by
  induction slots generalizing next with
  | nil => rfl
  | cons slot rest ih => rw [rowsSlots, ih, List.flatMap_cons, rowsList_append]

theorem children_cellOf (id : Nat) (node : Node) :
    (cellOf id node).children = numberList (id + 1) node.childNodes := by
  cases node with
  | text | element => rfl
  | reference => exact children_numberSlots ..

theorem rows_eq (parent : Option NodeId) (id : Nat) (node : Node) :
    rows parent id node = (cellOf id node, parent) :: rowsList id (id + 1) node.childNodes := by
  cases node with
  | text | element => rfl
  | reference => rw [rows, rowsSlots_eq]; rfl

theorem preorderSlots_eq (slots : List (String × Slot)) :
    preorderSlots slots = preorderList (slots.flatMap (·.2.children)) := by
  induction slots with
  | nil => rfl
  | cons slot rest ih => rw [preorderSlots, ih, List.flatMap_cons, preorderList_append]

theorem preorder_eq (node : Node) : node.preorder = node :: preorderList node.childNodes := by
  cases node with
  | text | element => rfl
  | reference => rw [preorder, preorderSlots_eq]; rfl

/-- The rows stand in the tables from the number `id` on. -/
def Stores (t : Tree) (id : Nat) (more : List Row) : Prop :=
  ∀ k row, more[k]? = some row → t.get? (id + k) = some row.1 ∧ t.parent? (id + k) = row.2

theorem Stores.append (h : t.Stores id (more ++ more')) :
    t.Stores id more ∧ t.Stores (id + more.length) more' := by
  constructor
  · intro k row hrow
    exact h k row (by rw [List.getElem?_append_left (List.getElem?_eq_some_iff.1 hrow).1, hrow])
  · intro k row hrow
    have hk := h (more.length + k) row (by
      rw [List.getElem?_append_right (Nat.le_add_right ..), Nat.add_sub_cancel_left, hrow])
    rwa [← Nat.add_assoc] at hk

theorem Stores.root (h : t.Stores id (rows parent id node)) :
    t.get? id = some (cellOf id node) ∧ t.parent? id = parent ∧
      t.Stores (id + 1) (rowsList id (id + 1) node.childNodes) := by
  rw [rows_eq] at h
  obtain ⟨hcell, hparent⟩ := h 0 _ rfl
  have hsplit : t.Stores id
      ([(cellOf id node, parent)] ++ rowsList id (id + 1) node.childNodes) := h
  exact ⟨hcell, hparent, hsplit.append.2⟩

theorem Stores.cons (h : t.Stores next (rowsList p next (child :: children))) :
    t.Stores next (rows (some p) next child) ∧
      t.Stores (next + child.size) (rowsList p (next + child.size) children) := by
  rw [rowsList] at h
  obtain ⟨hchild, hrest⟩ := h.append
  rw [length_rows] at hrest
  exact ⟨hchild, hrest⟩

theorem stores_build (node : Node) : (build node).Stores 0 (rows none 0 node) := by
  intro k row hrow
  rw [build_eq]
  simp [Tree.append, empty, get?, parent?, hrow]

theorem Stores.le_size (h : t.Stores id (rows parent id node)) : id + node.size ≤ t.size := by
  have hpos := node.size_pos
  have hlast : node.size - 1 < (rows parent id node).length := by
    rw [length_rows]
    omega
  have hget := (h (node.size - 1) _ (List.getElem?_eq_getElem hlast)).1
  obtain ⟨hlt, _⟩ := Array.getElem?_eq_some_iff.1 hget
  change id + (node.size - 1) < t.size at hlt
  omega

theorem get?_eq_none (h : t.size ≤ id) : t.get? id = none := Array.getElem?_eq_none h

theorem size_eq (node : Node) : node.size = sizeList node.childNodes + 1 := by
  rw [← length_rows none 0 node, rows_eq, List.length_cons, length_rowsList]

theorem size_lt_of_child (hc : c ∈ node.childNodes) : c.size < node.size := by
  rw [size_eq node]
  exact Nat.lt_succ_of_le (size_le_of_mem hc)

/-! ## Reading back -/

/-- A cell as a node, if the nodes below it are known. -/
def nodeOf (f : NodeId → Option Node) : Cell → Option Node
  | .text markup => some (.text markup)
  | .element tag point attributes ids => (ids.mapM f).map (.element tag point attributes)
  | .reference template point attributes slots =>
    (slots.mapM fun (slot : String × SlotOf NodeId) => (slot.2.children.mapM f).map fun children =>
      (slot.1, ⟨slot.2.id, slot.2.attributes, children⟩)).map (.reference template point attributes)

def read (t : Tree) : Nat → NodeId → Option Node
  | 0, _ => none
  | depth + 1, id => (t.get? id).bind (nodeOf (read t depth))

section
variable {f : NodeId → Option Node}

theorem mapM_numberList (h : t.Stores next (rowsList p next children))
    (hf : ∀ c ∈ children, ∀ id, t.Stores id (rows (some p) id c) → f id = some c) :
    (numberList next children).mapM f = some children := by
  induction children generalizing next with
  | nil => rfl
  | cons child rest ih =>
    obtain ⟨hchild, hrest⟩ := h.cons
    rw [numberList, List.mapM_cons, hf child List.mem_cons_self _ hchild,
      ih hrest fun c hc => hf c (List.mem_cons_of_mem child hc)]
    rfl

theorem mapM_numberSlots (h : t.Stores next (rowsSlots p next slots))
    (hf : ∀ c ∈ slots.flatMap (·.2.children), ∀ id, t.Stores id (rows (some p) id c) →
      f id = some c) :
    (numberSlots next slots).mapM (fun slot => (slot.2.children.mapM f).map fun children =>
      (slot.1, (⟨slot.2.id, slot.2.attributes, children⟩ : Slot))) = some slots := by
  induction slots generalizing next with
  | nil => rfl
  | cons slot rest ih =>
    rw [List.flatMap_cons] at hf
    obtain ⟨hchildren, hrest⟩ := Stores.append h
    rw [length_rowsList] at hrest
    rw [numberSlots, List.mapM_cons, mapM_numberList hchildren fun c hc => hf c
      (List.mem_append_left _ hc), ih hrest fun c hc => hf c (List.mem_append_right _ hc)]
    rfl

theorem nodeOf_cellOf (h : t.Stores id (rows parent id node))
    (hf : ∀ c ∈ node.childNodes, ∀ n, t.Stores n (rows (some id) n c) → f n = some c) :
    nodeOf f (cellOf id node) = some node := by
  obtain ⟨_, _, hbelow⟩ := h.root
  cases node with
  | text => rfl
  | element tag point attributes children =>
    have hchildren : (numberList (id + 1) children).mapM f = some children :=
      mapM_numberList hbelow hf
    rw [cellOf, nodeOf, hchildren, Option.map_some]
  | reference template point attributes slots =>
    have hslots : t.Stores (id + 1) (rowsSlots id (id + 1) slots) := by rwa [rowsSlots_eq]
    rw [cellOf, nodeOf, mapM_numberSlots hslots hf, Option.map_some]

end

theorem read_eq (h : t.Stores id (rows parent id node)) (hdepth : node.size ≤ depth) :
    t.read depth id = some node := by
  induction node using Node.induct generalizing depth id parent with
  | step node ih =>
    cases depth with
    | zero => exact absurd hdepth (Nat.not_le_of_lt node.size_pos)
    | succ depth =>
      rw [read, h.root.1, Option.bind_some]
      refine nodeOf_cellOf h fun c hc n hn => ih c hc hn ?_
      exact Nat.le_of_lt_succ (Nat.lt_of_lt_of_le (size_lt_of_child hc) hdepth)

/-! ## Walking -/

def childIds (t : Tree) (id : NodeId) : List NodeId := ((t.get? id).map Cell.children).getD []

/-- The numbers met from `id` on down to `depth` levels, each in front of those below it. -/
def walk (t : Tree) : Nat → NodeId → List NodeId
  | 0, _ => []
  | depth + 1, id => id :: (t.childIds id).flatMap (walk t depth)

theorem Stores.childIds_eq (h : t.Stores id (rows parent id node)) :
    t.childIds id = numberList (id + 1) node.childNodes := by
  rw [childIds, h.root.1, Option.map_some, Option.getD_some, children_cellOf]

theorem flatMap_numberList {f : NodeId → List NodeId}
    (h : t.Stores next (rowsList p next children))
    (hf : ∀ c ∈ children, ∀ id, t.Stores id (rows (some p) id c) → f id = List.range' id c.size) :
    (numberList next children).flatMap f = List.range' next (sizeList children) := by
  induction children generalizing next with
  | nil => rfl
  | cons child rest ih =>
    obtain ⟨hchild, hrest⟩ := h.cons
    rw [numberList, List.flatMap_cons, hf child List.mem_cons_self _ hchild,
      ih hrest fun c hc => hf c (List.mem_cons_of_mem child hc), sizeList_cons,
      List.range'_append_1]

theorem walk_eq (h : t.Stores id (rows parent id node)) (hdepth : node.size ≤ depth) :
    t.walk depth id = List.range' id node.size := by
  induction node using Node.induct generalizing depth id parent with
  | step node ih =>
    cases depth with
    | zero => exact absurd hdepth (Nat.not_le_of_lt node.size_pos)
    | succ depth =>
      rw [walk, h.childIds_eq, flatMap_numberList h.root.2.2 fun c hc n hn => ih c hc hn
        (Nat.le_of_lt_succ (Nat.lt_of_lt_of_le (size_lt_of_child hc) hdepth)), size_eq node,
        List.range'_succ]

/-! ## Parents -/

theorem exists_child (h : t.Stores next (rowsList p next children)) (hle : next ≤ k)
    (hlt : k < next + sizeList children) :
    ∃ c ∈ children, ∃ n, n ∈ numberList next children ∧ t.Stores n (rows (some p) n c) ∧
      n ≤ k ∧ k < n + c.size ∧ (preorderList children)[k - next]? = c.preorder[k - n]? := by
  induction children generalizing next with
  | nil => exact absurd hlt (Nat.not_lt_of_le hle)
  | cons child rest ih =>
    obtain ⟨hchild, hrest⟩ := h.cons
    rw [sizeList_cons] at hlt
    rw [preorderList, numberList]
    by_cases hk : k < next + child.size
    · refine ⟨child, List.mem_cons_self, next, List.mem_cons_self, hchild, hle, hk, ?_⟩
      exact List.getElem?_append_left (by change _ < child.size; omega)
    · obtain ⟨c, hc, n, hn, hstores, hnk, hkn, hpre⟩ := ih hrest (by omega) (by omega)
      refine ⟨c, List.mem_cons_of_mem child hc, n, List.mem_cons_of_mem next hn, hstores, hnk, hkn,
        ?_⟩
      rw [← hpre, List.getElem?_append_right (by change child.size ≤ _; omega)]
      congr 1
      change k - next - child.size = _
      omega

theorem mem_numberList (h : t.Stores next (rowsList p next children))
    (hk : k ∈ numberList next children) : next ≤ k ∧ t.parent? k = some p := by
  induction children generalizing next with
  | nil => cases hk
  | cons child rest ih =>
    obtain ⟨hchild, hrest⟩ := h.cons
    rcases List.mem_cons.1 hk with rfl | hk
    · exact ⟨Nat.le_refl k, hchild.root.2.1⟩
    · obtain ⟨hle, hparent⟩ := ih hrest hk
      exact ⟨by omega, hparent⟩

theorem Stores.below (h : t.Stores id (rows parent id node)) (hle : id ≤ k)
    (hlt : k < id + node.size) :
    (∃ parent' m, node.preorder[k - id]? = some m ∧ t.Stores k (rows parent' k m)) ∧
      (id < k → ∃ p : Nat, p < k ∧ t.parent? k = some p ∧ k ∈ t.childIds p) := by
  induction node using Node.induct generalizing id parent with
  | step node ih =>
    rcases Nat.eq_or_lt_of_le hle with rfl | hbelow
    · refine ⟨⟨parent, node, ?_, h⟩, fun hid => absurd hid (Nat.lt_irrefl _)⟩
      rw [Nat.sub_self, preorder_eq, List.getElem?_cons_zero]
    · have hsize := size_eq node
      obtain ⟨c, hc, n, hn, hstores, hnk, hkn, hpre⟩ :=
        exists_child h.root.2.2 hbelow (by omega)
      obtain ⟨⟨parent', m, hm, hmstores⟩, hparent⟩ := ih c hc hstores hnk hkn
      refine ⟨⟨parent', m, ?_, hmstores⟩, fun _ => ?_⟩
      · rw [preorder_eq, show k - id = k - (id + 1) + 1 by omega, List.getElem?_cons_succ, hpre, hm]
      · rcases Nat.eq_or_lt_of_le hnk with rfl | hlt
        · exact ⟨id, hbelow, hstores.root.2.1, h.childIds_eq ▸ hn⟩
        · exact hparent hlt

/-! ## Ancestry -/

/-- The numbers on a way from the root down to a node, both included. -/
inductive Path (t : Tree) : NodeId → List NodeId → Prop
  | root : Path t t.root [t.root]
  | child {p c : NodeId} {path : List NodeId} (above : Path t p path) (h : c ∈ t.childIds p) :
      Path t c (path ++ [c])

theorem climb_append (t : Tree) (id : NodeId) (below more : List NodeId) :
    t.climb id (below ++ more) = t.climb id below ++ more := by
  induction id using Nat.strong_induction_on generalizing below with
  | _ id ih =>
    rw [climb, climb]
    cases t.parent? id with
    | none => rfl
    | some p =>
      dsimp only
      split_ifs with hlt
      · exact ih p hlt (id :: below)
      · rfl

theorem ancestry_eq (hlt : ∀ p, t.parent? id = some p → p < id) :
    t.ancestry id =
      match t.parent? id with
      | none => [id]
      | some p => t.ancestry p ++ [id] := by
  rw [ancestry, climb]
  cases hp : t.parent? id with
  | none => rfl
  | some p =>
    dsimp only
    rw [if_pos (hlt p hp)]
    exact climb_append t p [] [id]

/-! ## A built tree -/

/-- A tree that holds what a template does. -/
structure CopyOf (t : Tree) (node : Node) : Prop where
  root : t.root = 0
  size : t.size = node.preorder.length
  /-- Every number is met once on the way through the children, in increasing order. -/
  walk : ∀ depth, t.size ≤ depth → t.walk depth t.root = List.range t.size
  sorted : (∀ template point attributes slots,
      .reference template point attributes slots ∈ node.preorder → NameMap.Sorted slots) →
    ∀ id template point attributes slots,
      t.get? id = some (.reference template point attributes slots) → NameMap.Sorted slots
  parent_iff : ∀ p c, t.parent? c = some p ↔ c ∈ t.childIds p
  parent_lt : ∀ p c, t.parent? c = some p → p < c
  ancestry : ∀ id, t.ancestry id =
    match t.parent? id with
    | none => [id]
    | some p => t.ancestry p ++ [id]
  path_iff : ∀ id < t.size, ∀ path, t.Path id path ↔ path = t.ancestry id
  read_root : ∀ depth, t.size ≤ depth → t.read depth t.root = some node
  read : ∀ depth, t.size ≤ depth → ∀ id, t.read depth id = node.preorder[id]?

theorem exists_row (hk : k < (build node).size) :
    (∃ parent m, node.preorder[k]? = some m ∧ (build node).Stores k (rows parent k m)) ∧
      (0 < k → ∃ p : Nat, p < k ∧ (build node).parent? k = some p ∧
        k ∈ (build node).childIds p) := by
  rw [size_build] at hk
  exact (stores_build node).below (Nat.zero_le k) (by omega)

theorem get?_build {cell : Cell} (h : (build node).get? id = some cell) :
    ∃ m parent, node.preorder[id]? = some m ∧ cell = cellOf id m ∧
      (build node).Stores id (rows parent id m) := by
  have hlt : id < (build node).size := by
    by_contra hge
    rw [get?_eq_none (Nat.le_of_not_lt hge)] at h
    cases h
  obtain ⟨⟨parent, m, hm, hstores⟩, _⟩ := exists_row hlt
  exact ⟨m, parent, hm, Option.some.inj (h.symm.trans hstores.root.1), hstores⟩

theorem parent?_of_mem_childIds (h : k ∈ (build node).childIds p) :
    p < k ∧ (build node).parent? k = some p := by
  cases hcell : (build node).get? p with
  | none => simp [childIds, hcell] at h
  | some cell =>
    obtain ⟨m, parent, _, _, hstores⟩ := get?_build hcell
    rw [hstores.childIds_eq] at h
    exact mem_numberList hstores.root.2.2 h

theorem parent?_build_root (node : Node) : (build node).parent? 0 = none :=
  (stores_build node).root.2.1

theorem parent?_eq_none (h : (build node).size ≤ k) : (build node).parent? k = none := by
  have hnone : (build node).parents[k]? = none := by
    rw [size_build, ← length_rows none 0 node] at h
    rw [build_eq]
    simpa [Tree.append, empty] using h
  rw [parent?, hnone, Option.join_none]

theorem parent?_build_iff :
    (build node).parent? k = some p ↔ k ∈ (build node).childIds p := by
  refine ⟨fun h => ?_, fun h => (parent?_of_mem_childIds h).2⟩
  have hlt : k < (build node).size := by
    by_contra hge
    rw [parent?_eq_none (Nat.le_of_not_lt hge)] at h
    cases h
  have hpos : 0 < k := by
    refine Nat.pos_of_ne_zero fun hk => ?_
    rw [hk, parent?_build_root] at h
    cases h
  obtain ⟨p', _, hp', hmem⟩ := (exists_row hlt).2 hpos
  rw [hp'] at h
  cases h
  exact hmem

theorem parent?_build_lt (h : (build node).parent? k = some p) : p < k :=
  (parent?_of_mem_childIds (parent?_build_iff.1 h)).1

theorem ancestry_build (node : Node) (id : Nat) : (build node).ancestry id =
    match (build node).parent? id with
    | none => [id]
    | some p => (build node).ancestry p ++ [id] :=
  ancestry_eq fun _ hp => parent?_build_lt hp

theorem Path.eq_ancestry (h : (build node).Path id path) : path = (build node).ancestry id := by
  induction h with
  | root =>
    rw [ancestry_build, root_build, parent?_build_root]
  | @child p c path _ hc ih => rw [ancestry_build, parent?_build_iff.2 hc, ih]

theorem path_ancestry (h : id < (build node).size) :
    (build node).Path id ((build node).ancestry id) := by
  induction id using Nat.strong_induction_on with
  | _ id ih =>
    rw [ancestry_build]
    rcases Nat.eq_zero_or_pos id with rfl | hpos
    · rw [parent?_build_root]
      exact root_build node ▸ .root
    · obtain ⟨p, hlt, hparent, hmem⟩ := (exists_row h).2 hpos
      rw [hparent]
      exact .child (ih p hlt (Nat.lt_trans hlt h)) hmem

theorem read_build (hdepth : (build node).size ≤ depth) (id : Nat) :
    (build node).read depth id = node.preorder[id]? := by
  rcases Nat.lt_or_ge id (build node).size with hlt | hge
  · obtain ⟨⟨parent, m, hm, hstores⟩, _⟩ := exists_row hlt
    have hsize := hstores.le_size
    rw [hm, read_eq hstores (by omega)]
  · have hnone : node.preorder[id]? = none :=
      List.getElem?_eq_none (Nat.le_trans (Nat.le_of_eq (size_build node).symm) hge)
    rw [hnone]
    cases depth with
    | zero => rfl
    | succ depth => rw [read, get?_eq_none hge, Option.bind_none]

theorem keys_numberSlots (next : Nat) (slots : List (String × Slot)) :
    (numberSlots next slots).map (·.1) = slots.map (·.1) := by
  induction slots generalizing next with
  | nil => rfl
  | cons slot rest ih => rw [numberSlots, List.map_cons, ih, List.map_cons]

theorem sorted_numberSlots (h : NameMap.Sorted slots) (next : Nat) :
    NameMap.Sorted (numberSlots next slots) := by
  have hkeys : ((numberSlots next slots).map (·.1)).Pairwise (· < ·) := by
    rw [keys_numberSlots]
    exact List.pairwise_map.2 h
  exact List.pairwise_map.1 hkeys

/-- **The stored copy of a template.** -/
theorem copyOf_build (node : Node) : (build node).CopyOf node := by
  refine ⟨root_build node, size_build node, fun depth hdepth => ?_, fun hsorted id => ?_,
    fun p c => parent?_build_iff, fun p c => parent?_build_lt, ancestry_build node,
    fun id hid path => ⟨Path.eq_ancestry, fun h => h ▸ path_ancestry hid⟩,
    fun depth hdepth => ?_, fun depth => read_build⟩
  · rw [size_build] at hdepth ⊢
    rw [root_build, walk_eq (stores_build node) hdepth, List.range_eq_range']
  · rintro template point attributes slots hcell
    obtain ⟨m, _, hm, heq, _⟩ := get?_build hcell
    cases m with
    | text | element => cases heq
    | reference template' point' attributes' slots' =>
      cases heq
      exact sorted_numberSlots (hsorted _ _ _ slots' (List.mem_of_getElem? hm)) _
  · rw [root_build, read_build hdepth, preorder_eq, List.getElem?_cons_zero]

end Stencil.Tree
