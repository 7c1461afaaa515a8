import Stencil.Template.Node

/-! # Numbered template trees

The nodes of a template are numbered in document order, the root first; slot children are numbered
with the children of their reference, slots in the order of their names. A `Tree` stores each node
under its number with the numbers of its children, and keeps the numbers of the parents in a table
of its own. A parent is numbered before everything below it, so climbing to the root ends.
-/
namespace Stencil

abbrev NodeId := Nat

/-- A node that holds the numbers of its children. -/
inductive Cell
  | text (markup : String)
  | element (tag : String) (point : PointSpec) (attributes : Attributes) (children : List NodeId)
  | reference (template : String) (point : PointSpec) (attributes : Attributes)
      (slots : List (String × SlotOf NodeId))

namespace Cell

def point? : Cell → Option PointSpec
  | text _ => none
  | element _ point _ _ => some point
  | reference _ point _ _ => some point

/-- The tag of an element, `use` and the name for a reference. -/
def label : Cell → String
  | text _ => "#text"
  | element tag _ _ _ => tag
  | reference template _ _ _ => "use " ++ template

def children : Cell → List NodeId
  | text _ => []
  | element _ _ _ children => children
  | reference _ _ _ slots => slots.flatMap (·.2.children)

end Cell

structure Tree where
  cells : Array Cell
  parents : Array (Option NodeId)
  root : NodeId

namespace Tree

def empty : Tree := ⟨#[], #[], 0⟩

def size (t : Tree) : Nat := t.cells.size

/-- Gives out the next number. A placeholder keeps its place until the numbers of the children are
known. -/
def reserve (t : Tree) (parent : Option NodeId) : Tree :=
  { t with cells := t.cells.push (.text ""), parents := t.parents.push parent }

def put (t : Tree) (id : NodeId) (cell : Cell) : Tree :=
  { t with cells := t.cells.setIfInBounds id cell }

mutual

/-- Stores a node and everything below it, and hands on the number of the node. -/
def insert (t : Tree) (parent : Option NodeId) : Node → Tree × NodeId
  | .text markup =>
    let id := t.size
    ((t.reserve parent).put id (.text markup), id)
  | .element tag point attributes children =>
    let id := t.size
    let (t, ids) := insertList (t.reserve parent) id children
    (t.put id (.element tag point attributes ids), id)
  | .reference template point attributes slots =>
    let id := t.size
    let (t, slots) := insertSlots (t.reserve parent) id slots
    (t.put id (.reference template point attributes slots), id)

def insertList (t : Tree) (parent : NodeId) : List Node → Tree × List NodeId
  | [] => (t, [])
  | child :: rest =>
    let (t, id) := insert t (some parent) child
    let (t, ids) := insertList t parent rest
    (t, id :: ids)

def insertSlots (t : Tree) (parent : NodeId) :
    List (String × Slot) → Tree × List (String × SlotOf NodeId)
  | [] => (t, [])
  | (name, ⟨id, attributes, children⟩) :: rest =>
    let (t, ids) := insertList t parent children
    let (t, slots) := insertSlots t parent rest
    (t, (name, ⟨id, attributes, ids⟩) :: slots)

end

/-- Stores a template, its root first. -/
def build (root : Node) : Tree :=
  let (t, id) := empty.insert none root
  { t with root := id }

def get? (t : Tree) (id : NodeId) : Option Cell := t.cells[id]?

def parent? (t : Tree) (id : NodeId) : Option NodeId := t.parents[id]?.join

/-- Climbs from `id` and puts what it passes in front of `below`. -/
def climb (t : Tree) (id : NodeId) (below : List NodeId) : List NodeId :=
  match t.parent? id with
  | none => id :: below
  | some p => if p < id then climb t p (id :: below) else id :: below
termination_by id

/-- The nodes from the root down to `id`, both included. -/
def ancestry (t : Tree) (id : NodeId) : List NodeId := t.climb id []

def labels (t : Tree) (id : NodeId) : List String :=
  (t.ancestry id).filterMap fun i => (t.get? i).map Cell.label

end Tree
end Stencil
