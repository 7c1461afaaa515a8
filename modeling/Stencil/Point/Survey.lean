import Stencil.Point.Table

/-! # Finding the points of a template

The survey walks a template tree and notes every point with the path to its element. Paths count
the elements that the children of a node render to: a text renders to none, a single element or
reference to one, a repeated point to any number. What precedes the one repeated child of a node is
counted from the front and what follows it from the back; where several children are repeated,
nothing from the first of them onwards has a fixed position. The points of a referenced template
are taken over with the path of the reference in front of theirs.
-/
namespace Stencil

/-- How many elements a child renders to. -/
inductive Footprint
  | none
  | element
  /-- Any number of them, for the point `key`. -/
  | repeated (key : String)
  deriving DecidableEq

namespace Footprint

def takesPlace (f : Footprint) : Bool := f ≠ none

def isRepeated : Footprint → Bool
  | repeated _ => true
  | _ => false

/-- A repeated node without a name never renders, because nothing can be bound to it. -/
def ofNode (node : Node) : Footprint :=
  match node.point? with
  | Option.none => none
  | some point =>
    match point.cardinality, point.id with
    | .single, _ => element
    | .multiple, some key => repeated key
    | .multiple, Option.none => none

end Footprint

/-- The segment that leads to a child, and whether the child has a fixed position at all. -/
structure Placement where
  segment : Segment
  isFixed : Bool
  deriving DecidableEq

namespace Placement

/-- Placements of the children from the one on that `index` elements precede; `elements` of the
siblings take a place and `repetitions` of them are repeated. -/
def follow (elements repetitions index : Nat) (afterRepeated : Bool) :
    List Footprint → List Placement
  | [] => []
  | .none :: rest =>
    ⟨.index index, false⟩ :: follow elements repetitions index afterRepeated rest
  | .element :: rest =>
    let placement : Placement :=
      if afterRepeated then ⟨.fromEnd (elements - index - 1), repetitions == 1⟩
      else ⟨.index index, true⟩
    placement :: follow elements repetitions (index + 1) afterRepeated rest
  | .repeated key :: rest =>
    ⟨.repeated key index (elements - index - 1), repetitions == 1⟩ ::
      follow elements repetitions (index + 1) true rest

def ofFootprints (footprints : List Footprint) : List Placement :=
  follow (footprints.countP Footprint.takesPlace) (footprints.countP Footprint.isRepeated) 0 false
    footprints

end Placement

namespace Survey

/-- A point seen at a place; below a child without a fixed position it cannot be addressed. -/
def sight (detached : Bool) (name : String) (entry : PointEntry) : Sighting :=
  if detached then .unaddressable name else .point name entry

def ownPoint (owner : String) (path : Path) (detached : Bool) (id : NodeId) (point : PointSpec) :
    List Sighting :=
  match point.id with
  | none => []
  | some name => [sight detached name ⟨owner, id, point.cardinality, path, none⟩]

/-- An entry of a referenced template, seen through the reference. -/
def through (reference : NodeId) (path : Path) (name : String) (entry : PointEntry) : PointEntry :=
  { entry with path := path ++ entry.path, inherited := some ⟨reference, name⟩ }

def inheritedPoints (sub : Descriptor) (path : Path) (detached : Bool) (reference : NodeId) :
    List Sighting :=
  (if detached then [] else sub.table.ambiguous.names.map .ambiguous) ++
    sub.table.points.map fun (name, entry) =>
      sight detached name (through reference path name entry)

variable (lookup : String → Option Descriptor) (owner : String)

mutual

/-- What is seen at and below a node that has the number `id` and is reached by `path`. -/
def visit (path : Path) (detached : Bool) (id : NodeId) : Node → List Sighting
  | .text _ => []
  | .element _ point _ children =>
    ownPoint owner path detached id point ++
      visitList path detached (id + 1) (Placement.ofFootprints (children.map Footprint.ofNode))
        children
  | .reference template point _ slots =>
    ownPoint owner path detached id point ++
      match lookup template with
      | none => [.unresolved template]
      | some sub =>
        inheritedPoints sub path detached id ++
          visitSlots template sub path detached id (id + 1) slots

/-- Siblings, the first of which has the number `next`. -/
def visitList (path : Path) (detached : Bool) (next : NodeId) :
    List Placement → List Node → List Sighting
  | placement :: placements, child :: rest =>
    visit (path ++ [placement.segment]) (detached || !placement.isFixed) next child ++
      visitList path detached (next + child.size) placements rest
  | _, _ => []

/-- The slots of a reference to `sub`; the children of the first slot start at the number `next`. -/
def visitSlots (template : String) (sub : Descriptor) (path : Path) (detached : Bool)
    (reference next : NodeId) : List (String × Slot) → List Sighting
  | [] => []
  | (name, ⟨slotId, _, children⟩) :: rest =>
    (match sub.table.point? name with
      | none => [.unknownSlot template name]
      | some target =>
        let entry := through reference path name target
        (match slotId with
          | none => []
          | some id => [sight detached id entry]) ++
          visitList entry.path detached next
            (Placement.ofFootprints (children.map Footprint.ofNode)) children) ++
      visitSlots template sub path detached reference (next + Node.sizeList children) rest

end

end Survey

/-- Compiles a template against the templates registered so far. -/
def Descriptor.compile (lookup : String → Option Descriptor) (name : String) (root : Node) :
    Descriptor :=
  ⟨name, root, PointTable.ofSightings (Survey.visit lookup name [] false 0 root)⟩

end Stencil
