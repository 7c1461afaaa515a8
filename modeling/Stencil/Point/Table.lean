import Stencil.Point.Path
import Stencil.Template.Tree

/-! # Point tables

A registered template comes with a table of its points: for each name, which node of which template
it is, and the path to its element. What stands in the way of a point is noted as an issue.
-/
namespace Stencil

/-- How a point came into a table from a referenced template: through the node `reference` of this
template, where the referenced template knows it as `point`. -/
structure Inherited where
  reference : NodeId
  point : String
  deriving DecidableEq

structure PointEntry where
  /-- The template whose tree holds the point. -/
  owner : String
  /-- The node of the owner's tree. -/
  node : NodeId
  cardinality : Cardinality
  path : Path
  inherited : Option Inherited

inductive Issue
  | unresolvedTemplate (template : String)
  | ambiguousPoint (point : String)
  | unknownSlot (template point : String)
  | unaddressablePoint (point : String)
  deriving DecidableEq

def Issue.message : Issue → String
  | unresolvedTemplate template => "template '" ++ template ++ "' is referenced but not registered"
  | ambiguousPoint point => "point '" ++ point ++ "' is reachable through more than one path"
  | unknownSlot template point =>
    "template '" ++ template ++ "' has no point '" ++ point ++ "' to override"
  | unaddressablePoint point =>
    "point '" ++ point ++
      "' shares its parent with several repeated points and has no fixed position"

/-- What a walk over a template tree comes across, in order. -/
inductive Sighting
  | point (name : String) (entry : PointEntry)
  /-- A point below a child without a fixed position. -/
  | unaddressable (name : String)
  /-- A name that is ambiguous in a referenced template. -/
  | ambiguous (name : String)
  | unresolved (template : String)
  | unknownSlot (template point : String)

/-- The points of a template, the names that lead to several places, and the issues found. -/
structure PointTable where
  points : NameMap PointEntry
  ambiguous : NameMap Unit
  issues : List Issue

namespace PointTable

def empty : PointTable := ⟨[], [], []⟩

def point? (t : PointTable) (name : String) : Option PointEntry := t.points.find? name

def isAmbiguous (t : PointTable) (name : String) : Bool := t.ambiguous.contains name

def report (t : PointTable) (issue : Issue) : PointTable :=
  if issue ∈ t.issues then t else { t with issues := t.issues ++ [issue] }

/-- Takes a name out of the table for good. -/
def markAmbiguous (t : PointTable) (name : String) : PointTable :=
  let t := { t with points := t.points.erase name }
  if t.isAmbiguous name then t
  else { t with ambiguous := t.ambiguous.insert name () }.report (.ambiguousPoint name)

/-- A name seen at the place it already has changes nothing; a second place makes it ambiguous. -/
def record (t : PointTable) : Sighting → PointTable
  | .point name entry =>
    if t.isAmbiguous name then t
    else
      match t.point? name with
      | none => { t with points := t.points.insert name entry }
      | some known => if known.path = entry.path then t else t.markAmbiguous name
  | .unaddressable name => t.report (.unaddressablePoint name)
  | .ambiguous name => t.markAmbiguous name
  | .unresolved template => t.report (.unresolvedTemplate template)
  | .unknownSlot template point => t.report (.unknownSlot template point)

def ofSightings (sightings : List Sighting) : PointTable := sightings.foldl record empty

end PointTable

/-- A registered template. -/
structure Descriptor where
  name : String
  root : Node
  table : PointTable

namespace Descriptor

def tree (d : Descriptor) : Tree := Tree.build d.root

def dependencies (d : Descriptor) : List String := d.root.referencedTemplates

end Descriptor
end Stencil
