import Stencil.Data.Value
import Stencil.Template.Node

/-! # Binding data to nodes

Scopes are searched from the innermost outwards. What is bound to a point decides how often its node
is emitted: a sequence once per item, and only at a repeated point; anything else once; and a
repeated point without a value not at all.
-/
namespace Stencil.Render

/-- The value of a key in the innermost scope that has it; the innermost scope comes first. -/
def lookup (scopes : List Record) (key : String) : Option Value :=
  scopes.findSome? (NameMap.find? · key)

/-- What is bound to a node: a value, and attribute overrides that are not yet decoded. -/
structure Binding where
  value : Option Value
  overrides : Option Value

/-- A node is bound by its name, and the root of a template before that by the root key. -/
def bound (point : PointSpec) (isRoot : Bool) (scopes : List Record) : Binding :=
  let value := point.id.bind (lookup scopes)
  let overrides := point.id.bind fun id => lookup scopes (attributeKey id)
  if isRoot then
    ⟨(lookup scopes rootKey).or value, (lookup scopes (attributeKey rootKey)).or overrides⟩
  else ⟨value, overrides⟩

/-- One emission of a node: the value bound to it, and attributes to lay over its own. -/
structure Emission where
  value : Option Value
  overrides : Option Attributes

/-- A point as it is named in messages. -/
def pointLabel (point : PointSpec) : String := point.id.getD rootKey

/-- The emissions of a node, or why it cannot be emitted. Overrides in a sequence go with the
repetitions by their positions; an item of overrides holds for all of them. -/
def emissions (point : PointSpec) (isRoot : Bool) (scopes : List Record) :
    Except String (List Emission) :=
  let ⟨value, overrides⟩ := bound point isRoot scopes
  let whole := overrides.bind (·.attributesAt none)
  match point.cardinality, value with
  | .single, some (.sequence _) =>
    .error ("sequence bound to single point '" ++ pointLabel point ++ "'")
  | .multiple, none => .ok []
  | .multiple, some (.sequence items) =>
    .ok (items.mapIdx fun i item => ⟨some item, overrides.bind (·.attributesAt (some i))⟩)
  | _, value => .ok [⟨value, whole⟩]

end Stencil.Render
