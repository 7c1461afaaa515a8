import Stencil.Attributes
import Stencil.NameMap

/-! # Template trees

A template is a tree of nodes. Elements and references may be marked as points: named places that
data binds to when the template is rendered. A reference includes another template by name, and
its slots override points of that template.
-/
namespace Stencil

/-- How many elements a point renders to: at most one, or one per item of a sequence. -/
inductive Cardinality
  | single
  | multiple
  deriving DecidableEq, Inhabited

/-- The point declared at a node; without an `id` the node cannot be addressed. The `exported` mark
is for tools and does not change what is rendered. -/
structure PointSpec where
  id : Option String
  cardinality : Cardinality
  exported : Bool
  deriving DecidableEq, Inhabited

namespace PointSpec

def anonymous : PointSpec := ⟨none, .single, false⟩

def isMultiple (p : PointSpec) : Bool := p.cardinality = .multiple

end PointSpec

/-- The override of one point of a referenced template; `ν` is what stands for a child node. The
`id` exposes the overridden point in the template that holds the reference. -/
structure SlotOf (ν : Type) where
  id : Option String
  attributes : Attributes
  children : List ν

inductive Node
  | text (markup : String)
  | element (tag : String) (point : PointSpec) (attributes : Attributes) (children : List Node)
  | reference (template : String) (point : PointSpec) (attributes : Attributes)
      (slots : List (String × SlotOf Node))

abbrev Slot := SlotOf Node

namespace Node

instance : Inhabited Node := ⟨.text ""⟩

def isText : Node → Bool
  | text _ => true
  | _ => false

/-- The point declared at a node; a text declares none. -/
def point? : Node → Option PointSpec
  | text _ => none
  | element _ point _ _ => some point
  | reference _ point _ _ => some point

/-- The tag of an element, `use` and the name for a reference. -/
def label : Node → String
  | text _ => "#text"
  | element tag _ _ _ => tag
  | reference template _ _ _ => "use " ++ template

mutual

/-- The node and everything below it in document order, slots in the order of their names. -/
def preorder : Node → List Node
  | text markup => [text markup]
  | element tag point attributes children =>
    element tag point attributes children :: preorderList children
  | reference template point attributes slots =>
    reference template point attributes slots :: preorderSlots slots

def preorderList : List Node → List Node
  | [] => []
  | child :: rest => child.preorder ++ preorderList rest

def preorderSlots : List (String × Slot) → List Node
  | [] => []
  | (_, ⟨_, _, children⟩) :: rest => preorderList children ++ preorderSlots rest

end

/-- The number of nodes, slot children included. -/
def size (node : Node) : Nat := node.preorder.length

def sizeList (nodes : List Node) : Nat := (preorderList nodes).length

def referenced? : Node → Option String
  | reference template _ _ _ => some template
  | _ => none

/-- Every template referenced anywhere in the tree, sorted and without repetition. -/
def referencedTemplates (node : Node) : List String :=
  (NameMap.ofList ((node.preorder.filterMap referenced?).map (·, ()))).names

end Node
end Stencil
