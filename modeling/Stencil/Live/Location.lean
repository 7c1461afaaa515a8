import Stencil.Live.Document
import Stencil.Registry.Basic

/-! # Points and live elements

`Registry.locate` follows the path of a point down from the element that a template's root was
rendered to. `Registry.reverseLocate` climbs from an element to that root and finds the points that
the element belongs to, each with the repetition index on its path.
-/
namespace Stencil.Live

/-- A point with the repetition indices needed to reach it. -/
structure Selector where
  point : String
  indices : NameMap Nat

namespace Selector

/-- The point itself is taken at its first repetition. -/
def ofPoint (point : String) : Selector := ⟨point, [(point, 0)]⟩

def withIndex (s : Selector) (key : String) (index : Nat) : Selector :=
  { s with indices := s.indices.insert key index }

def atIndex (s : Selector) (index : Nat) : Selector := s.withIndex s.point index

def index? (s : Selector) (key : String) : Option Nat := s.indices.find? key

end Selector

/-- The points that an element belongs to, each with its repetition index. -/
abbrev Location := NameMap Nat

def Document.follow? (d : Document) (selector : Selector) : Path → Handle → Checked (Option Handle)
  | [], id => return some id
  | segment :: path, id => do
    let children := d.elementChildren id
    let index := segment.key?.bind selector.index?
    match (← segment.resolve index children.length).bind (children[·]?) with
    | some child => follow? d selector path child
    | none => return none

/-- The place of an element among the element children of its parent. -/
structure Step where
  index : Nat
  siblings : Nat
  deriving DecidableEq

def Document.step? (d : Document) (parent child : Handle) : Option Step :=
  let siblings := d.elementChildren parent
  (siblings.idxOf? child).map (⟨·, siblings.length⟩)

/-- The steps along a chain of nodes, each the parent of the next; nothing if a text is among the
children. -/
def Document.steps? (d : Document) : List Handle → Option (List Step)
  | parent :: child :: chain =>
    (d.step? parent child).bind fun step => (steps? d (child :: chain)).map (step :: ·)
  | _ => some []

/-- Matches segments with steps, as far as there are both, and gives the repetition index of the last
repeated segment, if there is one. -/
def captureSteps : Path → List Step → Checked (Option (Option Nat))
  | segment :: path, step :: steps => do
    match ← segment.capture step.index step.siblings with
    | some index => return (← captureSteps path steps).map (·.or index)
    | none => return none
  | _, _ => return some none

/-- Whether the steps begin with a path, and with which repetition index. -/
def capturePath (path : Path) (steps : List Step) : Checked (Option (Option Nat)) :=
  if steps.length < path.length then return none else captureSteps path steps

/-- The points whose path is a beginning of the steps. -/
def matchPoints (steps : List Step) : NameMap PointEntry → Checked Location
  | [] => return []
  | (name, entry) :: points => do
    match ← capturePath entry.path steps with
    | some index => return (name, index.getD 0) :: (← matchPoints steps points)
    | none => matchPoints steps points

end Stencil.Live

namespace Stencil.Registry
open Live

/-- The element of a point below `root`, to which the root of template `name` was rendered. -/
def locate (r : Registry) (d : Document) (root : Handle) (name : String) (selector : Selector) :
    Checked (Option Handle) :=
  match (r.get? name).bind (·.table.point? selector.point) with
  | some entry => d.follow? selector entry.path root
  | none => return none

/-- The points of template `name` that `target` or an element above it belongs to; nothing if
`target` is not inside `root`. -/
def reverseLocate (r : Registry) (d : Document) (root : Handle) (name : String)
    (target : Handle) : Checked (Option Location) := do
  match r.get? name, (d.ancestorChain? root target).bind d.steps? with
  | some descriptor, some steps => return some (← matchPoints steps descriptor.table.points)
  | _, _ => return none

end Stencil.Registry
