import Stencil.Live.Fragment

/-! # Live documents

A document stores elements and texts under handles. An element lists its children; the parents are
kept in a table of their own. Handles of recycled nodes are handed out again.

Every operation keeps the nodes a forest: a node stands among the children of its parent, once, and
among no others, and no node is below itself. The walks over a document are cut off after as many
steps as it has nodes, which in a forest is never too early.
-/
namespace Stencil.Live

abbrev Handle := Nat

inductive Content
  | text (text : String)
  | element (tag : String) (attributes : Attributes) (children : List Handle)
  deriving Inhabited

def Content.mapChildren (f : List Handle → List Handle) : Content → Content
  | .text s => .text s
  | .element tag attributes children => .element tag attributes (f children)

structure Document where
  contents : Array Content
  parents : Array (Option Handle)
  /-- Handles to be used again, the next one first. -/
  free : List Handle

namespace Document

def empty : Document := ⟨#[], #[], []⟩

def size (d : Document) : Nat := d.contents.size

def get? (d : Document) (id : Handle) : Option Content := d.contents[id]?

def isElement (d : Document) (id : Handle) : Bool :=
  match d.get? id with
  | some (.element ..) => true
  | _ => false

def tag? (d : Document) (id : Handle) : Option String :=
  match d.get? id with
  | some (.element tag _ _) => some tag
  | _ => none

def attributes? (d : Document) (id : Handle) : Option Attributes :=
  match d.get? id with
  | some (.element _ attributes _) => some attributes
  | _ => none

def attribute? (d : Document) (id : Handle) (key : String) : Option String :=
  (d.attributes? id).bind (·.get? key)

def parent? (d : Document) (id : Handle) : Option Handle := d.parents[id]?.join

def children (d : Document) (id : Handle) : List Handle :=
  match d.get? id with
  | some (.element _ _ children) => children
  | _ => []

def elementChildren (d : Document) (id : Handle) : List Handle :=
  (d.children id).filter d.isElement

/-- Position of an element among the element children of its parent. -/
def elementIndex? (d : Document) (id : Handle) : Option Nat :=
  (d.parent? id).bind fun parent => (d.elementChildren parent).idxOf? id

def alloc (d : Document) (content : Content) : Handle × Document :=
  match d.free with
  | id :: free =>
    (id, ⟨d.contents.setIfInBounds id content, d.parents.setIfInBounds id none, free⟩)
  | [] => (d.size, ⟨d.contents.push content, d.parents.push none, []⟩)

def createElement (d : Document) (tag : String) (attributes : Attributes) : Handle × Document :=
  d.alloc (.element tag attributes [])

def createText (d : Document) (text : String) : Handle × Document := d.alloc (.text text)

def setParent (d : Document) (id : Handle) (parent : Option Handle) : Document :=
  { d with parents := d.parents.setIfInBounds id parent }

def modifyChildren (d : Document) (id : Handle) (f : List Handle → List Handle) : Document :=
  { d with contents := d.contents.modify id (Content.mapChildren f) }

/-- Climbs from `id` to `root` and puts what it passes in front of `below`. -/
def climb (d : Document) (root : Handle) : Nat → Handle → List Handle → Option (List Handle)
  | 0, _, _ => none
  | steps + 1, id, below =>
    if id = root then some (id :: below)
    else
      match d.parent? id with
      | none => none
      | some parent => climb d root steps parent (id :: below)

/-- The nodes from `root` down to `id`, both included; nothing if `id` is not inside `root`. -/
def ancestorChain? (d : Document) (root id : Handle) : Option (List Handle) :=
  d.climb root (d.size + 1) id []

/-- Takes a node with all below it away from its parent. -/
def detach (d : Document) (id : Handle) : Document :=
  match d.parent? id with
  | none => d
  | some parent => (d.modifyChildren parent (·.filter (· != id))).setParent id none

/-- Makes `child` the last child of `parent`, wherever it was before, and says whether it did: not
if `parent` is a text or stands inside `child`. -/
def append (d : Document) (parent child : Handle) : Document × Bool :=
  if !d.isElement parent || (d.ancestorChain? child parent).isSome then (d, false)
  else (((d.detach child).modifyChildren parent (· ++ [child])).setParent child (some parent), true)

def fragmentWithin (d : Document) : Nat → Handle → Fragment
  | 0, _ => .text ""
  | depth + 1, id =>
    match d.get? id with
    | none => .text ""
    | some (.text s) => .text s
    | some (.element tag attributes children) =>
      .element tag attributes (children.map (fragmentWithin d depth))

def fragment (d : Document) (id : Handle) : Fragment := d.fragmentWithin d.size id

def textContent (d : Document) (id : Handle) : String := (d.fragment id).content

def outerMarkup (d : Document) (id : Handle) : String := (d.fragment id).markup

def subtreeWithin (d : Document) : Nat → Handle → List Handle
  | 0, _ => []
  | depth + 1, id => id :: (d.children id).flatMap (subtreeWithin d depth)

/-- A node and all below it in document order. -/
def subtree (d : Document) (id : Handle) : List Handle := d.subtreeWithin d.size id

def recycle (d : Document) (id : Handle) : Document :=
  ⟨d.contents.setIfInBounds id (.text ""), d.parents.setIfInBounds id none, id :: d.free⟩

def pendingWithin (d : Document) : Nat → Handle → List Handle
  | 0, _ => []
  | depth + 1, id => id :: (d.children id).reverse.flatMap (pendingWithin d depth)

/-- Frees a node without a parent and all below it, the last children first. -/
def release (d : Document) (id : Handle) : Document := (d.pendingWithin d.size id).foldl recycle d

end Document
end Stencil.Live
