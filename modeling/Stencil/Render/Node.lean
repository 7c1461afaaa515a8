import Stencil.Render.Binding
import Stencil.Render.Piece

/-! # Rendering nodes

A node is rendered in a stack of scopes. A scalar replaces the content of an element, an item is a
scope for it. A reference renders the root of the template it names in a scope of its own, which
holds what the reference and its slots bind; the template around the reference is out of reach.

How the named templates render is a parameter, so the recursion here is on the tree alone. `none`
says that some inclusion does not come to an end.
-/
namespace Stencil.Render

/-- What references include: nothing for a name that is not registered, and otherwise what the root
of that template emits in a scope. -/
abbrev Inclusion := String → Option (Record → Option (List Piece))

/-- Includes the templates that a registry knows, each as it is expanded. -/
def including {Template : Type} (known : String → Option Template)
    (expand : Template → Record → Option (List Piece)) : Inclusion :=
  fun name => (known name).map expand

/-- An element around its content; the content of a void tag is left out and need not come to an
end. -/
def surround (settings : Settings) (tag : String) (attributes : Attributes)
    (content : Unit → Option (List Piece)) : Option (List Piece) :=
  if settings.isVoid tag then some [.void tag attributes]
  else (content ()).map fun content => [.element tag attributes content]

def bindAttributes (scope : Record) (point : String) (attributes : Attributes) : Record :=
  if attributes.isEmpty then scope else scope.setAttributes point attributes

/-- What a reference binds to the root of its template. -/
def rootScope (attributes : Attributes) (value : Option Value) : Record :=
  let scope := bindAttributes [] rootKey attributes
  match value with
  | none => scope
  | some value => scope.insert rootKey value

variable (settings : Settings) (inclusion : Inclusion)

mutual

/-- What a node emits; the root of a template is also bound by the root key. -/
def node (isRoot : Bool) (scopes : List Record) : Node → Option (List Piece)
  | .text markup => some [.raw markup]
  | .element tag point attributes children =>
    match emissions point isRoot scopes with
    | .error message => some [.marker message]
    | .ok found =>
      (found.mapM fun (emission : Emission) =>
        let attributes := attributes.merged emission.overrides
        match emission.value with
        | none => surround settings tag attributes fun _ => nodes scopes children
        | some (.scalar markup) => surround settings tag attributes fun _ => some [.raw markup]
        | some (.item fields) =>
          surround settings tag attributes fun _ => nodes (fields :: scopes) children
        | some (.sequence _) =>
          some [.marker ("nested sequence bound to point '" ++ pointLabel point ++ "'")]).map
        List.flatten
  | .reference template point attributes slots =>
    match inclusion template with
    | none => some [.marker ("template '" ++ template ++ "' is not registered")]
    | some expand =>
      match emissions point isRoot scopes with
      | .error message => some [.marker message]
      | .ok found =>
        (found.mapM fun (emission : Emission) =>
          let scope := rootScope (attributes.merged emission.overrides) emission.value
          match emission.value with
          | some (.scalar _) => expand scope
          | some (.item fields) => (bindSlots (fields :: scopes) scope slots).bind expand
          | _ => (bindSlots scopes scope slots).bind expand).map
          List.flatten

def nodes (scopes : List Record) : List Node → Option (List Piece)
  | [] => some []
  | child :: rest => do
    let here ← node false scopes child
    let later ← nodes scopes rest
    return here ++ later

/-- Adds to `scope` what slots bind. A slot binds the value of its id, or the markup of its children
if there is no value; an item is a scope for the children, if there are any. -/
def bindSlots (scopes : List Record) (scope : Record) : List (String × Slot) → Option Record
  | [] => some scope
  | (point, ⟨id, attributes, children⟩) :: rest =>
    let value := id.bind (lookup scopes)
    let overrides := (id.bind fun id => lookup scopes (attributeKey id)).bind (·.attributesAt none)
    let scope := bindAttributes scope point (attributes.merged overrides)
    let markup (scopes : List Record) : Option Value :=
      (nodes scopes children).map fun pieces => .scalar (Piece.writeList settings.quote pieces)
    match value, children.isEmpty with
    | none, true => bindSlots scopes scope rest
    | none, false => do bindSlots scopes (scope.insert point (← markup scopes)) rest
    | some (.item fields), false => do
      bindSlots scopes (scope.insert point (← markup (fields :: scopes))) rest
    | some value, _ => bindSlots scopes (scope.insert point value) rest

end

/-- The markup of nodes that are rendered apart from their parent. -/
def fragment (scopes : List Record) (children : List Node) : Option String :=
  (nodes settings inclusion scopes children).map (Piece.writeList settings.quote)

end Stencil.Render
