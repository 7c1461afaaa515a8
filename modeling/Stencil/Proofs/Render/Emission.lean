import Stencil.Render.Node

/-! # Emissions one by one

The emissions of a node follow from the value bound to it and from what its overrides give at an
index. Each of them is then shown on its own: an item is a scope for what stands inside, and how the
inside is rendered in it is a parameter here.
-/
namespace Stencil.Render

/-- The emissions of a point with this value, where `overrides` are read at an index. -/
def emissionsOf (point : PointSpec) (value : Option Value)
    (overrides : Option Nat → Option Attributes) : Except String (List Emission) :=
  match point.cardinality, value with
  | .single, some (.sequence _) =>
    .error ("sequence bound to single point '" ++ pointLabel point ++ "'")
  | .multiple, none => .ok []
  | .multiple, some (.sequence items) =>
    .ok (items.mapIdx fun i item => ⟨some item, overrides (some i)⟩)
  | _, value => .ok [⟨value, overrides none⟩]

/-- The attributes that overrides lay over a node at an index; no overrides lay over none. -/
def overridesAt (overrides : Option Value) (index : Option Nat) : Attributes :=
  (overrides.bind (·.attributesAt index)).getD .empty

theorem emissions_eq (point : PointSpec) (isRoot : Bool) (scopes : List Record) :
    emissions point isRoot scopes = emissionsOf point (bound point isRoot scopes).value
      fun index => (bound point isRoot scopes).overrides.bind (·.attributesAt index) := rfl

/-- The scopes inside an emission, which may bring a scope of its own. -/
def inside (scopes : List Record) : Option Record → List Record
  | none => scopes
  | some fields => fields :: scopes

def emitElement (settings : Settings) (tag : String) (point : PointSpec) (attributes : Attributes)
    (content : Option Record → Option (List Piece)) (emission : Emission) : Option (List Piece) :=
  let attributes := attributes.merged emission.overrides
  match emission.value with
  | none => surround settings tag attributes fun _ => content none
  | some (.scalar markup) => surround settings tag attributes fun _ => some [.raw markup]
  | some (.item fields) => surround settings tag attributes fun _ => content (some fields)
  | some (.sequence _) =>
    some [.marker ("nested sequence bound to point '" ++ pointLabel point ++ "'")]

/-- What one emission of a reference shows; `bind` adds what its slots bind, and `expand` renders
its template. -/
def emitReference (attributes : Attributes) (bind : Option Record → Record → Option Record)
    (expand : Record → Option (List Piece)) (emission : Emission) : Option (List Piece) :=
  let scope := rootScope (attributes.merged emission.overrides) emission.value
  match emission.value with
  | some (.scalar _) => expand scope
  | some (.item fields) => (bind (some fields) scope).bind expand
  | _ => (bind none scope).bind expand

variable (settings : Settings) (inclusion : Inclusion)

def emit (scopes : List Record) : Node → Emission → Option (List Piece)
  | .text markup => fun _ => some [.raw markup]
  | .element tag point attributes children =>
    emitElement settings tag point attributes fun own =>
      nodes settings inclusion (inside scopes own) children
  | .reference template _ attributes slots =>
    match inclusion template with
    | none => fun _ => some [.marker ("template '" ++ template ++ "' is not registered")]
    | some expand =>
      emitReference attributes
        (fun own scope => bindSlots settings inclusion (inside scopes own) scope slots) expand

/-- What all emissions of a node show, where each of them shows what `emit` says. -/
def emitAll (emit : Emission → Option (List Piece)) :
    Except String (List Emission) → Option (List Piece)
  | .error message => some [.marker message]
  | .ok found => (found.mapM emit).map List.flatten

theorem emitAll_congr {f g : Emission → Option (List Piece)} (point : PointSpec)
    (value : Option Value) {overrides overrides' : Option Nat → Option Attributes}
    (h : ∀ value index, f ⟨value, overrides index⟩ = g ⟨value, overrides' index⟩) :
    emitAll f (emissionsOf point value overrides) =
      emitAll g (emissionsOf point value overrides') := by
  unfold emissionsOf
  split
  · rfl
  · rfl
  · refine congrArg (Option.map List.flatten) ?_
    rw [List.mapIdx_eq_zipIdx_map, List.mapIdx_eq_zipIdx_map, List.mapM_map, List.mapM_map]
    congr 1
    exact funext fun _ => h ..
  · refine congrArg (Option.map List.flatten) ?_
    rw [List.mapM_cons, List.mapM_cons, h]
    rfl

theorem merged_eq_merge (a : Attributes) (overrides : Option Attributes) :
    a.merged overrides = a.merge (overrides.getD .empty) := by
  cases overrides <;> rfl

variable {settings inclusion} in
theorem emit_congr_overrides {scopes : List Record} {n : Node} {value : Option Value}
    {overrides overrides' : Option Attributes}
    (h : overrides.getD .empty = overrides'.getD .empty) :
    emit settings inclusion scopes n ⟨value, overrides⟩ =
      emit settings inclusion scopes n ⟨value, overrides'⟩ := by
  have hmerged (a : Attributes) : a.merged overrides = a.merged overrides' := by
    rw [merged_eq_merge, merged_eq_merge, h]
  cases n with
  | text => rfl
  | element tag point attributes children =>
    simp only [emit, emitElement, hmerged]
  | reference template point attributes slots =>
    simp only [emit]
    cases inclusion template with
    | none => rfl
    | some expand => simp only [emitReference, hmerged]

theorem node_element (isRoot : Bool) (scopes : List Record) (tag : String) (point : PointSpec)
    (attributes : Attributes) (children : List Node) :
    node settings inclusion isRoot scopes (.element tag point attributes children) =
      emitAll (emit settings inclusion scopes (.element tag point attributes children))
        (emissions point isRoot scopes) := by
  rw [node]
  cases emissions point isRoot scopes <;> rfl

theorem node_reference_none {template : String} (h : inclusion template = none) (isRoot : Bool)
    (scopes : List Record) (point : PointSpec) (attributes : Attributes)
    (slots : List (String × Slot)) :
    node settings inclusion isRoot scopes (.reference template point attributes slots) =
      some [.marker ("template '" ++ template ++ "' is not registered")] := by
  rw [node, h]

theorem node_reference_some {template : String} {expand : Record → Option (List Piece)}
    (h : inclusion template = some expand) (isRoot : Bool) (scopes : List Record)
    (point : PointSpec) (attributes : Attributes) (slots : List (String × Slot)) :
    node settings inclusion isRoot scopes (.reference template point attributes slots) =
      emitAll (emit settings inclusion scopes (.reference template point attributes slots))
        (emissions point isRoot scopes) := by
  rw [node, emit, h]
  cases emissions point isRoot scopes <;> rfl

variable {settings inclusion} in
theorem node_point {n : Node} {point : PointSpec} (hpoint : n.point? = some point)
    (h : ∀ template, n.referenced? = some template → (inclusion template).isSome) (isRoot : Bool)
    (scopes : List Record) :
    node settings inclusion isRoot scopes n =
      emitAll (emit settings inclusion scopes n) (emissions point isRoot scopes) := by
  cases n with
  | text => cases hpoint
  | element tag point attributes children =>
    cases hpoint
    exact node_element settings inclusion ..
  | reference template point attributes slots =>
    cases hpoint
    obtain ⟨expand, hexpand⟩ := Option.isSome_iff_exists.1 (h template rfl)
    exact node_reference_some settings inclusion hexpand ..

end Stencil.Render
