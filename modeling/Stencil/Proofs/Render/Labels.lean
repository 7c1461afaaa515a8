import Stencil.Proofs.Live.Outline
import Stencil.Proofs.Render.Elements
import Stencil.Proofs.Template.Plain

/-! # Labelled rendering

`Render.labelled` renders a plain node and puts a label on every element and every marker: the
number of the node it comes from, and its position among the repetitions of every repeated node
around it, its own included. Without the labels it is what `Render.node` emits.
-/
namespace Stencil

/-- Where an emitted element comes from: its node, and the repetition of each repeated node on the
way to it, the outermost first. -/
structure Label where
  node : NodeId
  indices : List Nat
  deriving DecidableEq

/-- A piece with labels on its elements. -/
inductive Labelled
  | raw (markup : String)
  | element (label : Label) (tag : String) (attributes : Attributes) (content : List Labelled)
  | void (label : Label) (tag : String) (attributes : Attributes)
  | marker (label : Label) (message : String)

namespace Labelled

mutual

/-- The piece without its labels. -/
def erase : Labelled → Piece
  | raw markup => .raw markup
  | element _ tag attributes content => .element tag attributes (eraseList content)
  | void _ tag attributes => .void tag attributes
  | marker _ message => .marker message

def eraseList : List Labelled → List Piece
  | [] => []
  | m :: rest => erase m :: eraseList rest

end

def label? : Labelled → Option Label
  | raw _ => none
  | element label _ _ _ => some label
  | void label _ _ => some label
  | marker label _ => some label

def content : Labelled → List Labelled
  | element _ _ _ content => content
  | _ => []

/-- The elements among some pieces. -/
def elements (ms : List Labelled) : List Labelled := ms.filter (·.label?.isSome)

/-- The element children. -/
def inner (m : Labelled) : List Labelled := elements m.content

/-- The label found by going from element child to element child. -/
def labelAt? : List Nat → Labelled → Option Label
  | [], m => m.label?
  | k :: address, m => (m.inner[k]?).bind (labelAt? address)

theorem labelAt?_of_empty {m : Labelled} (h : m.inner = []) {address : List Nat} {label : Label}
    (hl : labelAt? address m = some label) : m.label? = some label := by
  cases address with
  | nil => exact hl
  | cons k address =>
    rw [labelAt?, h] at hl
    cases hl

theorem eraseList_eq (ms : List Labelled) : eraseList ms = ms.map erase := by
  induction ms with
  | nil => rfl
  | cons m ms ih => rw [eraseList, ih, List.map_cons]

theorem elements_append (a b : List Labelled) : elements (a ++ b) = elements a ++ elements b :=
  List.filter_append ..

theorem elements_eq_self {ms : List Labelled} (h : ∀ m ∈ ms, m.label?.isSome) : elements ms = ms :=
  List.filter_eq_self.2 h

/-- The element has the outline. -/
def Pictures (m : Labelled) (o : Outline) : Prop := m.erase.outlines = [o]

theorem pictures_elements (ms : List Labelled) :
    List.Forall₂ Pictures (elements ms) (Piece.outlinesList (eraseList ms)) := by
  induction ms with
  | nil => exact .nil
  | cons m ms ih =>
    rw [eraseList, Piece.outlinesList]
    cases m with
    | raw markup => exact ih
    | element label tag attributes content => exact .cons rfl ih
    | void label tag attributes => exact .cons rfl ih
    | marker label message => exact .cons rfl ih

theorem Pictures.inner {m : Labelled} {o : Outline} (h : m.Pictures o) :
    List.Forall₂ Pictures m.inner o.children := by
  cases m with
  | raw markup => cases h
  | element label tag attributes content =>
    obtain rfl := (List.cons.inj h).1
    exact pictures_elements content
  | void label tag attributes =>
    obtain rfl := (List.cons.inj h).1
    exact .nil
  | marker label message =>
    obtain rfl := (List.cons.inj h).1
    exact .nil

theorem Pictures.taken {m c : Labelled} {o : Outline} {k : Nat} (h : m.Pictures o)
    (hc : m.inner[k]? = some c) : ∃ o', o.children[k]? = some o' ∧ c.Pictures o' := by
  have hinner := h.inner
  obtain ⟨hlt, rfl⟩ := List.getElem?_eq_some_iff.1 hc
  have hlt' : k < o.children.length := hinner.length_eq ▸ hlt
  exact ⟨o.children[k], List.getElem?_eq_getElem hlt', hinner.get hlt hlt'⟩

theorem exists_pictures {m : Labelled} (h : m.label?.isSome) : ∃ o, m.Pictures o := by
  cases m with
  | raw markup => cases h
  | element label tag attributes content => exact ⟨_, rfl⟩
  | void label tag attributes => exact ⟨_, rfl⟩
  | marker label message => exact ⟨_, rfl⟩

end Labelled

namespace Render
open Labelled
variable (settings : Settings)

/-- An element around its content, as in `surround`. -/
def enclose (label : Label) (tag : String) (attributes : Attributes) (content : List Labelled) :
    Labelled :=
  if settings.isVoid tag then .void label tag attributes else .element label tag attributes content

/-- One emission of a node; `inner` renders its children in a stack of scopes. -/
def labelledEmission (label : Label) (tag : String) (point : PointSpec) (attributes : Attributes)
    (scopes : List Record) (inner : List Record → List Labelled) (emission : Emission) : Labelled :=
  let attributes := attributes.merged emission.overrides
  match emission.value with
  | none => enclose settings label tag attributes (inner scopes)
  | some (.scalar markup) => enclose settings label tag attributes [.raw markup]
  | some (.item fields) => enclose settings label tag attributes (inner (fields :: scopes))
  | some (.sequence _) =>
    .marker label ("nested sequence bound to point '" ++ pointLabel point ++ "'")

/-- The repetitions on the way to emission `i` of a point, where `indices` lead to the point. -/
def extended (point : PointSpec) (indices : List Nat) (i : Nat) : List Nat :=
  if point.isMultiple then indices ++ [i] else indices

mutual

/-- What a plain node with the number `id` emits, below the repetitions `indices`. -/
def labelled (id : NodeId) (indices : List Nat) (isRoot : Bool) (scopes : List Record) :
    Node → List Labelled
  | .text markup => [.raw markup]
  | .element tag point attributes children =>
    match emissions point isRoot scopes with
    | .error message => [.marker ⟨id, indices⟩ message]
    | .ok found =>
      found.mapIdx fun i emission =>
        labelledEmission settings ⟨id, extended point indices i⟩ tag point attributes scopes
          (fun scopes => labelledList (id + 1) (extended point indices i) scopes children) emission
  | .reference .. => []

/-- What plain siblings emit, the first of which has the number `next`. -/
def labelledList (next : NodeId) (indices : List Nat) (scopes : List Record) :
    List Node → List Labelled
  | [] => []
  | child :: rest =>
    labelled next indices false scopes child ++
      labelledList (next + child.size) indices scopes rest

end

variable {settings : Settings} {inclusion : Inclusion} {isRoot : Bool} {scopes : List Record}
  {id next : NodeId} {indices : List Nat} {node child : Node} {pre post children : List Node}
  {tag : String} {point : PointSpec} {attributes : Attributes} {m : Labelled} {label : Label}

/-! ## Without labels -/

theorem surround_eq (label : Label) (tag : String) (attributes : Attributes)
    (content : List Labelled) :
    surround settings tag attributes (fun _ => some (eraseList content)) =
      some [(enclose settings label tag attributes content).erase] := by
  unfold surround enclose
  split <;> rfl

theorem mapM_emissions {α : Type} {f : α → Option (List Piece)} {g : Nat → α → Labelled}
    (h : ∀ i a, f a = some [(g i a).erase]) (found : List α) :
    (found.mapM f).map List.flatten = some (eraseList (found.mapIdx g)) := by
  rw [eraseList_eq]
  induction found generalizing g with
  | nil => rfl
  | cons a found ih =>
    have hrest := ih (g := fun i => g (i + 1)) fun i a => h (i + 1) a
    obtain ⟨rest, hmap, hflat⟩ := Option.map_eq_some_iff.1 hrest
    rw [List.mapM_cons, h 0 a, hmap, List.mapIdx_cons, List.map_cons, ← hflat]
    rfl

theorem nodes_eq_erase (hinner : ∀ child ∈ children, ∀ id indices isRoot scopes,
      Render.node settings inclusion isRoot scopes child =
        some (eraseList (labelled settings id indices isRoot scopes child)))
    (next : NodeId) (indices : List Nat) (scopes : List Record) :
    nodes settings inclusion scopes children =
      some (eraseList (labelledList settings next indices scopes children)) := by
  induction children generalizing next with
  | nil => rfl
  | cons child rest ih =>
    refine nodes_cons.2 ⟨_, _, hinner child List.mem_cons_self next indices false scopes,
      ih (fun c hc => hinner c (List.mem_cons_of_mem child hc)) (next + child.size), ?_⟩
    rw [labelledList, eraseList_eq, eraseList_eq, eraseList_eq, List.map_append]

/-- The labels are put on what is rendered, and on all of it. -/
theorem node_eq_erase (h : node.Plain settings) (inclusion : Inclusion) (id : NodeId)
    (indices : List Nat) (isRoot : Bool) (scopes : List Record) :
    Render.node settings inclusion isRoot scopes node =
      some (eraseList (labelled settings id indices isRoot scopes node)) := by
  induction h generalizing id indices isRoot scopes with
  | text h => rfl
  | @element tag point attributes children _ _ _ _ _ ih =>
    have hinner := nodes_eq_erase ih
    rw [Render.node, labelled]
    cases emissions point isRoot scopes with
    | error message => rfl
    | ok found =>
      refine mapM_emissions (fun i emission => ?_) found
      unfold labelledEmission
      cases emission.value with
      | none =>
        simp only [hinner (id + 1) (extended point indices i) scopes]
        exact surround_eq ..
      | some value =>
        cases value with
        | scalar markup => exact surround_eq _ _ _ [.raw markup]
        | item fields =>
          simp only [hinner (id + 1) (extended point indices i) (fields :: scopes)]
          exact surround_eq ..
        | sequence items => rfl

end Render
end Stencil
