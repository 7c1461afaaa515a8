import Stencil.Proofs.Render.Deepening
import Stencil.Registry.Basic

/-! # Rendering templates

A template is rendered with data as its only scope, and so is the part of it behind a point, which
then counts as a root. A point that comes through a reference is rendered in the template that has
it, with what the reference and its slot supply.

Inclusions nest as deep as they have to. Where that has no end, as in a template that always
includes itself, rendering gives nothing at all.
-/
namespace Stencil.Registry
open Render

/-- What the root of a template emits in a scope. -/
def expand (r : Registry) (d : Descriptor) (scope : Record) : Option (List Piece) :=
  node r.settings (including r.get? (r |>.expand)) true [scope] d.root
partial_fixpoint monotonicity by
  intro f g hle d scope
  have hreaches (d : Descriptor) (scope : Record) : Reaches (f d scope) (g d scope) := by
    intro pieces hpieces
    have hscope := hle d scope
    generalize f d scope = x at hscope hpieces
    generalize g d scope = y at hscope ⊢
    cases hscope with
    | bot => cases hpieces
    | refl => exact hpieces
  have hnode : Reaches (node r.settings (including r.get? f) true [scope] d.root)
      (node r.settings (including r.get? g) true [scope] d.root) :=
    reaches_node hreaches true [scope] d.root
  dsimp only
  cases h : node r.settings (including r.get? f) true [scope] d.root with
  | none => exact .bot
  | some pieces => exact hnode pieces h ▸ .refl

/-- The templates of a registry as references include them. -/
def inclusion (r : Registry) : Inclusion := including r.get? r.expand

def renderRoot (r : Registry) (root : Node) (data : Record) : Option String :=
  (node r.settings r.inclusion true [data] root).map (Piece.writeList r.settings.quote)

/-- What comes of rendering, if it comes to an end. -/
abbrev Rendering := Option (Except TemplateError String)

def render (r : Registry) (name : String) (data : Record) : Rendering :=
  match r.get? name with
  | none => some (.error (.notFound name))
  | some d => (r.renderRoot d.root data).map .ok

/-- Data for the point of a referenced template, with what the reference supplies to it: its own
attributes if the point is the root, and the attributes and content of its slot. What `data` binds
to the root comes first. -/
def suppliedData (r : Registry) (inclusion : Inclusion) (sub : Descriptor)
    (attributes : Attributes) (slots : List (String × Slot)) (point : String) (data : Record) :
    Option Record := do
  let atRoot := (sub.table.point? point).any fun entry => entry.path.isEmpty
  let attributes := if atRoot then attributes else .empty
  let slot := NameMap.find? slots point
  let attributes := attributes.merged (slot.map (·.attributes))
  let children := (slot.map (·.children)).getD []
  let supplied ←
    if data.contains rootKey || children.isEmpty then some data
    else
      (fragment r.settings inclusion [data] children).map fun markup =>
        data.insert rootKey (.scalar markup)
  let overrides := (data.find? (attributeKey rootKey)).bind (·.attributesAt none)
  return bindAttributes supplied rootKey (attributes.merged overrides)

def renderEntry (r : Registry) (d : Descriptor) (point : String) (data : Record) : Rendering :=
  if d.table.isAmbiguous point then some (.error (.ambiguousPoint d.name point))
  else
    match d.table.point? point with
    | none => some (.error (.unknownPoint d.name point))
    | some entry =>
      match entry.inherited with
      | none =>
        match d.root.preorder[entry.node]? with
        | some node => (r.renderRoot node data).map .ok
        | none => some (.error (.unknownPoint d.name point))
      | some inherited =>
        match d.root.preorder[inherited.reference]? with
        | some (.reference template _ attributes slots) =>
          match r.get? template with
          | none => some (.error (.notFound template))
          | some sub => do
            let data ← r.suppliedData r.inclusion sub attributes slots inherited.point data
            r |>.renderEntry sub inherited.point data
        | _ => some (.error (.unknownPoint d.name point))
partial_fixpoint

/-- Renders only the node behind a point of a template. -/
def renderPoint (r : Registry) (name point : String) (data : Record) : Rendering :=
  match r.get? name with
  | none => some (.error (.notFound name))
  | some d => r.renderEntry d point data

/-- Renders a template of a source that stands alone. -/
def renderSource (source template : String) (data : Record) : Rendering :=
  match empty.registerSource source with
  | (_, .error e) => some (.error e)
  | (r, .ok _) => r.render template data

end Stencil.Registry
