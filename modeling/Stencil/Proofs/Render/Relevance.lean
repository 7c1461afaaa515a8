import Stencil.Proofs.Registry.Reachable
import Stencil.Proofs.Render.Agreement
import Stencil.Proofs.Render.Ending

/-! # Which data matter to a template

A template is rendered from what its record has under the names of its own tree, under the root key
and under the keys of their overrides. Names that stand only in the templates it includes are not
looked up in the record: an included template gets a scope of its own, which is made of the same
entries.
-/
namespace Stencil
variable {root : Node} {name key : String} {d d' : Record}

/-- The keys under which a template looks up its data: the names in its tree and the root key, and
those of their overrides. -/
def Node.dataKeys (root : Node) : List String :=
  (rootKey :: root.names).flatMap fun name => [name, attributeKey name]

theorem Node.mem_dataKeys :
    key ∈ root.dataKeys ↔
      ∃ name, (name = rootKey ∨ name ∈ root.names) ∧ (key = name ∨ key = attributeKey name) := by
  simp [dataKeys, or_assoc]

/-- Both records have the same, or both nothing, under each of the keys. -/
def Record.AgreeOn (keys : List String) (d d' : Record) : Prop :=
  ∀ key ∈ keys, d.find? key = d'.find? key

theorem Record.agreeOn_insert {keys : List String} (hkey : key ∉ keys) (d : Record)
    (value : Value) : AgreeOn keys (d.insert key value) d := by
  intro other hother
  rw [NameMap.find?_insert, if_neg]
  rintro rfl
  exact hkey hother

namespace Render

theorem agree_of_agreeOn (h : Record.AgreeOn root.dataKeys d d') (hname : name ∈ root.names) :
    Agree [d] [d'] name where
  value := by
    rw [lookup_singleton, lookup_singleton]
    apply h
    exact Node.mem_dataKeys.2 ⟨name, .inr hname, .inl rfl⟩
  overrides index := by
    rw [lookup_singleton, lookup_singleton, h]
    exact Node.mem_dataKeys.2 ⟨name, .inr hname, .inr rfl⟩

theorem agreeAtRoot_of_agreeOn (h : Record.AgreeOn root.dataKeys d d') :
    AgreeAtRoot [d] [d'] where
  value := by
    rw [lookup_singleton, lookup_singleton]
    apply h
    exact Node.mem_dataKeys.2 ⟨rootKey, .inl rfl, .inl rfl⟩
  overrides := by
    rw [lookup_singleton, lookup_singleton]
    apply h
    exact Node.mem_dataKeys.2 ⟨rootKey, .inl rfl, .inr rfl⟩

theorem node_of_agreeOn (h : Record.AgreeOn root.dataKeys d d') (settings : Settings)
    (inclusion : Inclusion) :
    node settings inclusion true [d] root = node settings inclusion true [d'] root := by
  apply node_congr
  · intro name hname
    exact agree_of_agreeOn h hname
  · intro _
    exact agreeAtRoot_of_agreeOn h

end Render

namespace Registry
open Render
variable {r : Registry} {D : Descriptor}

/-- To the template `D`, which is registered as `name`, the two records are the same. -/
structure Alike (r : Registry) (name : String) (D : Descriptor) (d d' : Record) : Prop where
  render : r.render name d = r.render name d'
  /-- Rendering ends with both or with neither, however deep inclusions may nest. -/
  renders : ∀ markup, r.Renders name d markup ↔ r.Renders name d' markup
  /-- Included templates are handed the same, as no way to show it tells the records apart. -/
  handed : ∀ inclusion : Inclusion, node r.settings inclusion true [d] D.root =
    node r.settings inclusion true [d'] D.root

theorem alike_of_agreeOn (hD : r.get? name = some D) (h : Record.AgreeOn D.root.dataKeys d d') :
    r.Alike name D d d' where
  render := by
    rw [Registry.render, Registry.render, hD]
    simp only [renderRoot, node_of_agreeOn h]
  renders markup := by
    unfold Renders
    constructor
    · rintro ⟨D', levels, hD', hmarkup⟩
      obtain rfl := Option.some.inj (hD.symm.trans hD')
      exact ⟨D, levels, hD, node_of_agreeOn h .. ▸ hmarkup⟩
    · rintro ⟨D', levels, hD', hmarkup⟩
      obtain rfl := Option.some.inj (hD.symm.trans hD')
      exact ⟨D, levels, hD, (node_of_agreeOn h ..).symm ▸ hmarkup⟩
  handed := node_of_agreeOn h r.settings

/-- **Only a template's own names matter.** Records that agree under its keys are the same to it,
and so is a record before and after anything is written under another key. -/
theorem render_own_names (hD : r.get? name = some D) :
    (∀ d d', Record.AgreeOn D.root.dataKeys d d' → r.Alike name D d d') ∧
      ∀ d key value, key ∉ D.root.dataKeys →
        r.Alike name D (NameMap.insert d key value) d := by
  constructor
  · intro d d' h
    exact alike_of_agreeOn hD h
  · intro d key value hkey
    exact alike_of_agreeOn hD (Record.agreeOn_insert hkey d value)

/-! ## A tile with a title, on a page that knows only its note -/

def tileRoot : Node := .element "div" .anonymous .empty
  [.element "h2" ⟨some "title", .single, false⟩ .empty []]

def noteRoot : Node := .element "main" .anonymous .empty
  [.element "p" ⟨some "note", .single, false⟩ .empty [],
    .reference "Tile" ⟨some "tile", .multiple, false⟩ .empty
      [("title", ⟨some "heading", .empty, []⟩)]]

def noted : Registry := (empty.register "Tile" tileRoot).register "Note" noteRoot

def notedData : Record :=
  [("tile", .sequence [.item [("heading", .scalar "one")], .item []]), ("note", .scalar "two")]

/-- A title in the data of the page does not reach its tiles, whose titles come through the slot. -/
theorem render_own_names_note :
    ∃ D, noted.get? "Note" = some D ∧ "title" ∉ D.root.dataKeys ∧
      noted.Alike "Note" D (NameMap.insert notedData "title" (.scalar "three")) notedData ∧
      noted.render "Note" notedData =
        some (.ok "<main><p>two</p><div><h2>one</h2></div><div><h2></h2></div></main>") := by
  obtain ⟨D, hD, hroot⟩ : ∃ D, noted.get? "Note" = some D ∧ D.root = noteRoot :=
    Option.map_eq_some_iff.1 (show (noted.get? "Note").map (·.root) = some noteRoot by rfl)
  have hkey : "title" ∉ D.root.dataKeys := by
    rw [hroot]
    decide
  exact ⟨D, hD, hkey, (render_own_names hD).2 _ _ _ hkey,
    render_eq_ok_of_levels 1 (by decide +kernel)⟩

end Registry
end Stencil
