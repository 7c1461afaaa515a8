import Mathlib.Logic.Relation
import Stencil.Proofs.Registry.Sources

/-! # Templates that never lead back

Where no chain of references leads from a template back to itself, each reference leads to a
template that leads to fewer others. So inclusions nest less deep than there are templates, and so
do the templates that a point is taken over from: whatever the data, rendering comes to an end.
-/
namespace Stencil.Registry
open Render
variable {r : Registry} {name other p : String} {D : Descriptor} {rank : String → Nat} {levels : Nat}
  {X : Record}

/-- No chain of references through registered templates leads from a template back to itself. -/
def Acyclic (r : Registry) : Prop := ∀ name, ¬ Relation.TransGen r.Uses name name

/-- The call comes to an end, with a result or with an error that says what is wrong. -/
def Halts (answer : Rendering) : Prop := ∃ result, answer = some result

theorem Halts.error (e : TemplateError) : Halts (some (.error e)) := ⟨_, rfl⟩

theorem Halts.of_renderRoot {root : Node} (h : (r.renderRoot root X).isSome) :
    Halts ((r.renderRoot root X).map .ok) := by
  obtain ⟨html, hhtml⟩ := Option.isSome_iff_exists.1 h
  exact ⟨.ok html, by rw [hhtml, Option.map_some]⟩

/-! ## A rank for each template -/

open Classical in
noncomputable def outreach (r : Registry) (name : String) : Nat :=
  (r.names.filter (Relation.TransGen r.Uses name ·)).length

theorem outreach_lt_length (hname : r.contains name) (hback : ¬ Relation.TransGen r.Uses name name) :
    r.outreach name < r.templates.length := by
  have hlength : r.names.length = r.templates.length := List.length_map _
  rw [outreach, ← hlength]
  apply List.length_filter_lt_length_iff_exists.2
  exact ⟨name, NameMap.mem_names_of_contains hname, by simpa using hback⟩

theorem outreach_lt (huses : r.Uses name other) (hback : ¬ Relation.TransGen r.Uses other other) :
    r.outreach other < r.outreach name := by
  classical
  have hother : r.contains other := by
    obtain ⟨_, _, _, hother⟩ := huses
    exact hother
  have hfewer : r.names.filter (Relation.TransGen r.Uses other ·) =
      (r.names.filter (Relation.TransGen r.Uses name ·)).filter
        (Relation.TransGen r.Uses other ·) := by
    rw [List.filter_filter]
    refine List.filter_congr fun x _ => ?_
    by_cases hx : Relation.TransGen r.Uses other x
    · simp [hx, Relation.TransGen.head huses hx]
    · simp [hx]
  unfold outreach
  rw [hfewer]
  apply List.length_filter_lt_length_iff_exists.2
  refine ⟨other, List.mem_filter.2 ⟨NameMap.mem_names_of_contains hother, ?_⟩, by simpa using hback⟩
  simpa using Relation.TransGen.single huses

theorem Acyclic.ranking (h : r.Acyclic) : r.Ranking r.outreach where
  bounded name hname := outreach_lt_length hname (h name)
  drops _ other huses := outreach_lt huses (h other)

theorem Layered.acyclic (h : r.Layered) : r.Acyclic := by
  obtain ⟨rank, hrank⟩ := h
  intro name hback
  exact Nat.lt_irrefl _ (hrank.lt_of_transGen hback)

/-! ## A bound on the depth -/

theorem Ranking.total (h : r.Ranking rank) (hlevels : r.templates.length ≤ levels)
    (template : String) : Total (r.inclusionTo levels) template := by
  apply total_inclusion h
  intro hcontains
  exact Nat.lt_of_lt_of_le (h.bounded template hcontains) hlevels

theorem Ranking.node_isSome (h : r.Ranking rank) (hlevels : r.templates.length ≤ levels)
    (root : Node) (isRoot : Bool) (scopes : List Record) :
    (node r.settings (r.inclusionTo levels) isRoot scopes root).isSome :=
  Render.node_isSome (fun template _ => h.total hlevels template) isRoot scopes

theorem Ranking.renderRoot_isSome (h : r.Ranking rank) (root : Node) (data : Record) :
    (r.renderRoot root data).isSome := by
  obtain ⟨pieces, hpieces⟩ :=
    Option.isSome_iff_exists.1 (h.node_isSome (Nat.le_refl _) root true [data])
  refine Option.isSome_iff_exists.2 ⟨Piece.writeList r.settings.quote pieces, ?_⟩
  exact renderRoot_eq_some_iff.2 ⟨r.templates.length, by rw [hpieces, Option.map_some]⟩

theorem Ranking.suppliedData_isSome (h : r.Ranking rank) (hlevels : r.templates.length ≤ levels)
    (sub : Descriptor) (attributes : Attributes) (slots : List (String × Slot)) (point : String)
    (data : Record) :
    (r.suppliedData (r.inclusionTo levels) sub attributes slots point data).isSome := by
  refine Registry.suppliedData_isSome (fun children => ?_) sub attributes slots point
  exact nodes_isSome (fun c _ => h.node_isSome hlevels c) [data]

/-- Each template on the way to the node of a point ranks below the one before. -/
theorem Ranking.renderEntry_halts (h : r.Ranking rank) (hD : r.get? name = some D) :
    Halts (r.renderEntry D p X) := by
  induction hk : rank name using Nat.strongRecOn generalizing name D p X with
  | ind k ih =>
    subst hk
    rw [renderEntry.eq_def]
    split
    · exact .error _
    · split
      · exact .error _
      · next entry _ =>
        split
        · -- the template declares the point itself
          split
          · next m _ => exact .of_renderRoot (h.renderRoot_isSome m X)
          · exact .error _
        · next inherited _ =>
          split
          · next template point attributes slots hfound =>
            split
            · exact .error _
            · next sub hsub =>
              have huses : r.Uses name template := by
                refine ⟨D, hD, ?_, contains_of_get? hsub⟩
                exact Node.mem_referencedTemplates.2 ⟨_, List.mem_of_getElem? hfound, rfl⟩
              obtain ⟨data, hdata⟩ := Option.isSome_iff_exists.1
                (h.suppliedData_isSome (Nat.le_refl _) sub attributes slots inherited.point X)
              rw [suppliedData_eq_some_iff.2 ⟨_, hdata⟩]
              exact ih _ (h.drops name template huses) hsub rfl
          · exact .error _

/-! ## Rendering ends -/

/-- **Rendering ends on templates that never lead back**, for every template, point and record, and
inclusions do not have to nest deeper than there are templates. -/
theorem ends_of_acyclic (h : r.Acyclic) :
    (∀ name data, (∃ html, r.render name data = some (.ok html)) ∨
        r.render name data = some (.error (.notFound name))) ∧
      (∀ name point data, Halts (r.renderPoint name point data)) ∧
      ∀ levels, r.templates.length ≤ levels →
        (∀ root isRoot scopes,
            (node r.settings (r.inclusionTo levels) isRoot scopes root).isSome) ∧
          ∀ sub attributes slots point data,
            (r.suppliedData (r.inclusionTo levels) sub attributes slots point data).isSome := by
  have hrank := h.ranking
  refine ⟨fun name data => ?_, fun name point data => ?_, fun levels hlevels => ⟨?_, ?_⟩⟩
  · cases hD : r.get? name with
    | none => exact .inr (by rw [render, hD])
    | some D => exact .inl (hrank.render_ok (contains_of_get? hD) data)
  · unfold renderPoint
    split
    · exact .error _
    · next D hD => exact hrank.renderEntry_halts hD
  · exact fun root isRoot scopes => hrank.node_isSome hlevels root isRoot scopes
  · exact hrank.suppliedData_isSome hlevels

/-! ## A menu of entries, one of which is missing -/

def entryRoot : Node := .element "li" .anonymous .empty
  [.element "a" ⟨some "link", .single, false⟩ .empty []]

/-- The second reference stands in a slot of the first, and the third names no template. -/
def menuRoot : Node := .element "ul" .anonymous .empty
  [.reference "Entry" ⟨some "entries", .multiple, false⟩ .empty
    [("link", ⟨none, .empty, [.reference "Entry" .anonymous .empty []]⟩)],
    .reference "Missing" .anonymous .empty []]

def menu : Registry := (empty.register "Entry" entryRoot).register "Menu" menuRoot

theorem layered_menu : menu.Layered := by
  refine ((layered_withSettings .default).register rfl (by decide) ?_).register (by decide)
    (by decide) ?_
  · rintro ⟨_, _, _, hD, _⟩
    cases hD
  · intro hawaits
    have hmem := mem_dependencies_of_awaits hawaits
    rw [show ((withSettings .default).register "Entry" entryRoot).templates.flatMap
      (·.2.dependencies) = [] by decide +kernel] at hmem
    cases hmem

def menuData : Record :=
  [("entries", .sequence [.item [], .item [("link", .sequence [.item []])]])]

/-- Nested items and sequences are rendered to the end, and so is a point behind the slot. -/
theorem ends_of_acyclic_menu :
    menu.Acyclic ∧
      menu.render "Menu" menuData = some (.ok
        ("<ul><li><a><li><a></a></li></a></li>" ++
          "<li><error>sequence bound to single point 'link'</error></li>" ++
          "<error>template 'Missing' is not registered</error></ul>")) ∧
      (∀ name data, (∃ html, menu.render name data = some (.ok html)) ∨
        menu.render name data = some (.error (.notFound name))) ∧
      ∀ name point data, Halts (menu.renderPoint name point data) := by
  have hends := ends_of_acyclic layered_menu.acyclic
  exact ⟨layered_menu.acyclic, render_eq_ok_of_levels 2 (by decide +kernel), hends.1, hends.2.1⟩

end Stencil.Registry
