import Stencil.Proofs.Render.Emission
import Stencil.Proofs.Template.Names
import Stencil.Render.Template

/-! # Rendering to the end

Rendering a tree comes to an end if that of every template it includes does. What has ended stays
as it is if inclusions may nest deeper, so the markup that a template renders to does not depend on
how deep they may.
-/
namespace Stencil

namespace Render
variable {settings : Settings} {inclusion inclusion' : Inclusion} {scopes : List Record}
  {isRoot : Bool} {n : Node} {children : List Node} {slots : List (String × Slot)}
  {scope : Record} {pieces : List Piece} {tag : String} {point : PointSpec}
  {attributes : Attributes} {emission : Emission}

/-! ## Every rendering ends -/

/-- Including the template comes to an end in every scope. -/
def Total (inclusion : Inclusion) (template : String) : Prop :=
  ∀ expand, inclusion template = some expand → ∀ scope, (expand scope).isSome

theorem surround_isSome {content : Unit → Option (List Piece)} (h : (content ()).isSome) :
    (surround settings tag attributes content).isSome := by
  unfold surround
  split
  · rfl
  · exact Option.isSome_map.trans h

theorem emitElement_isSome {content : Option Record → Option (List Piece)}
    (h : ∀ own, (content own).isSome) :
    (emitElement settings tag point attributes content emission).isSome := by
  unfold emitElement
  split
  · exact surround_isSome (h none)
  · exact surround_isSome rfl
  · exact surround_isSome (h _)
  · rfl

theorem bind_isSome {bound : Option Record} {expand : Record → Option (List Piece)}
    (hbound : bound.isSome) (h : ∀ scope, (expand scope).isSome) : (bound.bind expand).isSome := by
  obtain ⟨scope, rfl⟩ := Option.isSome_iff_exists.1 hbound
  exact h scope

theorem emitReference_isSome {bind : Option Record → Record → Option Record}
    {expand : Record → Option (List Piece)} (hbind : ∀ own scope, (bind own scope).isSome)
    (h : ∀ scope, (expand scope).isSome) :
    (emitReference attributes bind expand emission).isSome := by
  unfold emitReference
  simp only
  split
  · exact h _
  · exact bind_isSome (hbind _ _) h
  · exact bind_isSome (hbind _ _) h

theorem emitAll_isSome {emit : Emission → Option (List Piece)} (h : ∀ e, (emit e).isSome)
    (found : Except String (List Emission)) : (emitAll emit found).isSome := by
  cases found with
  | error message => rfl
  | ok found =>
    refine Option.isSome_map.trans ?_
    induction found with
    | nil => rfl
    | cons e found ih =>
      obtain ⟨pieces, he⟩ := Option.isSome_iff_exists.1 (h e)
      obtain ⟨rest, hrest⟩ := Option.isSome_iff_exists.1 ih
      rw [List.mapM_cons, he, hrest]
      rfl

theorem nodes_isSome (h : ∀ c ∈ children, ∀ isRoot scopes,
      (node settings inclusion isRoot scopes c).isSome) (scopes : List Record) :
    (nodes settings inclusion scopes children).isSome := by
  induction children with
  | nil => rfl
  | cons c rest ih =>
    obtain ⟨hc, hrest⟩ := List.forall_mem_cons.1 h
    obtain ⟨here, hhere⟩ := Option.isSome_iff_exists.1 (hc false scopes)
    obtain ⟨later, hlater⟩ := Option.isSome_iff_exists.1 (ih hrest)
    rw [nodes, hhere, hlater]
    rfl

theorem bindSlots_isSome (h : ∀ slot ∈ slots, ∀ c ∈ slot.2.children, ∀ isRoot scopes,
      (node settings inclusion isRoot scopes c).isSome) (scopes : List Record) (scope : Record) :
    (bindSlots settings inclusion scopes scope slots).isSome := by
  induction slots generalizing scope with
  | nil => rfl
  | cons slot rest ih =>
    obtain ⟨name, id, attributes, children⟩ := slot
    obtain ⟨hc, hrest⟩ := List.forall_mem_cons.1 h
    have hmarkup (scopes : List Record) : ∃ pieces,
        nodes settings inclusion scopes children = some pieces :=
      Option.isSome_iff_exists.1 (nodes_isSome hc scopes)
    rw [bindSlots]
    simp only
    split
    · exact ih hrest _
    · obtain ⟨pieces, hpieces⟩ := hmarkup scopes
      rw [hpieces]
      exact ih hrest _
    · next fields _ _ =>
      obtain ⟨pieces, hpieces⟩ := hmarkup (fields :: scopes)
      rw [hpieces]
      exact ih hrest _
    · exact ih hrest _

/-- A tree that references only templates whose inclusion ends is rendered to the end. -/
theorem node_isSome (h : ∀ template ∈ n.referencedTemplates, Total inclusion template)
    (isRoot : Bool) (scopes : List Record) :
    (node settings inclusion isRoot scopes n).isSome := by
  induction n using Node.induct generalizing isRoot scopes with
  | step n ih =>
    have hchild {c : Node} (hc : c ∈ n.childNodes) (isRoot : Bool) (scopes : List Record) :
        (node settings inclusion isRoot scopes c).isSome :=
      ih c hc (fun t ht => h t (Node.mem_referencedTemplates_of_child hc ht)) isRoot scopes
    cases n with
    | text => rfl
    | element tag point attributes children =>
      rw [node_element]
      refine emitAll_isSome (fun e => ?_) _
      exact emitElement_isSome fun own => nodes_isSome (fun c hc => hchild hc) _
    | reference template point attributes slots =>
      cases hexpand : inclusion template with
      | none =>
        rw [node_reference_none settings inclusion hexpand]
        rfl
      | some expand =>
        rw [node_reference_some settings inclusion hexpand]
        refine emitAll_isSome (fun e => ?_) _
        rw [emit, hexpand]
        refine emitReference_isSome (fun own scope => ?_)
          (h template (Node.mem_referencedTemplates_of_own rfl) expand hexpand)
        exact bindSlots_isSome
          (fun slot hslot c hc => hchild (Node.mem_childNodes_of_slot hslot hc ..)) _ scope

end Render

/-! ## As deep as it takes -/

namespace Registry
open Render
variable {r : Registry} {name : String} {data : Record} {markup markup' : String} {n m : Nat}
  {isRoot : Bool} {scope : Record} {scopes : List Record} {root : Node} {children : List Node}
  {pieces pieces' : List Piece}

/-- What the root of a template emits if inclusions nest at most this deep; nothing where they nest
deeper. -/
def expandTo (r : Registry) : Nat → Descriptor → Record → Option (List Piece)
  | 0, _, _ => none
  | levels + 1, D, scope => node r.settings (including r.get? (r.expandTo levels)) true [scope] D.root

def inclusionTo (r : Registry) (levels : Nat) : Inclusion := including r.get? (r.expandTo levels)

theorem expandTo_succ (r : Registry) (levels : Nat) (D : Descriptor) (scope : Record) :
    r.expandTo (levels + 1) D scope =
      node r.settings (r.inclusionTo levels) true [scope] D.root := rfl

theorem inclusionTo_eq_some {D : Descriptor} (hD : r.get? name = some D) (levels : Nat) :
    r.inclusionTo levels name = some (r.expandTo levels D) := by
  rw [inclusionTo, including, hD, Option.map_some]

theorem inclusionTo_eq_none (levels : Nat) (name : String) :
    r.inclusionTo levels name = none ↔ r.get? name = none := by
  rw [inclusionTo, including, Option.map_eq_none_iff]

theorem inclusionTo_of_get? {D : Descriptor} (hD : r.get? name = some D) (n : Nat) :
    ∃ expand, r.inclusionTo n name = some expand ∧ ∀ scope pieces, expand scope = some pieces ↔
      ∃ m, n = m + 1 ∧ node r.settings (r.inclusionTo m) true [scope] D.root = some pieces := by
  refine ⟨r.expandTo n D, inclusionTo_eq_some hD n, fun scope pieces => ?_⟩
  cases n with
  | zero => simp [expandTo]
  | succ m => simp [expandTo_succ]

theorem reaches_expand (r : Registry) (n : Nat) (D : Descriptor) (scope : Record) :
    Reaches (r.expandTo n D scope) (r.expand D scope) := by
  induction n generalizing D scope with
  | zero => exact fun pieces hpieces => nomatch hpieces
  | succ n ih =>
    rw [expand.eq_def]
    exact reaches_node ih true [scope] D.root

theorem approaches_expand (r : Registry) (D : Descriptor) (scope : Record) :
    Approaches (r.expand D scope) fun n => r.expandTo n D scope := by
  refine expand.partial_correctness r
    (fun D scope pieces => ∃ n, ∀ m, n ≤ m → r.expandTo m D scope = some pieces) ?_ D scope
  intro f hf D scope pieces hpieces
  have hdeeper : Approaches (node r.settings (including r.get? f) true [scope] D.root)
      fun n => node r.settings (r.inclusionTo n) true [scope] D.root :=
    approaches_node hf true [scope] D.root
  obtain ⟨n, hn⟩ := hdeeper pieces hpieces
  refine ⟨n + 1, fun m hm => ?_⟩
  obtain ⟨m, rfl⟩ := Nat.exists_eq_add_of_le' (Nat.le_trans (Nat.le_add_left 1 n) hm)
  exact hn m (Nat.le_of_succ_le_succ hm)

theorem node_eq_some_iff :
    node r.settings r.inclusion isRoot scopes root = some pieces ↔
      ∃ n, node r.settings (r.inclusionTo n) isRoot scopes root = some pieces := by
  constructor
  · intro h
    obtain ⟨n, hn⟩ := approaches_node r.approaches_expand isRoot scopes root pieces h
    exact ⟨n, hn n (Nat.le_refl n)⟩
  · rintro ⟨n, hn⟩
    exact reaches_node (r.reaches_expand n) isRoot scopes root pieces hn

theorem nodes_eq_some_iff :
    nodes r.settings r.inclusion scopes children = some pieces ↔
      ∃ n, nodes r.settings (r.inclusionTo n) scopes children = some pieces := by
  constructor
  · intro h
    obtain ⟨n, hn⟩ := approaches_nodes r.approaches_expand scopes children pieces h
    exact ⟨n, hn n (Nat.le_refl n)⟩
  · rintro ⟨n, hn⟩
    exact reaches_nodes (r.reaches_expand n) scopes children pieces hn

theorem node_unique (h : node r.settings (r.inclusionTo n) isRoot scopes root = some pieces)
    (h' : node r.settings (r.inclusionTo m) isRoot scopes root = some pieces') :
    pieces = pieces' :=
  Option.some.inj ((node_eq_some_iff.2 ⟨n, h⟩).symm.trans (node_eq_some_iff.2 ⟨m, h'⟩))

theorem nodes_unique (h : nodes r.settings (r.inclusionTo n) scopes children = some pieces)
    (h' : nodes r.settings (r.inclusionTo m) scopes children = some pieces') : pieces = pieces' :=
  Option.some.inj ((nodes_eq_some_iff.2 ⟨n, h⟩).symm.trans (nodes_eq_some_iff.2 ⟨m, h'⟩))

/-! ## The data of a point -/

theorem suppliedData_isSome {inclusion : Inclusion}
    (h : ∀ children, (nodes r.settings inclusion [data] children).isSome) (sub : Descriptor)
    (attributes : Attributes) (slots : List (String × Slot)) (point : String) :
    (r.suppliedData inclusion sub attributes slots point data).isSome := by
  unfold suppliedData
  simp only
  split
  · rfl
  · obtain ⟨pieces, hpieces⟩ := Option.isSome_iff_exists.1
      (h (((NameMap.find? slots point).map (·.children)).getD []))
    rw [fragment, hpieces]
    rfl

theorem approaches_suppliedData (r : Registry) {f : Descriptor → Record → Option (List Piece)}
    {g : Nat → Descriptor → Record → Option (List Piece)}
    (h : ∀ D scope, Approaches (f D scope) fun n => g n D scope) (sub : Descriptor)
    (attributes : Attributes) (slots : List (String × Slot)) (point : String) (data : Record) :
    Approaches (r.suppliedData (including r.get? f) sub attributes slots point data)
      fun n => r.suppliedData (including r.get? (g n)) sub attributes slots point data := by
  unfold suppliedData
  simp only
  split
  · exact .refl _
  · exact (((approaches_nodes h _ _).map _).map _).bind fun supplied => .refl _

theorem suppliedData_eq_some_iff {sub : Descriptor} {attributes : Attributes}
    {slots : List (String × Slot)} {point : String} {data' : Record} :
    r.suppliedData r.inclusion sub attributes slots point data = some data' ↔
      ∃ n, r.suppliedData (r.inclusionTo n) sub attributes slots point data = some data' := by
  constructor
  · intro h
    obtain ⟨n, hn⟩ := r.approaches_suppliedData r.approaches_expand _ _ _ _ _ _ h
    exact ⟨n, hn n (Nat.le_refl n)⟩
  · rintro ⟨n, hn⟩
    have happroaches := r.approaches_suppliedData
      (fun D scope => (r.reaches_expand n D scope).approaches) sub attributes slots point data
    exact happroaches.reaches data' hn

/-! ## Whole templates -/

/-- Rendering the template comes to an end, with this markup, if inclusions may nest deep enough. -/
def Renders (r : Registry) (name : String) (data : Record) (markup : String) : Prop :=
  ∃ D levels, r.get? name = some D ∧
    (node r.settings (r.inclusionTo levels) true [data] D.root).map
      (Piece.writeList r.settings.quote) = some markup

theorem renderRoot_eq_some_iff :
    r.renderRoot root data = some markup ↔
      ∃ levels, (node r.settings (r.inclusionTo levels) true [data] root).map
        (Piece.writeList r.settings.quote) = some markup := by
  rw [renderRoot, Option.map_eq_some_iff]
  constructor
  · rintro ⟨pieces, hpieces, rfl⟩
    obtain ⟨n, hn⟩ := node_eq_some_iff.1 hpieces
    exact ⟨n, by rw [hn, Option.map_some]⟩
  · rintro ⟨n, h⟩
    obtain ⟨pieces, hn, hmarkup⟩ := Option.map_eq_some_iff.1 h
    exact ⟨pieces, node_eq_some_iff.2 ⟨n, hn⟩, hmarkup⟩

theorem render_of_get? {D : Descriptor} (hD : r.get? name = some D) (data : Record) :
    r.render name data = (r.renderRoot D.root data).map .ok := by
  rw [render, hD]

theorem render_eq_ok : r.render name data = some (.ok markup) ↔ r.Renders name data markup := by
  cases hD : r.get? name with
  | none => simp [render, Renders, hD]
  | some D => simp [render_of_get? hD, Renders, hD, renderRoot_eq_some_iff]

theorem render_eq_ok_of_levels (levels : Nat)
    (h : ((r.get? name).bind fun D =>
      (node r.settings (r.inclusionTo levels) true [data] D.root).map
        (Piece.writeList r.settings.quote)) = some markup) :
    r.render name data = some (.ok markup) := by
  obtain ⟨D, hD, hmarkup⟩ := Option.bind_eq_some_iff.1 h
  exact render_eq_ok.2 ⟨D, levels, hD, hmarkup⟩

theorem Renders.exists_node (h : r.Renders name data markup) :
    ∃ D levels pieces, r.get? name = some D ∧
      node r.settings (r.inclusionTo levels) true [data] D.root = some pieces ∧
      Piece.writeList r.settings.quote pieces = markup := by
  obtain ⟨D, levels, hD, hmarkup⟩ := h
  obtain ⟨pieces, hpieces, hwrite⟩ := Option.map_eq_some_iff.1 hmarkup
  exact ⟨D, levels, pieces, hD, hpieces, hwrite⟩

theorem Renders.unique (h : r.Renders name data markup) (h' : r.Renders name data markup') :
    markup = markup' := by
  have hsame := (render_eq_ok.2 h).symm.trans (render_eq_ok.2 h')
  exact Except.ok.inj (Option.some.inj hsame)

end Registry
end Stencil
