import Mathlib.Data.List.Forall2
import Stencil.Proofs.Data.Ingest
import Stencil.Proofs.Render.Agreement

/-! # The entries of an array as repetitions

A repeated element that a JSON array is bound to shows one piece for each entry, in the order of the
entries. An entry that is null counts like any other: it shows the element as it is written. The
attribute overrides of an entry are found under its index.
-/
namespace Stencil.Render
variable {settings : Settings} {inclusion : Inclusion} {d : Record} {scopes : List Record}
  {tag p : String} {point : PointSpec} {children : List Node} {attributes : Attributes}
  {pieces : List Piece} {entry : Json}

theorem overridesAt_ofJson? (overrides : Option Json) (index : Nat) :
    overridesAt (overrides.bind Value.ofJson?) (some index) = Json.overridesOf overrides index := by
  cases overrides with
  | none => rfl
  | some json =>
    cases json with
    | null | string | natural | negative | double => rfl
    | bool value => cases value <;> rfl
    | object members => exact Value.scalarAttributes_ofMembers members
    | array entries =>
      rw [Option.bind_some, Value.ofJson?, Value.ofItems_eq_map, overridesAt, Option.bind_some,
        Value.attributesAt, Option.bind_some, List.getElem?_map, Json.overridesOf]
      cases entries[index]? with
      | none => rfl
      | some entry =>
        cases entry with
        | null | string | natural | negative | double | array => rfl
        | bool value => cases value <;> rfl
        | object members => exact Value.scalarAttributes_ofMembers members

theorem nodes_cons_nil (scopes : List Record) (children : List Node) :
    nodes settings inclusion ([] :: scopes) children =
      nodes settings inclusion scopes children := by
  have hlookup (key : String) : lookup ([] :: scopes) key = lookup scopes key := by
    rw [lookup_cons, NameMap.find?_nil, Option.none_or]
  refine nodes_congr fun c _ name _ => ⟨hlookup name, fun index => ?_⟩
  rw [hlookup]

/-- What an entry of an array shows in an element of this tag and with these attributes. -/
inductive ShowsEntry (settings : Settings) (inclusion : Inclusion) (d : Record) (tag p : String)
    (children : List Node) (attributes : Attributes) : Json → Piece → Prop
  | null {content : List Piece} (written : nodes settings inclusion [d] children = some content) :
      ShowsEntry settings inclusion d tag p children attributes .null
        (.element tag attributes content)
  | text {entry : Json} {text : String} (shown : entry.text? = some text) :
      ShowsEntry settings inclusion d tag p children attributes entry
        (.element tag attributes [.raw text])
  | object {members : List (String × Json)} {content : List Piece}
      (inside : nodes settings inclusion [Json.present members, d] children = some content) :
      ShowsEntry settings inclusion d tag p children attributes (.object members)
        (.element tag attributes content)
  | array (entries : List Json) :
      ShowsEntry settings inclusion d tag p children attributes (.array entries)
        (.marker ("nested sequence bound to point '" ++ p ++ "'"))

theorem surround_of_not_void (hvoid : settings.isVoid tag = false) (attributes : Attributes)
    (content : Unit → Option (List Piece)) :
    surround settings tag attributes content =
      (content ()).map fun content => [.element tag attributes content] := by
  rw [surround, hvoid]
  rfl

/-- The emission for an entry shows one piece. -/
theorem emit_entry (hvoid : settings.isVoid tag = false) (hid : point.id = some p)
    (overrides : Option Attributes) :
    emit settings inclusion [d] (.element tag point attributes children)
        ⟨some ((Value.ofJson? entry).getD (.item [])), overrides⟩ = some pieces ↔
      ∃ piece, pieces = [piece] ∧ ShowsEntry settings inclusion d tag p children
        (attributes.merge (overrides.getD .empty)) entry piece := by
  rw [← merged_eq_merge]
  -- several kinds of entries have a text, and all of these are shown alike
  cases htext : entry.text? with
  | some text =>
    rw [Value.ofJson?_of_text htext]
    simp only [emit, emitElement, Option.getD_some, surround_of_not_void hvoid, Option.map_some,
      Option.some.injEq]
    constructor
    · rintro rfl
      exact ⟨_, rfl, .text htext⟩
    · rintro ⟨piece, rfl, hshows⟩
      cases hshows with
      | text htext' => cases htext.symm.trans htext'; rfl
      | null | object | array => cases htext
  | none =>
    cases entry with
    | string | bool | natural | negative | double => cases htext
    | null =>
      simp only [Value.ofJson?, emit, emitElement, Option.getD_none, surround_of_not_void hvoid,
        inside, nodes_cons_nil, Option.map_eq_some_iff]
      constructor
      · rintro ⟨content, hcontent, rfl⟩
        exact ⟨_, rfl, .null hcontent⟩
      · rintro ⟨piece, rfl, hshows⟩
        cases hshows with
        | null written => exact ⟨_, written, rfl⟩
        | text htext' => cases htext'
    | object members =>
      simp only [Value.ofJson?, emit, emitElement, Option.getD_some, surround_of_not_void hvoid,
        inside, Value.ofMembers_eq_present, Option.map_eq_some_iff]
      constructor
      · rintro ⟨content, hcontent, rfl⟩
        exact ⟨_, rfl, .object hcontent⟩
      · rintro ⟨piece, rfl, hshows⟩
        cases hshows with
        | object inside => exact ⟨_, inside, rfl⟩
        | text htext' => cases htext'
    | array entries =>
      simp only [Value.ofJson?, emit, emitElement, Option.getD_some, Option.some.injEq, pointLabel,
        hid]
      constructor
      · rintro rfl
        exact ⟨_, rfl, .array entries⟩
      · rintro ⟨piece, rfl, hshows⟩
        cases hshows with
        | array => rfl
        | text htext' => cases htext'

theorem flatten_mapM_eq_some {α β : Type} {f : α → Option (List β)} {R : α → β → Prop}
    (h : ∀ a shown, f a = some shown ↔ ∃ b, shown = [b] ∧ R a b) {found : List α}
    {shown : List β} :
    (found.mapM f).map List.flatten = some shown ↔ List.Forall₂ R found shown := by
  induction found generalizing shown with
  | nil => simp [eq_comm]
  | cons a found ih =>
    rw [List.forall₂_cons_left_iff]
    constructor
    · intro hmap
      obtain ⟨parts, hparts, rfl⟩ := Option.map_eq_some_iff.1 hmap
      rw [List.mapM_cons] at hparts
      obtain ⟨first, hfirst, hparts⟩ := Option.bind_eq_some_iff.1 hparts
      obtain ⟨rest, hrest, hparts⟩ := Option.bind_eq_some_iff.1 hparts
      cases hparts
      obtain ⟨b, rfl, hb⟩ := (h a first).1 hfirst
      exact ⟨b, rest.flatten, hb, ih.1 (by rw [hrest, Option.map_some]), rfl⟩
    · rintro ⟨b, later, hb, hlater, rfl⟩
      obtain ⟨rest, hrest, rfl⟩ := Option.map_eq_some_iff.1 (ih.2 hlater)
      rw [List.mapM_cons, (h a [b]).2 ⟨b, rfl, hb⟩, hrest]
      rfl

/-- **Entries and their overrides stay aligned.** A repeated element with the data of a JSON object
as its only scope shows one piece for each entry of the array that is bound to it, in order, with
the attributes that the overrides have for the index of the entry. -/
theorem node_entries {members : List (String × Json)} {entries : List Json}
    (hmembers : NameMap.Sorted members) (hentries : NameMap.find? members p = some (.array entries))
    (hvoid : settings.isVoid tag = false) (hid : point.id = some p)
    (hmultiple : point.cardinality = .multiple) (hd : Record.ofJson (.object members) = .ok d)
    (inclusion : Inclusion) (attributes : Attributes) (children : List Node)
    (pieces : List Piece) :
    node settings inclusion false [d] (.element tag point attributes children) = some pieces ↔
      List.Forall₂ (fun (e : Json × Nat) piece =>
        ShowsEntry settings inclusion d tag p children
          (attributes.merge (Json.overridesOf (NameMap.find? members (attributeKey p)) e.2))
          e.1 piece) entries.zipIdx pieces := by
  cases hd
  have hvalue : lookup [Value.ofMembers members] p = some (.sequence (Value.ofItems entries)) := by
    rw [lookup_singleton, Value.find?_ofMembers hmembers, hentries]
    rfl
  -- a null entry has become a record without fields, so no position is lost
  have hfound : emissions point false [Value.ofMembers members] =
      .ok (entries.zipIdx.map fun e => ⟨some ((Value.ofJson? e.1).getD (.item [])),
        (lookup [Value.ofMembers members] (attributeKey p)).bind (·.attributesAt (some e.2))⟩) := by
    rw [Value.ofItems_eq_map] at hvalue
    simp only [emissions, bound, hid, hmultiple, hvalue, Option.bind_some, Bool.false_eq_true,
      if_false, List.mapIdx_eq_zipIdx_map, List.zipIdx_map, List.map_map]
    rfl
  have hoverrides (index : Nat) :
      ((lookup [Value.ofMembers members] (attributeKey p)).bind
          (·.attributesAt (some index))).getD .empty =
        Json.overridesOf (NameMap.find? members (attributeKey p)) index := by
    rw [lookup_singleton, Value.find?_ofMembers hmembers]
    exact overridesAt_ofJson? _ index
  rw [node_element, hfound, emitAll, List.mapM_map]
  refine flatten_mapM_eq_some fun e shown => ?_
  rw [← hoverrides]
  exact emit_entry hvoid hid _

/-- Four rows, the first of them null like its overrides. -/
def rowsMembers : List (String × Json) :=
  [("@rows", .array [.null, .object [("class", .string "first"), ("gone", .null)], .string "x"]),
    ("rows", .array [.null, .string "a", .object [("label", .string "b"), ("gone", .null)],
      .array []])]

/-- A row with a class of its own. -/
def rowNode : Node := .element "li" ⟨some "rows", .multiple, false⟩ (.ofList [("class", "row")])
  [.element "b" ⟨some "label", .single, false⟩ .empty [.text "-"]]

def rowsPieces : List Piece :=
  [.element "li" (.ofList [("class", "row")]) [.element "b" .empty [.raw "-"]],
    .element "li" (.ofList [("class", "first")]) [.raw "a"],
    .element "li" (.ofList [("class", "row")]) [.element "b" .empty [.raw "b"]],
    .marker "nested sequence bound to point 'rows'"]

/-- The second row is the one with a class from the overrides. -/
theorem node_entries_rows :
    node .default (fun _ => none) false [Value.ofMembers rowsMembers] rowNode = some rowsPieces ∧
      List.Forall₂ (fun (e : Json × Nat) piece =>
        ShowsEntry .default (fun _ => none) (Value.ofMembers rowsMembers) "li" "rows"
          [.element "b" ⟨some "label", .single, false⟩ .empty [.text "-"]]
          ((Attributes.ofList [("class", "row")]).merge
            (Json.overridesOf (NameMap.find? rowsMembers (attributeKey "rows")) e.2))
          e.1 piece)
        [(.null, 0), (.string "a", 1), (.object [("label", .string "b"), ("gone", .null)], 2),
          (.array [], 3)] rowsPieces := by
  have hsorted : NameMap.Sorted rowsMembers := by
    unfold NameMap.Sorted rowsMembers
    decide
  have hshown : node .default (fun _ => none) false [Value.ofMembers rowsMembers] rowNode =
      some rowsPieces := by with_unfolding_all rfl
  exact ⟨hshown, (node_entries hsorted (by rfl) (by decide +kernel) rfl rfl rfl ..).1 hshown⟩

end Stencil.Render
