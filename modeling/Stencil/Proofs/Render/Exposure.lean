import Stencil.Proofs.Data.Record
import Stencil.Proofs.Render.Agreement
import Stencil.Proofs.Render.Elements
import Stencil.Proofs.Render.Ending

/-! # Exposing names

A template can be a mere reference that exposes the points of another one under their own names. Its
slots hand on the values that are bound to these names, and attribute overrides that hold for all
repetitions. Overrides that are aligned with the repetitions are not handed on.
-/
namespace Stencil

/-- A slot for each name that exposes the point of this name, and supplies nothing itself. -/
def exposedSlots (names : List String) : List (String × Slot) :=
  names.map fun name => (name, ⟨some name, .empty, []⟩)

/-- A reference that exposes the names in order. -/
def exposing (template : String) (names : List String) : Node :=
  .reference template .anonymous .empty
    (exposedSlots (NameMap.ofList (names.map (·, ()))).names)

namespace Value

def isSequence : Value → Bool
  | sequence _ => true
  | _ => false

end Value

/-- The record without overrides of these names that are aligned with repetitions. -/
def Record.withoutAligned (d : Record) (names : List String) : Record :=
  d.filterMap fun (key, value) =>
    if value.isSequence ∧ key ∈ names.map attributeKey then none else some (key, value)

namespace Render
variable {settings : Settings} {inclusion : Inclusion} {d scope : Record} {name key : String}
  {names : List String} {overrides : Option Value} {value : Value}

/-- Overrides that hold for all repetitions, as a slot writes them. -/
def shared (overrides : Option Value) : Option Value :=
  if (overridesAt overrides none).isEmpty then none
  else some (.item (Record.ofAttributes (overridesAt overrides none)))

def handOn (d : Record) (scope : Record) (name : String) : Record :=
  let scope := bindAttributes scope name (overridesAt (d.find? (attributeKey name)) none)
  match d.find? name with
  | none => scope
  | some value => scope.insert name value

theorem bindSlots_exposed (d scope : Record) (names : List String) :
    bindSlots settings inclusion [d] scope (exposedSlots names) =
      some (names.foldl (handOn d) scope) := by
  unfold exposedSlots
  induction names generalizing scope with
  | nil => rfl
  | cons name rest ih =>
    rw [List.map_cons, bindSlots, List.foldl_cons]
    simp only [Option.bind_some, lookup_singleton, merged_eq_merge, Attributes.empty_merge,
      List.isEmpty_nil]
    unfold handOn overridesAt
    cases d.find? name with
    | none => exact ih _
    | some value => cases value <;> exact ih _

theorem find?_handOn (d scope : Record) (name key : String) :
    (handOn d scope name).find? key =
      if key = name ∧ (d.find? name).isSome then d.find? name
      else if key = attributeKey name ∧ (shared (d.find? (attributeKey name))).isSome then
        shared (d.find? (attributeKey name))
      else scope.find? key := by
  have hshared : (bindAttributes scope name
        (overridesAt (d.find? (attributeKey name)) none)).find? key =
      if key = attributeKey name ∧ (shared (d.find? (attributeKey name))).isSome then
        shared (d.find? (attributeKey name))
      else scope.find? key := by
    rw [find?_bindAttributes]
    unfold shared
    cases (overridesAt (d.find? (attributeKey name)) none).isEmpty <;> simp
  unfold handOn
  cases hvalue : d.find? name with
  | none => simpa using hshared
  | some value =>
    rw [NameMap.find?_insert, hshared]
    simp

theorem find?_foldl_handOn (own : String) (written : Option Value)
    (hnames : ∀ n ∈ names, IsName n)
    (hstep : ∀ scope n, IsName n → (handOn d scope n).find? key =
      if own = n then written.or (NameMap.find? scope key) else NameMap.find? scope key)
    (scope : Record) :
    (names.foldl (handOn d) scope).find? key =
      if own ∈ names then written.or (scope.find? key) else scope.find? key := by
  induction names generalizing scope with
  | nil => rfl
  | cons n rest ih =>
    obtain ⟨hn, hrest⟩ := List.forall_mem_cons.1 hnames
    rw [List.foldl_cons, ih hrest, hstep scope n hn]
    by_cases heq : own = n <;> by_cases hmem : own ∈ rest <;>
      simp [heq, hmem, ← Option.or_assoc]

def handedOn (d : Record) (names : List String) : Record := names.foldl (handOn d) []

theorem find?_handedOn (hnames : ∀ n ∈ names, IsName n) (h : name ∈ names) (d : Record) :
    (handedOn d names).find? name = d.find? name ∧
      (handedOn d names).find? (attributeKey name) = shared (d.find? (attributeKey name)) := by
  have hname := hnames name h
  constructor
  · refine (find?_foldl_handOn name (d.find? name) hnames
      (fun scope n hn => ?_) []).trans ?_
    · rw [find?_handOn]
      by_cases heq : name = n
      · subst heq
        cases d.find? name <;> simp [hname.ne_attributeKey]
      · simp [heq, hname.ne_attributeKey]
    · simp [h]
  · refine (find?_foldl_handOn name (shared (d.find? (attributeKey name)))
      hnames (fun scope n hn => ?_) []).trans ?_
    · rw [find?_handOn]
      have hne := (hn.ne_attributeKey name).symm
      by_cases heq : name = n
      · subst heq
        cases shared (d.find? (attributeKey name)) <;> simp [hne]
      · simp [heq, hne, attributeKey_inj]
    · simp [h]

theorem find?_handedOn_of_ne (hvalue : ∀ n ∈ names, key ≠ n)
    (hoverrides : ∀ n ∈ names, key ≠ attributeKey n) (d : Record) :
    (handedOn d names).find? key = none := by
  have run (scope : Record) : (names.foldl (handOn d) scope).find? key = scope.find? key := by
    induction names generalizing scope with
    | nil => rfl
    | cons n rest ih =>
      obtain ⟨hn, hrest⟩ := List.forall_mem_cons.1 hvalue
      obtain ⟨hn', hrest'⟩ := List.forall_mem_cons.1 hoverrides
      rw [List.foldl_cons, ih hrest hrest', find?_handOn, if_neg fun h => hn h.1,
        if_neg fun h => hn' h.1]
  exact run []

/-! ## Nothing else is lost -/

theorem overridesAt_shared (hordered : ∀ value, overrides = some value → value.Ordered)
    (hno : ∀ items, overrides ≠ some (.sequence items)) (index : Option Nat) :
    overridesAt (shared overrides) index = overridesAt overrides index := by
  cases overrides with
  | none => rfl
  | some value =>
    cases value with
    | scalar => rfl
    | sequence items => exact absurd rfl (hno items)
    | item fields =>
      have hsorted : NameMap.Sorted fields := by
        cases hordered _ rfl with
        | item sorted _ => exact sorted
      have hread (index : Option Nat) :
          overridesAt (some (.item fields)) index = Record.scalarAttributes fields := rfl
      rw [hread, shared, hread]
      split
      · next hempty => exact (Attributes.eq_empty_of_isEmpty hempty).symm
      · exact Record.scalarAttributes_ofAttributes (Record.sorted_scalarAttributes hsorted)

theorem shared_sequence (items : List Value) : shared (some (.sequence items)) = none := rfl

theorem find?_withoutAligned (hd : d.Sorted) (names : List String) (key : String) :
    (d.withoutAligned names).find? key = (d.find? key).bind fun value =>
      if value.isSequence ∧ key ∈ names.map attributeKey then none else some value := by
  refine (NameMap.find?_filterMap (fun e e' he => ?_) hd key).trans ?_
  · simp only at he
    split at he
    · cases he
    · cases he
      rfl
  · congr 1
    funext value
    change Option.map Prod.snd (if value.isSequence ∧ key ∈ names.map attributeKey then none
      else some (key, value)) = _
    split <;> rfl

/-- The referenced template finds what it would find in the record, but for aligned overrides. -/
theorem agree_handedOn {handed : List String} (hd : (Value.item d).Ordered)
    (hnames : ∀ n ∈ handed, IsName n) (h : name ∈ handed) (hname : name ∈ names) :
    Agree [handedOn d handed] [d.withoutAligned names] name := by
  obtain ⟨hsorted, hinner⟩ := hd.fields
  obtain ⟨hvalue, hoverrides⟩ := find?_handedOn hnames h d
  have hkey : name ∉ names.map attributeKey := by
    rintro hmem
    obtain ⟨n, _, rfl⟩ := List.mem_map.1 hmem
    exact (hnames _ h).ne_attributeKey n rfl
  refine ⟨?_, fun index => ?_⟩
  · rw [lookup_singleton, lookup_singleton, hvalue, find?_withoutAligned hsorted]
    simp [hkey]
  · rw [lookup_singleton, lookup_singleton, hoverrides, find?_withoutAligned hsorted]
    have hmem : attributeKey name ∈ names.map attributeKey := List.mem_map_of_mem hname
    cases hfound : d.find? (attributeKey name) with
    | none => rfl
    | some value =>
      cases value with
      | sequence items =>
        rw [shared_sequence, Option.bind_some, if_pos ⟨rfl, hmem⟩]
      | scalar markup => rfl
      | item fields =>
        rw [overridesAt_shared (fun value hvalue => ?_) (by simp), Option.bind_some,
          if_neg fun h => Bool.false_ne_true h.1]
        cases hvalue
        exact hinner _ (NameMap.mem_of_find? hfound)

theorem withoutAligned_eq (hd : d.Sorted) (hno : ∀ n ∈ names, ∀ items,
      d.find? (attributeKey n) ≠ some (.sequence items)) : d.withoutAligned names = d := by
  refine (List.filterMap_congr fun e he => ?_).trans List.filterMap_some
  obtain ⟨key, value⟩ := e
  refine if_neg fun ⟨hsequence, hkey⟩ => ?_
  obtain ⟨n, hn, rfl⟩ := List.mem_map.1 hkey
  cases value with
  | scalar => cases hsequence
  | item => cases hsequence
  | sequence items => exact hno n hn items (NameMap.find?_of_mem hd he)

end Render

namespace Registry
open Render
variable {r : Registry} {inner outer : String} {D X : Descriptor} {d : Record} {html : String}

theorem node_exposing {inclusion : Inclusion} {expand : Record → Option (List Piece)}
    (hexpand : inclusion inner = some expand) (hvalue : d.find? rootKey = none)
    (hoverrides : d.find? (attributeKey rootKey) = none) (names : List String) :
    node r.settings inclusion true [d] (exposing inner names) =
      expand (handedOn d (NameMap.ofList (names.map (·, ()))).names) := by
  have hemissions : emissions .anonymous true [d] = .ok [⟨none, none⟩] := by
    rw [emissions_root ((lookup_singleton ..).trans hvalue)
      ((lookup_singleton ..).trans hoverrides)]
    rfl
  rw [exposing, node_reference_some _ _ hexpand, hemissions, emitAll, emit, hexpand]
  refine (flatten_mapM_singleton _ _).trans ?_
  change (bindSlots r.settings inclusion [d] [] _).bind _ = _
  rw [bindSlots_exposed]
  rfl

/-- With one level more, a reference that exposes the names of a template renders to what the
template renders to. -/
theorem node_exposing_names (hD : r.get? inner = some D) (hnames : ∀ n ∈ D.root.names, IsName n)
    (hd : (Value.item d).Ordered) (hvalue : d.find? rootKey = none)
    (hoverrides : d.find? (attributeKey rootKey) = none) (levels : Nat) :
    node r.settings (r.inclusionTo (levels + 1)) true [d] (exposing inner D.root.names) =
      node r.settings (r.inclusionTo levels) true [d.withoutAligned D.root.names] D.root := by
  have hsorted : d.Sorted := hd.fields.1
  -- the slots stand in the order of the names, each of which may occur several times in the tree
  generalize hhanded : (NameMap.ofList (D.root.names.map (·, ()))).names = handed at *
  have hmem (n : String) : n ∈ handed ↔ n ∈ D.root.names := by
    rw [← hhanded, NameMap.mem_names_ofList, List.map_map]
    simp
  have hhandednames (n : String) (hn : n ∈ handed) : IsName n := hnames n ((hmem n).1 hn)
  have hroot' {key : String} (hkey : key = rootKey ∨ key = attributeKey rootKey) :
      lookup [handedOn d handed] key = lookup [d.withoutAligned D.root.names] key := by
    have hnone : d.find? key = none := by
      rcases hkey with rfl | rfl
      · exact hvalue
      · exact hoverrides
    rw [lookup_singleton, lookup_singleton, find?_withoutAligned hsorted, hnone,
      find?_handedOn_of_ne]
    · rfl
    · intro n hn heq
      rcases hkey with rfl | rfl
      · exact (hhandednames n hn).ne_rootKey heq.symm
      · exact (hhandednames n hn).ne_attributeKey _ heq.symm
    · intro n hn heq
      rcases hkey with rfl | rfl
      · exact attributeKey_ne_rootKey n heq.symm
      · exact (hhandednames n hn).attributeKey_ne heq.symm
  have hexpand : r.inclusionTo (levels + 1) inner =
      some fun scope => node r.settings (r.inclusionTo levels) true [scope] D.root :=
    congrArg (Option.map _) hD
  rw [node_exposing hexpand hvalue hoverrides, hhanded]
  refine node_congr (fun name hname => ?_) fun _ => ⟨hroot' (.inl rfl), hroot' (.inr rfl)⟩
  exact agree_handedOn hd hhandednames ((hmem name).2 hname) hname

/-- **Exposed names are transparent** to all data but attribute overrides that are aligned with the
repetitions of a point. -/
theorem renders_exposing (hD : r.get? inner = some D) (hX : r.get? outer = some X)
    (hroot : X.root = exposing inner D.root.names) (hnames : ∀ n ∈ D.root.names, IsName n)
    (hd : (Value.item d).Ordered) (hvalue : d.find? rootKey = none)
    (hoverrides : d.find? (attributeKey rootKey) = none) :
    (∀ html, r.Renders outer d html ↔ r.Renders inner (d.withoutAligned D.root.names) html) ∧
      ((∀ n ∈ D.root.names, ∀ items, d.find? (attributeKey n) ≠ some (.sequence items)) →
        ∀ html html', r.render outer d = some (.ok html) → r.render inner d = some (.ok html') →
          html = html') := by
  have hsorted : d.Sorted := hd.fields.1
  have hnode (levels : Nat) := hroot ▸ node_exposing_names hD hnames hd hvalue hoverrides levels
  have hiff (html : String) :
      r.Renders outer d html ↔ r.Renders inner (d.withoutAligned D.root.names) html := by
    constructor
    · rintro ⟨X', levels, hX', hmarkup⟩
      obtain rfl := Option.some.inj (hX.symm.trans hX')
      cases levels with
      | zero =>
        have hexpand : r.inclusionTo 0 inner = some fun _ => none := congrArg (Option.map _) hD
        rw [hroot, node_exposing hexpand hvalue hoverrides] at hmarkup
        cases hmarkup
      | succ levels => exact ⟨D, levels, hD, hnode levels ▸ hmarkup⟩
    · rintro ⟨D', levels, hD', hmarkup⟩
      obtain rfl := Option.some.inj (hD.symm.trans hD')
      exact ⟨X, levels + 1, hX, (hnode levels).symm ▸ hmarkup⟩
  refine ⟨hiff, fun hno html html' hrender hrender' => ?_⟩
  have houter := (hiff html).1 (render_eq_ok.1 hrender)
  rw [withoutAligned_eq hsorted hno] at houter
  exact houter.unique (render_eq_ok.1 hrender')

/-! ## A list whose items are exposed -/

def itemsRoot : Node := .element "ul" .anonymous .empty
  [.element "li" ⟨some "items", .multiple, false⟩ .empty []]

/-- A list, and a template that exposes its items. -/
def exposed : Registry :=
  (empty.register "List" itemsRoot).register "Page" (exposing "List" ["items"])

/-- Two items, and overrides for them. -/
def itemsData (overrides : Value) : Record :=
  [("@items", overrides), ("items", .sequence [.scalar "a", .scalar "b"])]

def marked (mark : String) : Value := .item [("class", .scalar mark)]

def listMarkup (mark : String) : String :=
  "<ul><li" ++ mark ++ ">a</li><li" ++ mark ++ ">b</li></ul>"

theorem get?_exposed_list :
    exposed.get? "List" = some (.compile empty.get? "List" itemsRoot) := by
  rw [exposed, get?_register, if_neg fun h => absurd h.1 (by decide), get?_register,
    if_pos ⟨rfl, rfl⟩]

theorem get?_exposed_page :
    exposed.get? "Page" = some (.compile (empty.register "List" itemsRoot).get? "Page"
      (exposing "List" ["items"])) := by
  have hnew : (empty.register "List" itemsRoot).get? "Page" = none := by
    rw [get?_register, if_neg fun h => absurd h.1 (by decide)]
    rfl
  rw [exposed, get?_register, if_pos ⟨rfl, hnew⟩]

theorem ordered_marked (mark : String) : (marked mark).Ordered :=
  .item (List.pairwise_singleton ..) (by simpa using .scalar mark)

theorem ordered_itemsData {overrides : Value} (h : overrides.Ordered) :
    (Value.item (itemsData overrides)).Ordered := by
  have hlt : "@items" < "items" := by decide
  refine .item (List.pairwise_pair.2 hlt) ?_
  simp only [itemsData, List.forall_mem_cons]
  exact ⟨h, .sequence (by simpa using ⟨.scalar "a", .scalar "b"⟩), nofun⟩

theorem isName_itemsRoot : ∀ n ∈ itemsRoot.names, IsName n := by
  intro n hn
  have hn : n ∈ ["items"] := hn
  exact List.mem_singleton.1 hn ▸ isName_of_head (by decide) (by decide)

/-- Overrides that hold for all items reach them through the slot. -/
theorem renders_exposing_list :
    exposed.render "Page" (itemsData (marked "x")) = some (.ok (listMarkup " class='x'")) ∧
      exposed.Renders "List" ((itemsData (marked "x")).withoutAligned itemsRoot.names)
        (listMarkup " class='x'") := by
  have hpage : exposed.render "Page" (itemsData (marked "x")) =
      some (.ok (listMarkup " class='x'")) :=
    render_eq_ok_of_levels 1 (by decide +kernel)
  refine ⟨hpage, ((renders_exposing get?_exposed_list get?_exposed_page rfl isName_itemsRoot
    (ordered_itemsData (ordered_marked "x")) rfl rfl).1 _).1 (render_eq_ok.1 hpage)⟩

/-- Overrides that are aligned with the items do not. -/
theorem not_renders_exposing_aligned :
    ¬ ∀ (r : Registry) inner outer D X (d : Record) html html', r.Reachable →
      r.get? inner = some D → r.get? outer = some X → X.root = exposing inner D.root.names →
      (∀ n ∈ D.root.names, IsName n) → (Value.item d).Ordered → d.find? rootKey = none →
      d.find? (attributeKey rootKey) = none → r.render outer d = some (.ok html) →
      r.render inner d = some (.ok html') → html = html' := by
  intro h
  have hequal := h exposed "List" "Page" _ _ (itemsData (.sequence [marked "x", marked "x"]))
    (listMarkup "") (listMarkup " class='x'") (.register (.register (.withSettings _) _ _) _ _)
    get?_exposed_list get?_exposed_page rfl isName_itemsRoot
    (ordered_itemsData (.sequence (by simpa using ordered_marked "x"))) rfl rfl
    (render_eq_ok_of_levels 1 (by decide +kernel)) (render_eq_ok_of_levels 0 (by decide +kernel))
  exact absurd hequal (by decide)

end Registry
end Stencil
