import Stencil.Proofs.Render.Supply
import Stencil.Proofs.Render.Writing

/-! # Rendering without data

Where no data comes in, scopes hold nothing but markup: what is bound to a point is what the content
of a slot was rendered to. So everything that is rendered is read as what it is, whatever points the
slots are for.
-/
namespace Stencil
open Markup Live Render

/-! ## Tidy templates -/

/-- A node whose own markup is read back. -/
inductive Node.Proper (r : Registry) : Node → Prop
  | text {markup : String} (h : '<' ∉ markup.toList) : Proper r (.text markup)
  | element {tag : String} {point : PointSpec} {attributes : Attributes} {children : List Node}
      (word : IsWord tag) (parent : r.settings.isVoid tag = true ∨ ¬ isChildless tag)
      (keys : HasKeys attributes) : Proper r (.element tag point attributes children)
  | reference {template : String} {point : PointSpec} {attributes : Attributes}
      {slots : List (String × Slot)} (placed : ∀ levels, ¬ Stray (r.inclusionTo levels)
        (.reference template point attributes slots)) (keys : HasKeys attributes)
      (sorted : NameMap.Sorted slots) (named : ∀ slot ∈ slots, IsName slot.1)
      (slotKeys : ∀ slot ∈ slots, HasKeys slot.2.attributes) :
      Proper r (.reference template point attributes slots)

structure Node.Tidy (r : Registry) (c : Node) : Prop where
  proper : ∀ m ∈ c.preorder, m.Proper r
  named : ∀ name ∈ c.names, IsName name
  small : c.size ≤ wordSize

theorem Node.Tidy.child {r : Registry} {c child : Node} (h : c.Tidy r)
    (hc : child ∈ c.childNodes) : child.Tidy r where
  proper _ hm := h.proper _ (mem_preorder_of_child hc hm)
  named _ hname := h.named _ (mem_names_of_child hc hname)
  small := (size_le_of_child hc).trans h.small

theorem Node.Tidy.length_children_lt {r : Registry} {tag : String} {point : PointSpec}
    {attributes : Attributes} {children : List Node}
    (h : (Node.element tag point attributes children).Tidy r) : children.length < wordSize := by
  have hsmall := h.small
  have hlength := Node.length_le_sizeList children
  rw [Node.size_element] at hsmall
  omega

theorem Node.Tidy.length_slot_lt {r : Registry} {template : String} {point : PointSpec}
    {attributes : Attributes} {slots : List (String × Slot)} {slot : String × Slot}
    (h : (Node.reference template point attributes slots).Tidy r) (hslot : slot ∈ slots) :
    slot.2.children.length < wordSize :=
  (Node.length_le_sizeList _).trans_lt ((Node.sizeList_lt_of_slot hslot ..).trans_le h.small)

/-- Every template is tidy, and renders to one element. -/
structure Registry.Tidy (r : Registry) : Prop where
  root : ∀ name D, r.get? name = some D → D.root.Tidy r
  steady : ∀ name D, r.get? name = some D → ¬ r.Varies D.root

namespace Render
variable {settings : Settings} {inclusion : Inclusion} {s s' : Record} {isRoot : Bool}
  {point : PointSpec} {value : Option Value} {tag template name : String} {pieces : List Piece}
  {a attributes : Attributes} {children : List Node} {slots : List (String × Slot)}

/-! ## What is bound to a node -/

theorem emitAll_markup (h : IsMarkup value) (f : Emission → Option (List Piece))
    (point : PointSpec) (overrides : Option Nat → Option Attributes) :
    emitAll f (emissionsOf point value overrides) =
      if point.isMultiple ∧ value = none then some [] else f ⟨value, overrides none⟩ := by
  have hone : emissionsOf point value overrides =
      .ok (if point.isMultiple ∧ value = none then [] else [⟨value, overrides none⟩]) := by
    unfold emissionsOf
    rcases h with rfl | ⟨markup, children, rfl, _⟩ <;> cases hc : point.cardinality <;>
      simp [PointSpec.isMultiple, hc]
  rw [hone, emitAll]
  split
  · rfl
  · exact flatten_mapM_singleton ..

theorem isMarkup_bound (hs : s.Tidy) (hid : ∀ id, point.id = some id → IsName id)
    (isRoot : Bool) : IsMarkup (bound point isRoot [s]).value := by
  have hlookup : lookup [s] = s.find? := funext fun key => lookup_singleton s key
  have hown : IsMarkup (point.id.bind s.find?) := by
    cases h : point.id with
    | none => exact .inl rfl
    | some id => exact (hs id (.inr (hid id h))).value
  cases isRoot with
  | false => simpa [bound, hlookup] using hown
  | true =>
    simp only [bound, hlookup, if_true]
    rcases (hs rootKey (.inl rfl)).value with hnone | ⟨markup, filling, hvalue, hfills⟩
    · rwa [hnone]
    · rw [hvalue]
      exact .inr ⟨markup, filling, rfl, hfills⟩

theorem hasKeys_bound (hs : s.Tidy) (hid : ∀ id, point.id = some id → IsName id)
    (isRoot : Bool) : HasKeys (overridesAt (bound point isRoot [s]).overrides none) := by
  have hlookup : lookup [s] = s.find? := funext fun key => lookup_singleton s key
  have hown : HasKeys (overridesAt (point.id.bind fun id => s.find? (attributeKey id)) none) := by
    cases h : point.id with
    | none => exact nofun
    | some id => exact (hs id (.inr (hid id h))).keys
  cases isRoot with
  | false => simpa [bound, hlookup] using hown
  | true =>
    have hroot := (hs rootKey (.inl rfl)).keys
    unfold Record.laid at hroot
    simp only [bound, hlookup, if_true]
    cases hfind : s.find? (attributeKey rootKey) with
    | none => exact hown
    | some value =>
      rw [hfind] at hroot
      exact hroot

/-! ## What an element encloses -/

/-- An element is read with nothing inside, with what is bound to it, or with its children. -/
inductive Encloses (settings : Settings) (inclusion : Inclusion) (s : Record) (tag : String)
    (value : Option Value) (children : List Node) : List Fragment → Prop
  | nothing (void : settings.isVoid tag = true) :
      Encloses settings inclusion s tag value children []
  | markup {markup : String} {inner : List Fragment} (written : settings.isVoid tag = false)
      (parent : ¬ isChildless tag) (bound : value = some (.scalar markup))
      (fills : Fills markup.toList inner) : Encloses settings inclusion s tag value children inner
  | children {content : List Piece} {inner : List Fragment}
      (written : settings.isVoid tag = false) (parent : ¬ isChildless tag)
      (unbound : value = none) (rendered : nodes settings inclusion [s] children = some content)
      (images : List.Forall₂ (Images settings.quote) (content.filter Piece.isElement)
        (inner.filter Fragment.isElement))
      (fills : Fills (Piece.writeList settings.quote content).toList inner) :
      Encloses settings inclusion s tag value children inner

/-- An element shows nothing, or itself around what it encloses. -/
theorem element_shown (word : IsWord tag) (parent : settings.isVoid tag = true ∨ ¬ isChildless tag)
    (keys : HasKeys attributes) (hid : ∀ id, point.id = some id → IsName id) (hs : s.Tidy)
    (hlegible : ∀ content, nodes settings inclusion [s] children = some content →
      ∀ piece ∈ content, Legible settings.quote piece)
    (hnode : node settings inclusion isRoot [s] (.element tag point attributes children) =
      some pieces) :
    pieces = [] ∨ ∃ piece found inner, pieces = [piece] ∧ Legible settings.quote piece ∧
      Images settings.quote piece (.element tag found inner) ∧
      Encloses settings inclusion s tag (bound point isRoot [s]).value children inner := by
  have hmarkup := isMarkup_bound hs hid isRoot
  have hkeys := Attributes.hasKeys_merge keys (hasKeys_bound hs hid isRoot)
  rw [node_element, emissions_eq, emitAll_markup hmarkup] at hnode
  split at hnode
  · cases hnode
    exact .inl rfl
  · refine .inr ?_
    cases hvoid : settings.isVoid tag with
    | true =>
      have hsurround (content : Unit → Option (List Piece)) (a : Attributes) :
          surround settings tag a content = some [.void tag a] := by
        rw [surround, hvoid, if_pos rfl]
      have hpieces : [.void tag (attributes.merge
          (overridesAt (bound point isRoot [s]).overrides none))] = pieces := by
        rcases hmarkup with hvalue | ⟨markup, filling, hvalue, _⟩ <;>
          simp only [hvalue, emit, emitElement, hsurround, merged_eq_merge] at hnode <;>
          exact Option.some.inj hnode
      obtain ⟨found, himage⟩ := images_void word hkeys settings.quote
      exact ⟨_, found, [], hpieces.symm, ⟨_, himage⟩, himage, .nothing hvoid⟩
    | false =>
      have hparent : ¬ isChildless tag := by
        refine parent.resolve_left ?_
        rw [hvoid]
        exact Bool.false_ne_true
      have hsurround (content : Unit → Option (List Piece)) (a : Attributes) :
          surround settings tag a content = (content ()).map fun c => [.element tag a c] := by
        rw [surround, hvoid, if_neg Bool.false_ne_true]
      rcases hmarkup with hvalue | ⟨markup, filling, hvalue, hfills⟩
      · simp only [hvalue, emit, emitElement, hsurround, merged_eq_merge] at hnode
        obtain ⟨content, hcontent, rfl⟩ := Option.map_eq_some_iff.1 hnode
        obtain ⟨filling, himages, hfills⟩ := fills_writeList (hlegible content hcontent)
        obtain ⟨found, himage⟩ := images_element hfills word hparent hkeys
        exact ⟨_, found, filling, rfl, ⟨_, himage⟩, himage,
          .children hvoid hparent hvalue hcontent himages hfills⟩
      · simp only [hvalue, emit, emitElement, hsurround, merged_eq_merge] at hnode
        have hfills' : Fills (Piece.writeList settings.quote [.raw markup]).toList filling := by
          rwa [Piece.writeList_singleton]
        obtain ⟨found, himage⟩ := images_element hfills' word hparent hkeys
        exact ⟨_, found, filling, (Option.some.inj hnode).symm, ⟨_, himage⟩, himage,
          .markup hvoid hparent hvalue hfills⟩

/-! ## The scope that a reference makes -/

/-- A reference renders its template with the markup that is bound to it, or else with what its
slots bring. -/
inductive Opened (settings : Settings) (inclusion : Inclusion) (s : Record) (value : Option Value)
    (a : Attributes) (slots : List (String × Slot)) : Record → Prop
  | markup {markup : String} (bound : value = some (.scalar markup)) :
      Opened settings inclusion s value a slots (rootScope a (some (.scalar markup)))
  | slots {s' : Record} (unbound : value = none)
      (received : Receives settings inclusion s (rootScope a none) s' slots) :
      Opened settings inclusion s value a slots s'

variable {r : Registry} {sub : Descriptor} {n : Nat}

/-- A reference shows nothing, or the root of its template in the scope that it makes. -/
theorem reference_shown (hsub : r.get? template = some sub) (hs : s.Tidy)
    (sorted : NameMap.Sorted slots) (named : ∀ slot ∈ slots, IsName slot.1)
    (names : ∀ name ∈ (Node.reference template point attributes slots).names, IsName name)
    (hnode : node r.settings (r.inclusionTo n) isRoot [s]
      (.reference template point attributes slots) = some pieces) :
    pieces = [] ∨ ∃ m s', n = m + 1 ∧
      Opened r.settings (r.inclusionTo n) s (bound point isRoot [s]).value
        (attributes.merge (overridesAt (bound point isRoot [s]).overrides none)) slots s' ∧
      node r.settings (r.inclusionTo m) true [s'] sub.root = some pieces := by
  have hid (id : String) (h : point.id = some id) : IsName id :=
    names id (Node.mem_names_of_point rfl h)
  have hmarkup := isMarkup_bound hs hid isRoot
  obtain ⟨expand, hexpand, hlast⟩ := Registry.inclusionTo_of_get? hsub n
  rw [node_reference_some _ _ hexpand, emissions_eq, emitAll_markup hmarkup] at hnode
  split at hnode
  · cases hnode
    exact .inl rfl
  · refine .inr ?_
    rcases hmarkup with hvalue | ⟨markup, filling, hvalue, _⟩
    · simp only [hvalue, emit, hexpand, emitReference, merged_eq_merge] at hnode
      obtain ⟨s', hbind, hpieces⟩ := Option.bind_eq_some_iff.1 hnode
      obtain ⟨m, rfl, hroot⟩ := (hlast _ _).1 hpieces
      refine ⟨m, s', rfl, .slots hvalue ?_, hroot⟩
      refine receives_of_bindSlots sorted named (fun slot hslot => ?_) hbind
      cases hslotId : slot.2.id with
      | none => exact .inl rfl
      | some id =>
        exact (hs id (.inr (names id (Node.mem_names_of_slot hslot hslotId ..)))).value
    · simp only [hvalue, emit, hexpand, emitReference, merged_eq_merge] at hnode
      obtain ⟨m, rfl, hroot⟩ := (hlast _ _).1 hnode
      exact ⟨m, _, rfl, .markup hvalue, hroot⟩

theorem Opened.tidy (h : Opened settings inclusion s value a slots s') (hs : s.Tidy)
    (hvalue : IsMarkup value) (named : ∀ slot ∈ slots, IsName slot.1)
    (ids : ∀ slot ∈ slots, ∀ id, slot.2.id = some id → IsName id)
    (keys : ∀ slot ∈ slots, HasKeys slot.2.attributes) (ha : HasKeys a)
    (legible : ∀ slot ∈ slots, ∀ pieces,
      nodes settings inclusion [s] slot.2.children = some pieces →
        ∀ piece ∈ pieces, Legible settings.quote piece) : s'.Tidy := by
  cases h with
  | slots _ received => exact received.tidy named hs ids keys ha legible
  | @markup markup bound =>
    rintro name (rfl | hname)
    · constructor
      · rw [find?_rootScope (attributeKey_ne_rootKey rootKey).symm, if_pos rfl, ← bound]
        exact hvalue
      · rw [laid_rootScope]
        exact Attributes.hasKeys_ofAttributes ha
    · exact (lacks_rootScope hname a _).filled

/-! ## Everything is read as what it is -/

variable {piece : Piece} {scopes : List Record}

theorem exists_of_mem_nodes (h : nodes settings inclusion scopes children = some pieces)
    (hpiece : piece ∈ pieces) : ∃ c ∈ children, ∃ here,
      node settings inclusion false scopes c = some here ∧ piece ∈ here := by
  induction children generalizing pieces with
  | nil =>
    cases h
    cases hpiece
  | cons c rest ih =>
    obtain ⟨here, later, hhere, hlater, rfl⟩ := nodes_cons.1 h
    rcases List.mem_append.1 hpiece with hpiece | hpiece
    · exact ⟨c, List.mem_cons_self, here, hhere, hpiece⟩
    · obtain ⟨c', hc', hshown⟩ := ih hlater hpiece
      exact ⟨c', List.mem_cons_of_mem c hc', hshown⟩

end Render

namespace Registry
variable {r : Registry} {n : Nat} {s : Record} {c : Node} {isRoot : Bool} {pieces : List Piece}
  {children : List Node}

def Reads (r : Registry) (n : Nat) : Prop :=
  ∀ name D s pieces, r.get? name = some D → s.Tidy →
    node r.settings (r.inclusionTo n) true [s] D.root = some pieces →
    ∀ piece ∈ pieces, Legible r.settings.quote piece

theorem legible_of_lower (hlower : ∀ m, n = m + 1 → r.Reads m) (hc : c.Tidy r)
    (hs : s.Tidy) (h : node r.settings (r.inclusionTo n) isRoot [s] c = some pieces) :
    ∀ piece ∈ pieces, Legible r.settings.quote piece := by
  induction c using Node.induct generalizing isRoot pieces with
  | step c ih =>
    have hinner {children : List Node} (hchildren : ∀ child ∈ children, child ∈ c.childNodes)
        {content : List Piece}
        (hcontent : nodes r.settings (r.inclusionTo n) [s] children = some content) :
        ∀ piece ∈ content, Legible r.settings.quote piece := by
      intro piece hpiece
      obtain ⟨child, hchild, here, hhere, hpiece⟩ := exists_of_mem_nodes hcontent hpiece
      have hmem := hchildren child hchild
      exact ih child hmem (hc.child hmem) hhere piece hpiece
    have hproper := hc.proper c (Node.mem_preorder_self c)
    cases hproper with
    | text h' =>
      cases h
      exact List.forall_mem_singleton.2 h'
    | element word parent keys =>
      rcases element_shown word parent keys
        (fun id hid => hc.named id (Node.mem_names_of_point rfl hid)) hs
        (fun content => hinner fun child hchild => hchild) h with
        rfl | ⟨piece, _, _, rfl, hlegible, _⟩
      · exact nofun
      · exact List.forall_mem_singleton.2 hlegible
    | @reference template point attributes slots placed keys sorted named slotKeys =>
      cases hsub : r.get? template with
      | none =>
        rw [node_reference_none _ _ ((inclusionTo_eq_none n template).2 hsub)] at h
        cases h
        exact List.forall_mem_singleton.2 (legible_marker _)
      | some sub =>
        have hid (id : String) (h : point.id = some id) : IsName id :=
          hc.named id (Node.mem_names_of_point rfl h)
        rcases reference_shown hsub hs sorted named hc.named h with
          rfl | ⟨m, s', rfl, hopened, hroot⟩
        · exact nofun
        · refine hlower m rfl template sub s' pieces hsub ?_ hroot
          refine hopened.tidy hs (isMarkup_bound hs hid isRoot) named ?_ slotKeys
            (Attributes.hasKeys_merge keys (hasKeys_bound hs hid isRoot)) ?_
          · exact fun slot hslot id h => hc.named id (Node.mem_names_of_slot hslot h ..)
          · exact fun slot hslot content =>
              hinner fun child hchild => Node.mem_childNodes_of_slot hslot hchild ..

theorem reads (ht : r.Tidy) (n : Nat) : r.Reads n := by
  induction n with
  | zero => exact fun name D s pieces hD hs => legible_of_lower nofun (ht.root name D hD) hs
  | succ n ih =>
    exact fun name D s pieces hD hs =>
      legible_of_lower (fun m hm => Nat.succ.inj hm ▸ ih) (ht.root name D hD) hs

/-- **Where scopes hold markup, everything is legible**, whatever points the slots are for. -/
theorem legible_node (ht : r.Tidy) (hc : c.Tidy r) (hs : s.Tidy)
    (h : node r.settings (r.inclusionTo n) isRoot [s] c = some pieces) :
    ∀ piece ∈ pieces, Legible r.settings.quote piece :=
  legible_of_lower (fun m _ => reads ht m) hc hs h

theorem legible_nodes (ht : r.Tidy) (hc : ∀ c ∈ children, c.Tidy r) (hs : s.Tidy)
    (h : nodes r.settings (r.inclusionTo n) [s] children = some pieces) :
    ∀ piece ∈ pieces, Legible r.settings.quote piece := by
  intro piece hpiece
  obtain ⟨c, hmem, here, hhere, hpiece⟩ := exists_of_mem_nodes h hpiece
  exact legible_node ht (hc c hmem) hs hhere piece hpiece

/-! ## What tidy nodes show -/

variable {tag template : String} {point : PointSpec} {attributes : Attributes}
  {slots : List (String × Slot)} {sub : Descriptor}

theorem element_of_tidy (ht : r.Tidy) (hc : (Node.element tag point attributes children).Tidy r)
    (hs : s.Tidy) (hnode : node r.settings (r.inclusionTo n) isRoot [s]
      (.element tag point attributes children) = some pieces) :
    pieces = [] ∨ ∃ piece found inner, pieces = [piece] ∧ IsWord tag ∧
      Images r.settings.quote piece (.element tag found inner) ∧
      Encloses r.settings (r.inclusionTo n) s tag (bound point isRoot [s]).value children inner := by
  have hproper := hc.proper _ (Node.mem_preorder_self _)
  cases hproper with
  | element word parent keys =>
    rcases element_shown word parent keys
      (fun id hid => hc.named id (Node.mem_names_of_point rfl hid)) hs
      (fun content => legible_nodes ht (fun c hmem => hc.child hmem) hs) hnode with
      rfl | ⟨piece, found, inner, rfl, _, himage, hencloses⟩
    · exact .inl rfl
    · exact .inr ⟨piece, found, inner, rfl, word, himage, hencloses⟩

theorem reference_of_tidy (ht : r.Tidy)
    (hc : (Node.reference template point attributes slots).Tidy r) (hs : s.Tidy)
    (hsub : r.get? template = some sub)
    (hnode : node r.settings (r.inclusionTo n) isRoot [s]
      (.reference template point attributes slots) = some pieces) :
    pieces = [] ∨ ∃ m s', n = m + 1 ∧
      Opened r.settings (r.inclusionTo n) s (bound point isRoot [s]).value
        (attributes.merge (overridesAt (bound point isRoot [s]).overrides none)) slots s' ∧
      s'.Tidy ∧ node r.settings (r.inclusionTo m) true [s'] sub.root = some pieces := by
  have hid (id : String) (hid : point.id = some id) : IsName id :=
    hc.named id (Node.mem_names_of_point rfl hid)
  have hproper := hc.proper _ (Node.mem_preorder_self _)
  cases hproper with
  | reference _ keys sorted named slotKeys =>
    rcases reference_shown hsub hs sorted named hc.named hnode with
      rfl | ⟨m, s', rfl, hopened, hroot⟩
    · exact .inl rfl
    · refine .inr ⟨m, s', rfl, hopened, ?_, hroot⟩
      refine hopened.tidy hs (isMarkup_bound hs hid isRoot) named ?_ slotKeys
        (Attributes.hasKeys_merge keys (hasKeys_bound hs hid isRoot)) ?_
      · exact fun slot hslot id hid => hc.named id (Node.mem_names_of_slot hslot hid ..)
      · exact fun slot hslot pieces =>
          legible_nodes ht (fun c hmem => hc.child (Node.mem_childNodes_of_slot hslot hmem ..)) hs

end Registry
end Stencil
