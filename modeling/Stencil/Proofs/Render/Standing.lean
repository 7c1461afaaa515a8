import Stencil.Proofs.Render.Paths
import Stencil.Proofs.Render.Tidy

/-! # Nodes in the scope of a reference

What a node of an orderly template shows in the scope that a reference supplies: the same as in the
data of its own point alone, and each child where its segment leads.
-/
namespace Stencil.Render
open Markup Live
variable {settings : Settings} {inclusion : Inclusion} {s X : Record} {D : Descriptor}
  {point : PointSpec} {p : String} {path : Path} {isRoot : Bool} {c : Node} {value : Option Value}

/-! ## Emissions in the scope of a reference -/

theorem value_bound (h : s.find? rootKey = none) (point : PointSpec) (isRoot : Bool) :
    (bound point isRoot [s]).value = point.id.bind s.find? := by
  have hlookup : lookup [s] = s.find? := funext fun key => lookup_singleton s key
  cases isRoot <;> simp [bound, hlookup, h]

theorem laid_bound (h : isRoot → ∀ id, point.id = some id → s.Lacks id) :
    overridesAt (bound point isRoot [s]).overrides none =
      if isRoot then s.laid rootKey else point.id.elim .empty s.laid := by
  have hlookup : lookup [s] = s.find? := funext fun key => lookup_singleton s key
  cases isRoot with
  | false => cases hid : point.id <;> simp [bound, hid, hlookup, Record.laid, overridesAt]
  | true =>
    cases hid : point.id with
    | none => simp [bound, hid, hlookup, Record.laid]
    | some id => simp [bound, hid, hlookup, Record.laid, (h rfl id hid).overrides]

theorem emit_focused (hX : X.Focuses s p path) (hpoint : c.point? = some point)
    (hid : point.id = some p) (hnames : ∀ name ∈ c.names, IsName name)
    (hfit : ∀ name ∈ c.names, s.Lacks name ∨ c.Alone name) :
    emit settings inclusion [X] c = emit settings inclusion [s] c := by
  by_cases hall : ∀ name ∈ c.names, s.Lacks name
  · exact emit_congr fun name hname =>
      Registry.agree_of_lacks (hX.lacks name (hnames name hname)) (hall name hname)
  · obtain ⟨name, hname, hbound⟩ : ∃ name ∈ c.names, ¬ s.Lacks name := by simpa using hall
    obtain ⟨_, tag, attributes, children, rfl, hsilent⟩ :=
      ((hfit name hname).resolve_left hbound).of_point hpoint hid
    have hcontent (own : Option Record) : nodes settings inclusion (inside [X] own) children =
        nodes settings inclusion (inside [s] own) children := by
      refine nodes_congr fun child hchild name hname => ?_
      rw [(hsilent child hchild).names] at hname
      cases hname
    simp only [emit, hcontent]

variable (settings inclusion) in
/-- A named node shows the same in the scope of a reference and in the data of its point alone. -/
theorem node_focused (hs : D.Supplied s) (hX : X.Focuses s p path) (hpoint : c.point? = some point)
    (hid : point.id = some p) (hroot : isRoot ↔ path = []) (hlacks : isRoot → s.Lacks p)
    (hnames : ∀ name ∈ c.names, IsName name)
    (hfit : ∀ name ∈ c.names, s.Lacks name ∨ c.Alone name) :
    node settings inclusion true [X] c = node settings inclusion isRoot [s] c := by
  have hp : IsName p := hnames p (Node.mem_names_of_point hpoint hid)
  have hmarkup : IsMarkup (s.find? p) := (hs.filled hp).value
  have hvalueX : (bound point true [X]).value = s.find? p := by
    simp [bound, hid, lookup_singleton, hX.value, (hX.lacks p hp).value]
  have hvalue : (bound point isRoot [s]).value = s.find? p := by
    rw [value_bound hs.root, hid]
    rfl
  have hlaid : overridesAt (bound point true [X]).overrides none =
      overridesAt (bound point isRoot [s]).overrides none := by
    rw [laid_bound fun _ id h => Option.some.inj (hid.symm.trans h) ▸ hX.lacks p hp,
      laid_bound fun h id h' => Option.some.inj (hid.symm.trans h') ▸ hlacks h, if_pos rfl, hX.laid,
      hid]
    by_cases hpath : path = []
    · rw [if_pos hpath, if_pos (hroot.2 hpath)]
    · rw [if_neg hpath, if_neg fun h => hpath (hroot.1 h)]
      rfl
  have hall : emitAll (emit settings inclusion [X] c) (emissions point true [X]) =
      emitAll (emit settings inclusion [s] c) (emissions point isRoot [s]) := by
    rw [emit_focused hX hpoint hid hnames hfit, emissions_eq, emissions_eq, hvalueX, hvalue,
      emitAll_markup hmarkup, emitAll_markup hmarkup, emit_congr_overrides hlaid]
  cases c with
  | text => cases hpoint
  | element =>
    cases hpoint
    rw [node_element, node_element, hall]
  | reference template =>
    cases hpoint
    cases hexpand : inclusion template with
    | none =>
      rw [node_reference_none settings inclusion hexpand,
        node_reference_none settings inclusion hexpand]
    | some expand =>
      rw [node_reference_some settings inclusion hexpand,
        node_reference_some settings inclusion hexpand, hall]

/-! ## Where a child stands -/

/-- The segment of a child leads to what the child shows. -/
theorem child_of_segment {scopes : List Record} {pre post : List Node} {child : Node}
    {pieces : List Piece} {quote : QuoteStyle} {f g : Fragment} (hinc : Steady inclusion)
    (hstray : ∀ c ∈ pre ++ child :: post, ¬ Stray inclusion c)
    (hwords : (pre ++ child :: post).length < wordSize) (hpoint : child.point? = some point)
    (hfixed : FixedBetween pre child post)
    (h : nodes settings inclusion scopes (pre ++ child :: post) = some pieces)
    (himages : List.Forall₂ (Images quote) (pieces.filter Piece.isElement) f.inner)
    (htarget : f.child? (segmentBetween pre child post) = some g) :
    ∃ here piece, node settings inclusion false scopes child = some here ∧ piece ∈ here ∧
      Images quote piece g := by
  obtain ⟨before, _, hbefore, hrest, rfl⟩ := nodes_append.1 h
  obtain ⟨here, after, hhere, hafter, rfl⟩ := nodes_cons.1 hrest
  obtain ⟨ms, hms, hmsum⟩ :=
    admits_nodes hinc (fun c hc => hstray c (List.mem_append_left _ hc)) hbefore
  obtain ⟨ns, hns, hnsum⟩ := admits_nodes hinc
    (fun c hc => hstray c (List.mem_append_right _ (List.mem_cons_of_mem child hc))) hafter
  obtain ⟨k, hk, hg⟩ := Fragment.child?_eq_some_iff.1 htarget
  have hcount : f.inner.length = ms.sum + Piece.elements here + ns.sum := by
    rw [← himages.length_eq, ← List.countP_eq_length_filter, hmsum, hnsum, Nat.add_assoc]
    exact (Piece.elements_append ..).trans (congrArg _ (Piece.elements_append ..))
  have hfirst : k = ms.sum ∧ 0 < Piece.elements here := by
    rw [hcount] at hk
    rw [List.length_append, List.length_cons] at hwords
    rcases cases_fixed hpoint hfixed with ⟨hf, _, _⟩ | ⟨key, hf, _, _⟩
    · have hone := (node_isOne hinc hf hhere).elements
      rw [hone, resolve_single hf hfixed hms hns (by omega)] at hk
      exact ⟨(Option.some.inj (Except.ok.inj hk)).symm, hone ▸ Nat.one_pos⟩
    · have hpre := Footprint.taken_le_length (pre.map Footprint.ofNode)
      have hpost := Footprint.taken_le_length (post.map Footprint.ofNode)
      rw [List.length_map] at hpre hpost
      obtain ⟨hpos, rfl⟩ := (resolve_chosen hf hfixed hms hns (by omega) _ _).1 hk
      exact ⟨rfl, hpos⟩
  obtain ⟨rfl, hpos⟩ := hfirst
  rw [Piece.elements, List.countP_eq_length_filter] at hpos
  obtain ⟨hlt, hget⟩ := List.getElem?_eq_some_iff.1 hg
  have himage := himages.get (himages.length_eq ▸ hlt) hlt
  have hpiece : ((before ++ (here ++ after)).filter Piece.isElement)[ms.sum]? =
      some (here.filter Piece.isElement)[0] := by
    rw [List.filter_append, List.filter_append, hmsum, Piece.elements,
      List.countP_eq_length_filter, List.getElem?_append_right (Nat.le_refl _), Nat.sub_self,
      List.getElem?_append_left hpos, List.getElem?_eq_getElem]
  refine ⟨here, (here.filter Piece.isElement)[0], hhere,
    (List.mem_filter.1 (List.getElem_mem hpos)).1, ?_⟩
  rw [List.get_eq_getElem, List.get_eq_getElem, (List.getElem?_eq_some_iff.1 hpiece).2] at himage
  exact hget ▸ himage

end Stencil.Render

namespace Stencil.Registry
open Markup Live Render Survey
variable {r : Registry} {D sub : Descriptor} {s : Record} {id id' : NodeId} {c child : Node}
  {path : Path} {isRoot : Bool} {n : Nat} {pieces : List Piece} {tag template : String}
  {point : PointSpec} {attributes : Attributes} {children : List Node}
  {slots : List (String × Slot)}

/-! ## Nodes of an orderly template -/

theorem orderly_child (h : c.Orderly r) (hc : child ∈ c.childNodes) : child.Orderly r := by
  cases h with
  | text => cases hc
  | element _ _ _ _ inner => exact inner child hc
  | void _ _ _ inner => exact inner child hc
  | reference _ _ _ _ _ _ inner =>
    obtain ⟨slot, hslot, hc⟩ := List.mem_flatMap.1 hc
    exact inner slot hslot child hc

theorem proper_of_orderly (h : c.Orderly r) : ∀ m ∈ c.preorder, m.Proper r := by
  induction c using Node.induct with
  | step c ih =>
    intro m hm
    rcases Node.mem_preorder_iff.1 hm with rfl | ⟨child, hchild, hm⟩
    · cases h with
      | text h => exact .text h
      | element word _ parent keys => exact .element word (.inr parent) keys
      | void word written keys => exact .element word (.inl written) keys
      | reference placed keys sorted named slotKeys =>
        exact .reference placed keys sorted named slotKeys
    · exact ih child hchild (orderly_child h hchild) m hm

theorem tidy_of_orderly (h : ∀ name D, r.get? name = some D → D.Orderly r) : r.Tidy where
  root name D hD := ⟨proper_of_orderly (h name D hD).tree, (h name D hD).named, (h name D hD).small⟩
  steady name D hD := (h name D hD).steady

theorem child_shown {pre post : List Node} {f g : Fragment} (ht : r.Tidy)
    (hc : ∀ c ∈ pre ++ child :: post, c.Tidy r)
    (hwords : (pre ++ child :: post).length < wordSize) (hpoint : child.point? = some point)
    (hfixed : FixedBetween pre child post)
    (hnodes : nodes r.settings (r.inclusionTo n) [s] (pre ++ child :: post) = some pieces)
    (himages : List.Forall₂ (Images r.settings.quote) (pieces.filter Piece.isElement) f.inner)
    (hlead : f.follow? (segmentBetween pre child post :: path) = some g) :
    ∃ here piece t, node r.settings (r.inclusionTo n) false [s] child = some here ∧ piece ∈ here ∧
      Images r.settings.quote piece t ∧ t.follow? path = some g := by
  obtain ⟨t, htaken, hrest⟩ := Option.bind_eq_some_iff.1 hlead
  have hstray : ∀ c ∈ pre ++ child :: post, ¬ Stray (r.inclusionTo n) c := by
    intro c hmem
    have hproper := (hc c hmem).proper c (Node.mem_preorder_self c)
    cases hproper with
    | text | element => exact nofun
    | reference placed => exact placed n
  obtain ⟨here, piece, hhere, hpiece, himage⟩ := child_of_segment (steady_inclusionTo ht.steady n)
    hstray hwords hpoint hfixed hnodes himages htaken
  exact ⟨here, piece, t, hhere, hpiece, himage, hrest⟩

/-- A node of the template `D`, and a scope that binds only names that stand alone in it. -/
structure Standing (r : Registry) (D : Descriptor) (s : Record) (id : NodeId) (c : Node) :
    Prop where
  numbered : D.root.Numbered id c
  orderly : c.Orderly r
  named : ∀ name ∈ c.names, IsName name
  small : c.size ≤ wordSize
  fitting : ∀ name ∈ c.names, s.Lacks name ∨ c.Alone name

theorem Standing.tidy (h : r.Standing D s id c) : c.Tidy r :=
  ⟨proper_of_orderly h.orderly, h.named, h.small⟩

theorem standing_root (hD : D.Orderly r) (hs : D.Supplied s) : r.Standing D s 0 D.root where
  numbered := Node.numbered_root D.root
  orderly := hD.tree
  named := hD.named
  small := hD.small
  fitting name hname := (hs.points name (hD.named name hname)).imp_right fun h => h.1.alone

theorem Standing.below (h : r.Standing D s id c) (hc : child ∈ c.childNodes)
    (hnumber : D.root.Numbered id' child) : r.Standing D s id' child where
  numbered := hnumber
  orderly := orderly_child h.orderly hc
  named name hname := h.named name (Node.mem_names_of_child hc hname)
  small := (Node.size_le_of_child hc).trans h.small
  fitting name hname := (h.fitting name (Node.mem_names_of_child hc hname)).imp_right
    fun halone => halone.of_child hc hname

/-- Siblings that are numbered from `first` on stand in a scope. -/
def StandingList (r : Registry) (D : Descriptor) (s : Record) (first : NodeId)
    (children : List Node) : Prop :=
  ∀ pre c post, children = pre ++ c :: post → r.Standing D s (first + Node.sizeList pre) c

theorem Standing.elementChildren (h : r.Standing D s id (.element tag point attributes children)) :
    r.StandingList D s (id + 1) children := by
  rintro pre c post rfl
  exact h.below (List.mem_append_right _ List.mem_cons_self) h.numbered.of_child

theorem Standing.slotChildren {before after : List (String × Slot)} {slot : String × Slot}
    (h : r.Standing D s id (.reference template point attributes (before ++ slot :: after))) :
    r.StandingList D s (id + 1 + (Node.preorderSlots before).length) slot.2.children := by
  intro pre c post hsplit
  have hmem : slot ∈ before ++ slot :: after := by simp
  exact h.below (Node.mem_childNodes_of_slot hmem (by simp [hsplit]) ..)
    (h.numbered.of_slotChild hsplit)

theorem Standing.lacks (h : r.Standing D s id (.reference template point attributes slots)) :
    ∀ name ∈ (Node.reference template point attributes slots).names, s.Lacks name := by
  intro name hname
  rcases h.fitting name hname with hlacks | halone
  · exact hlacks
  · cases halone

theorem Standing.unfilled (h : r.Standing D s id (.reference template point attributes slots))
    (markup : String) : point.id.bind s.find? ≠ some (.scalar markup) := by
  intro hvalue
  obtain ⟨name, hname, hvalue⟩ := Option.bind_eq_some_iff.1 hvalue
  rw [(h.lacks name (Node.mem_names_of_point rfl hname)).value] at hvalue
  cases hvalue

theorem Standing.element (h : r.Standing D s id (.element tag point attributes children))
    (ht : r.Tidy) (hs : D.Supplied s)
    (hnode : node r.settings (r.inclusionTo n) isRoot [s] (.element tag point attributes children) =
      some pieces) :
    pieces = [] ∨ ∃ piece found inner, pieces = [piece] ∧
      Images r.settings.quote piece (.element tag found inner) ∧
      Encloses r.settings (r.inclusionTo n) s tag (point.id.bind s.find?) children inner := by
  rw [← value_bound hs.root point isRoot]
  rcases element_of_tidy ht h.tidy hs.tidy hnode with rfl | ⟨piece, found, inner, rfl, _, hshown⟩
  · exact .inl rfl
  · exact .inr ⟨piece, found, inner, rfl, hshown⟩

/-- A reference in an orderly template shows nothing, or the root of its template in a scope that
supplies it: the one that its attributes and slots make. -/
theorem Standing.reference (h : r.Standing D s id (.reference template point attributes slots))
    (ht : r.Tidy) (hs : D.Supplied s) (hroot : isRoot ↔ path = [])
    (hsub : r.get? template = some sub)
    (hnode : node r.settings (r.inclusionTo n) isRoot [s]
      (.reference template point attributes slots) = some pieces) :
    pieces = [] ∨ ∃ m s', n = m + 1 ∧ Added r.settings (r.inclusionTo n) s
        (rootScope (attributes.merge (if path = [] then s.laid rootKey else .empty)) none) s'
          slots ∧
      sub.Supplied s' ∧ node r.settings (r.inclusionTo m) true [s'] sub.root = some pieces := by
  have hown (id : String) (hid : point.id = some id) : s.Lacks id :=
    h.lacks id (Node.mem_names_of_point rfl hid)
  have hvalue : (bound point isRoot [s]).value = none := by
    rw [value_bound hs.root]
    cases hid : point.id with
    | none => rfl
    | some id => exact (hown id hid).value
  have hlaid : overridesAt (bound point isRoot [s]).overrides none =
      if path = [] then s.laid rootKey else .empty := by
    have helim : point.id.elim .empty s.laid = .empty := by
      cases hid : point.id with
      | none => rfl
      | some id => exact (hown id hid).laid
    rw [laid_bound fun _ => hown, helim]
    by_cases hpath : path = []
    · rw [if_pos hpath, if_pos (hroot.2 hpath)]
    · rw [if_neg hpath, if_neg fun h => hpath (hroot.1 h)]
  rcases reference_of_tidy ht h.tidy hs.tidy hsub hnode with
    rfl | ⟨m, s', rfl, hopened, hs', hpieces⟩
  · exact .inl rfl
  · rw [hlaid] at hopened
    cases hopened with
    | markup bound => cases hvalue.symm.trans bound
    | slots _ received =>
      have hadded : Added r.settings _ s _ s' slots := ⟨received, fun slot hslot id hid =>
        h.lacks id (Node.mem_names_of_slot hslot hid ..)⟩
      cases h.orderly with
      | reference _ _ _ named _ offered =>
        exact .inr ⟨m, s', rfl, hadded, hadded.supplied hs' named (offered sub hsub), hpieces⟩

end Stencil.Registry
