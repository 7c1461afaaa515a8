import Stencil.Proofs.Registry.Coherence
import Stencil.Proofs.Render.Standing

/-! # Where a bound name shows

What a scope binds to a name shows at the node that declares the name. A reference hands it on to
its template only through a slot that names it; a point of that template which the reference takes
over without a slot is never looked up.
-/
namespace Stencil
open Markup Live Render

def Record.Only (s : Record) (names : String → Prop) : Prop :=
  ∀ name, name = rootKey ∨ IsName name → s.find? name = none ∨ names name

/-- The names to which slots bind something, in a scope where only these names are bound. -/
def passedOn (names : String → Prop) (slots : List (String × Slot)) (q : String) : Prop :=
  ∃ slot, (q, slot) ∈ slots ∧ (slot.children ≠ [] ∨ ∃ id, slot.id = some id ∧ names id)

/-- The node is bound by the name. -/
inductive PointSpec.Meets (point : PointSpec) (names : String → Prop) (isRoot : Bool) :
    String → Prop
  | root (h : isRoot = true) : Meets point names isRoot rootKey
  | own {p : String} (id : point.id = some p) (clear : isRoot = true → ¬ names rootKey) :
      Meets point names isRoot p

/-- Nothing is bound to the node. -/
structure PointSpec.Clear (point : PointSpec) (names : String → Prop) (isRoot : Bool) : Prop where
  root : isRoot = true → ¬ names rootKey
  own : ∀ id, point.id = some id → ¬ names id

theorem PointSpec.Clear.anonymous (names : String → Prop) :
    PointSpec.Clear .anonymous names false := ⟨nofun, nofun⟩

/-- An element with these children, unless its tag is written without content. -/
inductive Live.Fragment.FilledBy (settings : Settings) (filling : List Fragment) : Fragment → Prop
  | nothing {tag : String} {found : Attributes} (void : settings.isVoid tag = true) :
      FilledBy settings filling (.element tag found [])
  | filled {tag : String} {found : Attributes} (word : IsWord tag)
      (written : settings.isVoid tag = false) (parent : ¬ isChildless tag) :
      FilledBy settings filling (.element tag found filling)

namespace Render
variable {settings : Settings} {inclusion : Inclusion} {s s' : Record} {names : String → Prop}
  {isRoot : Bool} {point : PointSpec} {p : String} {value : Value} {a : Attributes}
  {slots : List (String × Slot)}

theorem value_of_meets (h : point.Meets names isRoot p) (honly : s.Only names)
    (hp : s.find? p = some value) : (bound point isRoot [s]).value = some value := by
  have hlookup : lookup [s] = s.find? := funext fun key => lookup_singleton s key
  cases h with
  | root h => simp [bound, hlookup, h, hp]
  | own id clear =>
    cases isRoot with
    | false => simp [bound, hlookup, id, hp]
    | true =>
      have hroot := (honly rootKey (.inl rfl)).resolve_right (clear rfl)
      simp [bound, hlookup, id, hp, hroot]

theorem value_of_clear (h : point.Clear names isRoot) (honly : s.Only names)
    (hid : ∀ id, point.id = some id → IsName id) : (bound point isRoot [s]).value = none := by
  have hlookup : lookup [s] = s.find? := funext fun key => lookup_singleton s key
  have hown : point.id.bind s.find? = none := by
    cases hpoint : point.id with
    | none => rfl
    | some id => exact (honly id (.inr (hid id hpoint))).resolve_right (h.own id hpoint)
  cases isRoot with
  | false => simp [bound, hlookup, hown]
  | true =>
    have hroot := (honly rootKey (.inl rfl)).resolve_right (h.root rfl)
    simp [bound, hlookup, hown, hroot]

theorem Receives.only (h : Receives settings inclusion s (rootScope a none) s' slots)
    (named : ∀ slot ∈ slots, IsName slot.1)
    (ids : ∀ slot ∈ slots, ∀ id, slot.2.id = some id → IsName id) (honly : s.Only names) :
    s'.Only (passedOn names slots) := by
  rintro name (rfl | hname)
  · exact .inl (h.root named).1
  · by_cases hno : ∀ slot ∈ slots, slot.1 ≠ name
    · exact .inl (h.lacks named hname hno).value
    · obtain ⟨slot, hslot, rfl⟩ : ∃ slot ∈ slots, slot.1 = name := by simpa using hno
      have hvalue := h.value named hslot
      generalize s'.find? slot.1 = value at hvalue ⊢
      cases hvalue with
      | nothing => exact .inl rfl
      | value own =>
        obtain ⟨id, hid, hbound⟩ := Option.bind_eq_some_iff.1 own
        refine .inr ⟨slot.2, hslot, .inr ⟨id, hid, ?_⟩⟩
        refine (honly id (.inr (ids slot hslot id hid))).resolve_left ?_
        rw [hbound]
        exact Option.some_ne_none _
      | content _ some_content => exact .inr ⟨slot.2, hslot, .inl some_content⟩

theorem only_rootScope (a : Attributes) (value : Option Value) :
    (rootScope a value).Only (· = rootKey) := by
  rintro name (rfl | hname)
  · exact .inr rfl
  · exact .inl (lacks_rootScope hname a value).value

end Render

namespace Registry
open Survey
variable {r : Registry}

/-- What a scope binds to a name shows at the end of a path from a node: `names` are all the names
that the scope binds. -/
inductive Reveals (r : Registry) : (String → Prop) → Bool → Node → Path → String → Prop
  | element {names : String → Prop} {isRoot : Bool} {tag p : String} {point : PointSpec}
      {attributes : Attributes} {children : List Node} (meets : point.Meets names isRoot p) :
      Reveals r names isRoot (.element tag point attributes children) [] p
  | reference {names : String → Prop} {isRoot : Bool} {template p : String} {point : PointSpec}
      {attributes : Attributes} {slots : List (String × Slot)} {sub : Descriptor}
      (meets : point.Meets names isRoot p) (registered : r.get? template = some sub)
      (below : Reveals r (· = rootKey) true sub.root [] rootKey) :
      Reveals r names isRoot (.reference template point attributes slots) [] p
  | child {names : String → Prop} {isRoot : Bool} {tag p : String} {point : PointSpec}
      {attributes : Attributes} {pre post : List Node} {c : Node} {rel : Path}
      (clear : point.Clear names isRoot) (fixed : FixedBetween pre c post)
      (h : Reveals r names false c rel p) :
      Reveals r names isRoot (.element tag point attributes (pre ++ c :: post))
        (segmentBetween pre c post :: rel) p
  /-- A slot takes what is bound to its name to its point. -/
  | renamed {names : String → Prop} {isRoot : Bool} {template p q : String} {point : PointSpec}
      {attributes : Attributes} {slots : List (String × Slot)} {slot : Slot} {sub : Descriptor}
      {rel : Path} (clear : point.Clear names isRoot) (registered : r.get? template = some sub)
      (among : (q, slot) ∈ slots) (id : slot.id = some p)
      (below : Reveals r (passedOn names slots) true sub.root rel q) :
      Reveals r names isRoot (.reference template point attributes slots) rel p
  /-- The content of a slot shows at its point, and the name in this content. -/
  | content {names : String → Prop} {isRoot : Bool} {template p q : String} {point : PointSpec}
      {attributes : Attributes} {slots : List (String × Slot)} {slot : Slot} {sub : Descriptor}
      {rel rel' : Path} {pre post : List Node} {c : Node} (clear : point.Clear names isRoot)
      (registered : r.get? template = some sub) (among : (q, slot) ∈ slots)
      (unbound : ∀ id, slot.id = some id → ¬ names id)
      (below : Reveals r (passedOn names slots) true sub.root rel q)
      (split : slot.children = pre ++ c :: post) (fixed : FixedBetween pre c post)
      (h : Reveals r names false c rel' p) :
      Reveals r names isRoot (.reference template point attributes slots)
        (rel ++ segmentBetween pre c post :: rel') p

variable {names : String → Prop} {isRoot : Bool} {c child : Node} {path : Path} {s : Record}
  {p tag template markup : String} {n : Nat} {pieces : List Piece} {piece : Piece} {f g : Fragment}
  {filling : List Fragment} {pre post children : List Node} {point : PointSpec}
  {attributes : Attributes} {slots : List (String × Slot)} {sub : Descriptor}

theorem Reveals.exists_point (h : r.Reveals names isRoot c path p) :
    ∃ point, c.point? = some point := by
  cases h <;> exact ⟨_, rfl⟩

theorem enclosed_of_node (ht : r.Tidy) (hc : (Node.element tag point attributes children).Tidy r)
    (hs : s.Tidy) (hnode : node r.settings (r.inclusionTo n) isRoot [s]
      (.element tag point attributes children) = some pieces) (hpiece : piece ∈ pieces)
    (himage : Images r.settings.quote piece f) :
    IsWord tag ∧ ∃ found inner, f = .element tag found inner ∧ Encloses r.settings (r.inclusionTo n) s
      tag (bound point isRoot [s]).value children inner := by
  rcases element_of_tidy ht hc hs hnode with
    rfl | ⟨piece', found, inner, rfl, word, himage', hencloses⟩
  · cases hpiece
  · cases List.mem_singleton.1 hpiece
    exact ⟨word, found, inner, himage.unique himage', hencloses⟩

theorem received_of_node (ht : r.Tidy)
    (hc : (Node.reference template point attributes slots).Tidy r) (hs : s.Tidy)
    (honly : s.Only names) (clear : point.Clear names isRoot) (hsub : r.get? template = some sub)
    (hnode : node r.settings (r.inclusionTo n) isRoot [s]
      (.reference template point attributes slots) = some pieces) (hpiece : piece ∈ pieces) :
    ∃ m s', n = m + 1 ∧ s'.Tidy ∧ s'.Only (passedOn names slots) ∧
      (∀ slot ∈ slots, Brings r.settings (r.inclusionTo n) s slot.2 (s'.find? slot.1)) ∧
      node r.settings (r.inclusionTo m) true [s'] sub.root = some pieces := by
  have hvalue := value_of_clear clear honly fun id hid =>
    hc.named id (Node.mem_names_of_point rfl hid)
  rcases reference_of_tidy ht hc hs hsub hnode with rfl | ⟨m, s', rfl, hopened, hs', hroot⟩
  · cases hpiece
  · cases hopened with
    | markup bound => cases hvalue.symm.trans bound
    | slots _ received =>
      have hproper := hc.proper _ (Node.mem_preorder_self _)
      cases hproper with
      | reference _ _ _ named _ =>
        refine ⟨m, s', rfl, hs', ?_, fun slot hslot => received.value named hslot, hroot⟩
        exact received.only named
          (fun slot hslot id hid => hc.named id (Node.mem_names_of_slot hslot hid ..)) honly

/-- **What is bound to a name fills the element that the path leads to**, if the path is one on
which the name is revealed. -/
theorem Reveals.filled (ht : r.Tidy) (h : r.Reveals names isRoot c path p) (hc : c.Tidy r)
    (hs : s.Tidy) (honly : s.Only names) (hp : s.find? p = some (.scalar markup))
    (hfills : Fills markup.toList filling)
    (hnode : node r.settings (r.inclusionTo n) isRoot [s] c = some pieces) (hpiece : piece ∈ pieces)
    (himage : Images r.settings.quote piece f) (hlead : f.follow? path = some g) :
    g.FilledBy r.settings filling := by
  induction h generalizing s n pieces piece f g markup filling with
  | element meets =>
    have hvalue := value_of_meets meets honly hp
    obtain ⟨word, found, inner, rfl, hencloses⟩ := enclosed_of_node ht hc hs hnode hpiece himage
    cases hlead
    cases hencloses with
    | nothing void => exact .nothing void
    | markup written parent bound fills =>
      cases hvalue.symm.trans bound
      obtain rfl := fills.unique hfills
      exact .filled word written parent
    | children _ _ unbound => cases hvalue.symm.trans unbound
  | @reference _ _ template _ _ _ _ sub meets registered _ ih =>
    have hvalue := value_of_meets meets honly hp
    rcases reference_of_tidy ht hc hs registered hnode with
      rfl | ⟨m, s', rfl, hopened, hs', hroot⟩
    · cases hpiece
    · cases hopened with
      | slots unbound => cases hvalue.symm.trans unbound
      | markup bound =>
        cases hvalue.symm.trans bound
        refine ih (ht.root template sub registered) hs' (only_rootScope _ _) ?_ hfills hroot hpiece
          himage hlead
        rw [find?_rootScope (attributeKey_ne_rootKey rootKey).symm, if_pos rfl]
  | @child _ _ _ _ _ _ pre post c _ clear fixed h ih =>
    have hvalue := value_of_clear clear honly fun id hid =>
      hc.named id (Node.mem_names_of_point rfl hid)
    have hchildren : ∀ child ∈ pre ++ c :: post, child.Tidy r := fun child hmem => hc.child hmem
    obtain ⟨_, found, inner, rfl, hencloses⟩ := enclosed_of_node ht hc hs hnode hpiece himage
    cases hencloses with
    | nothing => simp [Fragment.follow?, Fragment.child?, Fragment.inner] at hlead
    | markup _ _ bound => cases hvalue.symm.trans bound
    | children _ _ _ rendered images =>
      obtain ⟨_, hpoint⟩ := h.exists_point
      obtain ⟨here, piece, t, hhere, hpiece, himage, hrest⟩ := child_shown
        (f := .element _ found inner) ht hchildren hc.length_children_lt hpoint fixed rendered
        images hlead
      exact ih (hchildren c (by simp)) hs honly hp hfills hhere hpiece himage hrest
  | @renamed _ _ template _ _ _ _ _ _ sub _ clear registered among id _ ih =>
    obtain ⟨m, s', rfl, hs', honly', hbrings, hroot⟩ :=
      received_of_node ht hc hs honly clear registered hnode hpiece
    refine ih (ht.root template sub registered) hs' honly' ?_ hfills hroot hpiece himage hlead
    refine (hbrings _ among).eq_bound ?_
    rw [id]
    exact hp
  | @content _ _ template _ _ _ _ slots slot sub rel rel' pre post c clear registered among unbound
      _ split fixed h ih ih' =>
    obtain ⟨m, s', rfl, hs', honly', hbrings, hroot⟩ :=
      received_of_node ht hc hs honly clear registered hnode hpiece
    have hslot : slot.id.bind s.find? = none := by
      cases hid : slot.id with
      | none => rfl
      | some id =>
        have hname := hc.named id (Node.mem_names_of_slot among hid ..)
        exact (honly id (.inr hname)).resolve_right (unbound id hid)
    obtain ⟨content, rendered, hfind⟩ := (hbrings _ among).eq_rendered hslot (by simp [split])
    have hcontent : ∀ child ∈ slot.children, child.Tidy r := fun child hmem =>
      hc.child (Node.mem_childNodes_of_slot among hmem ..)
    obtain ⟨inner, images, fills⟩ := fills_writeList (legible_nodes ht hcontent hs rendered)
    rw [Fragment.follow?_append] at hlead
    obtain ⟨t, ht', hrest⟩ := Option.bind_eq_some_iff.1 hlead
    have hfilled := ih (ht.root template sub registered) hs' honly' hfind fills hroot hpiece
      himage ht'
    cases hfilled with
    | nothing => simp [Fragment.follow?, Fragment.child?, Fragment.inner] at hrest
    | @filled tag found =>
      have hwords := hc.length_slot_lt among
      obtain ⟨_, hpoint⟩ := h.exists_point
      rw [split] at hcontent hwords rendered
      obtain ⟨here, piece, t, hhere, hpiece, himage, hlast⟩ := child_shown
        (f := .element tag found inner) ht hcontent hwords hpoint fixed rendered images hrest
      exact ih' (hcontent c (by simp)) hs honly hp hfills hhere hpiece himage hlast

/-! ## Points of the template itself -/

variable {lookup : String → Option Descriptor} {start place : Place}

def Unfilled (c : Node) : Prop :=
  ∀ template point attributes slots, .reference template point attributes slots ∈ c.preorder →
    ∀ slot ∈ slots, slot.2.children = []

/-- On the way from one place to an element, the name of the element is revealed if no other place
on the way has it. -/
theorem reveals_of_reaches (h : Place.Reaches lookup start place) (hslots : Unfilled start.node)
    (hattached : place.detached = false)
    (helement : place.node = .element tag point attributes children) (hid : point.id = some p)
    (hname : IsName p) (hnames : ∀ other, names other → other = p)
    (hsame : ∀ other own, Place.Reaches lookup start other → other.detached = false →
      other.node.point? = some own → own.id = some p → other.path = place.path)
    (isRoot : Bool) :
    ∃ rel, place.path = start.path ++ rel ∧ r.Reveals names isRoot start.node rel p := by
  have hroot : ¬ names rootKey := fun hbound => hname.ne_rootKey (hnames _ hbound).symm
  induction h using Relation.ReflTransGen.head_induction_on generalizing isRoot with
  | refl =>
    refine ⟨[], (List.append_nil _).symm, ?_⟩
    rw [helement]
    exact .element (.own hid fun _ => hroot)
  | @head start next hstep hrest ih =>
    have hgrows := (Place.Reaches.grows hrest).2 hattached
    have hslots' : Unfilled next.node := fun template point attributes slots hm =>
      hslots template point attributes slots (Node.mem_preorder_of_child hstep.mem_childNodes hm)
    obtain ⟨rel, hpath, hreveals⟩ := ih hslots'
      (fun other own hother => hsame other own (.head hstep hother)) false
    cases hstep with
    | @child tag' own _ _ pre post c element split =>
      obtain ⟨hbefore, hfixed⟩ := Bool.or_eq_false_iff.1 hgrows
      have hlonger : place.path = start.path ++ segmentBetween pre c post :: rel := by
        rw [hpath, Place.child, List.append_assoc]
        rfl
      refine ⟨_, hlonger, ?_⟩
      rw [element, split]
      refine .child ⟨fun _ => hroot, fun id hown hbound => ?_⟩ ((Bool.not_eq_false' _).mp hfixed)
        hreveals
      obtain rfl := hnames id hbound
      have hdeclared : start.node.point? = some own := by
        rw [element]
        rfl
      have hlength := congrArg List.length (hsame start own .refl hbefore hdeclared hown)
      rw [hlonger, List.length_append, List.length_cons] at hlength
      omega
    | @slotChild template own attributes _ _ slots before after slot _ _ _ reference among _ _
        split =>
      have hslot : slot ∈ slots := by simp [among]
      have hbare := hslots template own attributes slots (by
        rw [← reference]
        exact Node.mem_preorder_self _) slot hslot
      simp [split] at hbare

theorem reveals_of_own {D : Descriptor} {entry : PointEntry} {name : String} (hr : r.Reachable)
    (hD : r.get? name = some D) (hp : D.table.point? p = some entry)
    (hown : entry.inherited = none) (helement : D.root.preorder[entry.node]? =
      some (.element tag point attributes children)) (hname : IsName p)
    (hslots : Unfilled D.root) (hnames : ∀ other, names other → other = p) :
    r.Reveals names true D.root entry.path p := by
  obtain ⟨lookup, hcompiled, _⟩ := hr.compiled_against name D hD
  rw [hcompiled] at hp
  obtain ⟨place, hreaches, hattached, ⟨own, hdeclared, hid, rfl⟩ |
    ⟨_, _, _, _, _, _, _, _, _, _, rfl, _⟩⟩ := Descriptor.place_of_point? hp
  · have hplace : place.node = .element tag point attributes children :=
      Option.some.inj ((Place.Reaches.numbered hreaches).getElem?.symm.trans helement)
    rw [hplace] at hdeclared
    cases hdeclared
    have hsame : ∀ other own, Place.Reaches lookup (.root D.root) other → other.detached = false →
        other.node.point? = some own → own.id = some p → other.path = place.path := by
      intro other own hother hfixed hdeclared hid
      exact PointTable.path_of_sighted hp
        (Place.mem_visit_iff.2 ⟨other, hother, noted_of_own hfixed hdeclared hid⟩)
    obtain ⟨rel, hpath, hreveals⟩ := reveals_of_reaches (r := r) hreaches hslots hattached hplace
      hid hname hnames hsame true
    obtain rfl : place.path = rel := hpath
    exact hreveals
  · cases hown

end Registry
end Stencil
