import Stencil.Proofs.Point.Placement
import Stencil.Proofs.Registry.Reachable
import Stencil.Proofs.Render.Ending

/-! # How many elements a node renders to

A child that counts as one place renders to one element or one marker, unless it is a reference to a
template whose root does not: a text, or a repeated node, which is emitted as often as the data
says.
So the positions in a point table are right for all data exactly if no template has such a root.
-/
namespace Stencil

namespace Piece

/-- Whether the piece is an element of the markup; raw markup counts as none. -/
def isElement : Piece → Bool
  | raw _ => false
  | _ => true

def elements (pieces : List Piece) : Nat := pieces.countP isElement

def IsOne (pieces : List Piece) : Prop := ∃ p, pieces = [p] ∧ p.isElement

theorem IsOne.elements {pieces : List Piece} (h : IsOne pieces) : elements pieces = 1 := by
  obtain ⟨p, rfl, hp⟩ := h
  rw [Piece.elements, List.countP_singleton, if_pos hp]

theorem isOne_marker (message : String) : IsOne [.marker message] := ⟨_, rfl, rfl⟩

theorem elements_append (a b : List Piece) : elements (a ++ b) = elements a + elements b :=
  List.countP_append

end Piece

namespace Render
open Piece
variable {settings : Settings} {inclusion : Inclusion} {isRoot : Bool} {scopes : List Record}
  {point : PointSpec} {child : Node} {pieces : List Piece}

theorem emissions_single (h : point.cardinality = .single) (isRoot : Bool) (scopes : List Record) :
    (∃ message, emissions point isRoot scopes = .error message) ∨
      ∃ e, emissions point isRoot scopes = .ok [e] := by
  unfold emissions
  simp only [h]
  split
  · exact .inl ⟨_, rfl⟩
  · next heq _ => cases heq
  · next heq _ => cases heq
  · exact .inr ⟨_, rfl⟩

theorem emissions_anonymous (h : point.cardinality = .multiple) (hid : point.id = none)
    (scopes : List Record) : emissions point false scopes = .ok [] := by
  simp [emissions, bound, h, hid]

theorem surround_isOne {tag : String} {attributes : Attributes}
    {content : Unit → Option (List Piece)}
    (h : surround settings tag attributes content = some pieces) : IsOne pieces := by
  unfold surround at h
  split at h
  · cases h
    exact ⟨_, rfl, rfl⟩
  · obtain ⟨inner, _, rfl⟩ := Option.map_eq_some_iff.1 h
    exact ⟨_, rfl, rfl⟩

theorem flatten_mapM_singleton {α β : Type} (f : α → Option (List β)) (a : α) :
    ([a].mapM f).map List.flatten = f a := by
  rw [List.mapM_cons, List.mapM_nil]
  cases f a with
  | none => rfl
  | some b => simp

/-- Every included template renders to one element. -/
def Steady (inclusion : Inclusion) : Prop :=
  ∀ template expand, inclusion template = some expand →
    ∀ scope pieces, expand scope = some pieces → IsOne pieces

theorem cardinality_of_element (hpoint : child.point? = some point)
    (h : Footprint.ofNode child = .element) : point.cardinality = .single := by
  unfold Footprint.ofNode at h
  rw [hpoint] at h
  cases hc : point.cardinality with
  | single => rfl
  | multiple =>
    simp only [hc] at h
    cases hid : point.id <;> simp [hid] at h

theorem anonymous_of_none (hpoint : child.point? = some point)
    (h : Footprint.ofNode child = .none) :
    point.cardinality = .multiple ∧ point.id = none := by
  unfold Footprint.ofNode at h
  rw [hpoint] at h
  cases hc : point.cardinality with
  | single => simp [hc] at h
  | multiple =>
    simp only [hc] at h
    cases hid : point.id with
    | none => exact ⟨rfl, rfl⟩
    | some key => simp [hid] at h

/-- A single node renders to one element. -/
theorem node_isOne (hinc : Steady inclusion) (hchild : Footprint.ofNode child = .element)
    (h : node settings inclusion isRoot scopes child = some pieces) : IsOne pieces := by
  cases child with
  | text markup => cases hchild
  | element tag point attributes children =>
    have hsingle := cardinality_of_element rfl hchild
    rw [node] at h
    rcases emissions_single hsingle isRoot scopes with ⟨message, he⟩ | ⟨e, he⟩
    · rw [he] at h
      cases h
      exact isOne_marker message
    · rw [he] at h
      simp only [flatten_mapM_singleton] at h
      split at h
      · exact surround_isOne h
      · exact surround_isOne h
      · exact surround_isOne h
      · cases h
        exact isOne_marker _
  | reference template point attributes slots =>
    have hsingle := cardinality_of_element rfl hchild
    rw [node] at h
    cases hexpand : inclusion template with
    | none =>
      rw [hexpand] at h
      cases h
      exact isOne_marker _
    | some expand =>
      rw [hexpand] at h
      rcases emissions_single hsingle isRoot scopes with ⟨message, he⟩ | ⟨e, he⟩
      · rw [he] at h
        cases h
        exact isOne_marker message
      · rw [he] at h
        simp only [flatten_mapM_singleton] at h
        split at h
        · exact hinc template expand hexpand _ _ h
        · obtain ⟨scope, _, h⟩ := Option.bind_eq_some_iff.1 h
          exact hinc template expand hexpand scope _ h
        · obtain ⟨scope, _, h⟩ := Option.bind_eq_some_iff.1 h
          exact hinc template expand hexpand scope _ h

/-- A repeated reference without a name to a template that is not included: it renders to a marker,
though it takes no place. -/
def Stray (inclusion : Inclusion) : Node → Prop
  | .reference template point _ _ =>
    point.isMultiple ∧ point.id = none ∧ inclusion template = none
  | _ => False

/-- A child renders to as many elements as its footprint says. -/
theorem admits_elements (hinc : Steady inclusion) (hstray : ¬ Stray inclusion child)
    (h : node settings inclusion false scopes child = some pieces) :
    (Footprint.ofNode child).Admits (elements pieces) := by
  cases hf : Footprint.ofNode child with
  | element => exact (node_isOne hinc hf h).elements
  | repeated key => exact trivial
  | none =>
    show elements pieces = 0
    cases child with
    | text markup =>
      cases h
      rfl
    | element tag point attributes children =>
      obtain ⟨hmultiple, hid⟩ := anonymous_of_none rfl hf
      rw [node, emissions_anonymous hmultiple hid] at h
      cases h
      rfl
    | reference template point attributes slots =>
      obtain ⟨hmultiple, hid⟩ := anonymous_of_none rfl hf
      rw [node] at h
      cases hexpand : inclusion template with
      | none => exact absurd ⟨decide_eq_true hmultiple, hid, hexpand⟩ hstray
      | some expand =>
        rw [hexpand, emissions_anonymous hmultiple hid] at h
        cases h
        rfl

theorem nodes_cons {rest : List Node} :
    nodes settings inclusion scopes (child :: rest) = some pieces ↔
      ∃ a b, node settings inclusion false scopes child = some a ∧
        nodes settings inclusion scopes rest = some b ∧ pieces = a ++ b := by
  rw [nodes]
  simp only [bind, pure, Option.bind_eq_some_iff, Option.some.injEq]
  constructor
  · rintro ⟨a, ha, b, hb, rfl⟩
    exact ⟨a, b, ha, hb, rfl⟩
  · rintro ⟨a, b, ha, hb, rfl⟩
    exact ⟨a, ha, b, hb, rfl⟩

theorem nodes_append {pre post : List Node} :
    nodes settings inclusion scopes (pre ++ post) = some pieces ↔
      ∃ a b, nodes settings inclusion scopes pre = some a ∧
        nodes settings inclusion scopes post = some b ∧ pieces = a ++ b := by
  induction pre generalizing pieces with
  | nil => simp [nodes]
  | cons child pre ih =>
    simp only [List.cons_append, nodes_cons, ih]
    constructor
    · rintro ⟨a, _, ha, ⟨b, c, hb, hc, rfl⟩, rfl⟩
      exact ⟨a ++ b, c, ⟨a, b, ha, hb, rfl⟩, hc, (List.append_assoc ..).symm⟩
    · rintro ⟨_, c, ⟨a, b, ha, hb, rfl⟩, hc, rfl⟩
      exact ⟨a, b ++ c, ha, ⟨b, c, hb, hc, rfl⟩, List.append_assoc ..⟩

theorem admits_nodes (hinc : Steady inclusion) {children : List Node}
    (hstray : ∀ c ∈ children, ¬ Stray inclusion c)
    (h : nodes settings inclusion scopes children = some pieces) :
    ∃ ns : List Nat, List.Forall₂ Footprint.Admits (children.map Footprint.ofNode) ns ∧
      ns.sum = elements pieces := by
  induction children generalizing pieces with
  | nil =>
    cases h
    exact ⟨[], .nil, rfl⟩
  | cons child rest ih =>
    obtain ⟨a, b, ha, hb, rfl⟩ := nodes_cons.1 h
    obtain ⟨ns, hns, hsum⟩ := ih (fun c hc => hstray c (List.mem_cons_of_mem child hc)) hb
    have hhead := admits_elements hinc (hstray child List.mem_cons_self) ha
    refine ⟨elements a :: ns, .cons hhead hns, ?_⟩
    rw [List.sum_cons, hsum, elements_append]

/-- A single child stands where its placement says, if that is fixed. -/
theorem resolve_child (hinc : Steady inclusion) {pre post : List Node}
    (hchild : Footprint.ofNode child = .element)
    (hstray : ∀ c ∈ pre ++ child :: post, ¬ Stray inclusion c)
    (hwords : (pre ++ child :: post).length < wordSize)
    (h : nodes settings inclusion scopes (pre ++ child :: post) = some pieces) :
    ∃ before p after, pieces = before ++ p :: after ∧
      node settings inclusion false scopes child = some [p] ∧
      ∀ placement,
        (Placement.ofFootprints ((pre ++ child :: post).map Footprint.ofNode))[pre.length]? =
          some placement →
        placement.isFixed →
        placement.segment.resolve none (elements pieces) = .ok (some (elements before)) := by
  obtain ⟨before, _, hbefore, hrest, rfl⟩ := nodes_append.1 h
  obtain ⟨here, after, hhere, hafter, rfl⟩ := nodes_cons.1 hrest
  obtain ⟨p, rfl, hp⟩ := node_isOne hinc hchild hhere
  refine ⟨before, p, after, rfl, hhere, fun placement hplacement hfixed => ?_⟩
  have hmap : (pre ++ child :: post).map Footprint.ofNode =
      pre.map Footprint.ofNode ++ .element :: post.map Footprint.ofNode := by
    rw [List.map_append, List.map_cons, hchild]
  have hlength : pre.length = (pre.map Footprint.ofNode).length := List.length_map _ |>.symm
  rw [hmap, hlength, Placement.getElem?_ofFootprints] at hplacement
  cases hplacement
  obtain ⟨ms, hms, hmsum⟩ :=
    admits_nodes hinc (fun c hc => hstray c (List.mem_append_left _ hc)) hbefore
  obtain ⟨ns, hns, hnsum⟩ := admits_nodes hinc
    (fun c hc => hstray c (List.mem_append_right _ (List.mem_cons_of_mem child hc))) hafter
  have hword : Footprint.taken (post.map Footprint.ofNode) + 1 < wordSize := by
    have htaken := Footprint.taken_le_length (post.map Footprint.ofNode)
    rw [List.length_map] at htaken
    rw [List.length_append, List.length_cons] at hwords
    omega
  have hresolve := (Placement.resolve_element hfixed hms hns (fun _ => hword) none).2
  rw [hmsum, hnsum] at hresolve
  rwa [elements_append, elements_append, Piece.IsOne.elements ⟨p, rfl, hp⟩, ← Nat.add_assoc]

/-! ## A repeated root that nothing is bound to -/

theorem emissions_unbound (h : point.cardinality = .multiple) :
    emissions point true [[]] = .ok [] := by
  have hlookup (key : String) : lookup [[]] key = none := rfl
  cases hid : point.id with
  | none => simp [emissions, bound, h, hlookup, hid]
  | some id => simp [emissions, bound, h, hlookup, hid]

end Render

namespace Registry
open Render Piece
variable {r : Registry} {isRoot : Bool} {scopes : List Record} {root : Node}
  {pieces : List Piece}

/-- The root of a template does not always render to one element. -/
def Varies (r : Registry) : Node → Prop
  | .text _ => True
  | .element _ point _ _ => point.isMultiple
  | .reference template point _ _ => point.isMultiple ∧ r.contains template

theorem ofNode_of_single {node : Node} {point : PointSpec} (hpoint : node.point? = some point)
    (h : ¬ point.isMultiple) : Footprint.ofNode node = .element := by
  have hsingle : point.cardinality = .single := by
    cases hc : point.cardinality with
    | single => rfl
    | multiple => exact absurd (decide_eq_true hc) h
  unfold Footprint.ofNode
  rw [hpoint]
  simp only [hsingle]

theorem isOne_root {n : Nat} (hinc : Steady (r.inclusionTo n)) (hroot : ¬ r.Varies root)
    (h : node r.settings (r.inclusionTo n) isRoot scopes root = some pieces) : IsOne pieces := by
  cases root with
  | text markup => exact absurd trivial hroot
  | element tag point attributes children => exact node_isOne hinc (ofNode_of_single rfl hroot) h
  | reference template point attributes slots =>
    by_cases hmultiple : point.isMultiple
    · have hnone : r.inclusionTo n template = none := by
        rw [inclusionTo_eq_none, ← Option.not_isSome_iff_eq_none]
        exact fun hsome => hroot ⟨hmultiple, hsome⟩
      rw [node, hnone] at h
      cases h
      exact isOne_marker _
    · exact node_isOne hinc (ofNode_of_single rfl hmultiple) h

theorem steady_inclusionTo (h : ∀ name D, r.get? name = some D → ¬ r.Varies D.root) (n : Nat) :
    Steady (r.inclusionTo n) := by
  induction n with
  | zero =>
    intro template expand hexpand scope pieces hpieces
    obtain ⟨D, _, rfl⟩ := Option.map_eq_some_iff.1 hexpand
    cases hpieces
  | succ n ih =>
    intro template expand hexpand scope pieces hpieces
    obtain ⟨D, hD, rfl⟩ := Option.map_eq_some_iff.1 hexpand
    exact isOne_root ih (h template D hD) hpieces

theorem node_reference {name : String} {D : Descriptor} (hD : r.get? name = some D) (n : Nat) :
    node r.settings (r.inclusionTo (n + 1)) false [] (.reference name .anonymous .empty []) =
      node r.settings (r.inclusionTo n) true [[]] D.root := by
  have hexpand : r.inclusionTo (n + 1) name = some (r.expandTo (n + 1) D) := by
    rw [inclusionTo, including, hD, Option.map_some]
  rw [node, hexpand]
  exact flatten_mapM_singleton _ _

theorem not_isOne_of_varies (hroot : r.Varies root) (n : Nat) :
    ∃ pieces, node r.settings (r.inclusionTo n) true [[]] root = some pieces ∧ ¬ IsOne pieces := by
  have hnil : ¬ IsOne [] := by
    rintro ⟨p, hp, _⟩
    cases hp
  cases root with
  | text markup =>
    refine ⟨[.raw markup], rfl, ?_⟩
    rintro ⟨p, hp, helement⟩
    cases hp
    cases helement
  | element tag point attributes children =>
    refine ⟨[], ?_, hnil⟩
    rw [node, emissions_unbound (of_decide_eq_true hroot)]
    rfl
  | reference template point attributes slots =>
    refine ⟨[], ?_, hnil⟩
    obtain ⟨expand, hexpand⟩ := Option.ne_none_iff_exists'.1
      (mt (inclusionTo_eq_none n template).1 (Option.isSome_iff_ne_none.1 hroot.2))
    rw [node, hexpand, emissions_unbound (of_decide_eq_true hroot.1)]
    rfl

/-- **When positions are right.** Every child that counts as one element renders to one, whatever
the data and however references are chained, exactly if no template has a root that is a text, a
repeated element, or a repeated reference to another template. Such a child then stands where its
placement among its siblings says. -/
theorem isOne_iff (r : Registry) (n : Nat) :
    ((∀ scopes child pieces, Footprint.ofNode child = .element →
        node r.settings (r.inclusionTo (n + 1)) false scopes child = some pieces → IsOne pieces) ↔
      ∀ name D, r.get? name = some D → ¬ r.Varies D.root) ∧
    ((∀ name D, r.get? name = some D → ¬ r.Varies D.root) →
      ∀ scopes pre child post pieces, Footprint.ofNode child = .element →
        (∀ c ∈ pre ++ child :: post, ¬ Stray (r.inclusionTo (n + 1)) c) →
        (pre ++ child :: post).length < wordSize →
        nodes r.settings (r.inclusionTo (n + 1)) scopes (pre ++ child :: post) = some pieces →
        ∃ before p after, pieces = before ++ p :: after ∧
          node r.settings (r.inclusionTo (n + 1)) false scopes child = some [p] ∧
          ∀ placement,
            (Placement.ofFootprints ((pre ++ child :: post).map Footprint.ofNode))[pre.length]? =
              some placement →
            placement.isFixed →
            placement.segment.resolve none (elements pieces) = .ok (some (elements before))) := by
  refine ⟨⟨fun h name D hD hvaries => ?_, fun h scopes child pieces hchild => ?_⟩,
    fun h scopes pre child post pieces hchild hstray hwords => ?_⟩
  · obtain ⟨pieces, hpieces, hnot⟩ := not_isOne_of_varies hvaries n
    exact hnot (h [] (.reference name .anonymous .empty []) pieces rfl
      ((node_reference hD n).trans hpieces))
  · exact node_isOne (steady_inclusionTo h (n + 1)) hchild
  · exact resolve_child (steady_inclusionTo h (n + 1)) hchild hstray hwords

/-! ### A badge behind repeated items -/

def badged : Registry := empty.register "Badge" (.element "span" .anonymous .empty [])

def badgedItems : Node := .element "p" ⟨some "items", .multiple, false⟩ .empty []

def badgeReference : Node := .reference "Badge" .anonymous .empty []

def badgedData : Record := [("items", .sequence [.item [], .item []])]

/-- Behind two items the badge is the third element, where its segment says. -/
theorem isOne_iff_badged :
    ∃ before p after,
      [.element "p" .empty [], .element "p" .empty [], .element "span" .empty []] =
        before ++ p :: after ∧
      node badged.settings (badged.inclusionTo 1) false [badgedData] badgeReference = some [p] ∧
      (Placement.ofFootprints ([badgedItems, badgeReference].map Footprint.ofNode))[1]? =
        some ⟨.fromEnd 0, true⟩ ∧
      (Segment.fromEnd 0).resolve none 3 = .ok (some (elements before)) := by
  have hsteady (name : String) (D : Descriptor) (hD : badged.get? name = some D) :
      ¬ badged.Varies D.root := by
    rw [badged, get?_register] at hD
    split at hD
    · cases hD
      exact nofun
    · cases hD
  have hstray : ∀ c ∈ [badgedItems] ++ badgeReference :: [], ¬ Stray (badged.inclusionTo 1) c := by
    refine List.forall_mem_cons.2 ⟨id, List.forall_mem_singleton.2 ?_⟩
    rintro ⟨hmultiple, _⟩
    cases hmultiple
  have hnodes : nodes badged.settings (badged.inclusionTo 1) [badgedData]
      ([badgedItems] ++ badgeReference :: []) =
        some [.element "p" .empty [], .element "p" .empty [], .element "span" .empty []] := by
    with_unfolding_all rfl
  obtain ⟨before, p, after, hpieces, hnode, hplaced⟩ :=
    (isOne_iff badged 0).2 hsteady [badgedData] [badgedItems] badgeReference [] _ rfl hstray
      (by decide) hnodes
  exact ⟨before, p, after, hpieces, hnode, rfl, hplaced ⟨.fromEnd 0, true⟩ rfl rfl⟩

/-- A reference to a template that is a text renders to no element at all. -/
theorem not_isOne_reference_to_text :
    ¬ ∀ r : Registry, r.Reachable → ∀ scopes child pieces, Footprint.ofNode child = .element →
      node r.settings r.inclusion false scopes child = some pieces → IsOne pieces := by
  intro h
  have hD : (empty.register "T" (.text "text")).get? "T" =
      some (.compile empty.get? "T" (.text "text")) := by
    rw [get?_register, if_pos ⟨rfl, rfl⟩]
  have hone := h (empty.register "T" (.text "text")) (.register (.withSettings _) _ _) []
    (.reference "T" .anonymous .empty []) [.raw "text"] rfl
  obtain ⟨p, hp, helement⟩ := hone (node_eq_some_iff.2 ⟨1, node_reference hD 0⟩)
  cases hp
  cases helement

end Registry
end Stencil
