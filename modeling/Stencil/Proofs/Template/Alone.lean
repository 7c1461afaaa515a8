import Stencil.Proofs.Point.Own

/-! # Names that stand alone

A name stands alone in a tree if it is that of one element, if there is nothing to address inside
this element, and if no element around it has a name. What is bound to such a name shows at its
element and nowhere else.
-/
namespace Stencil.Node
variable {name : String} {node c : Node} {point : PointSpec} {id : NodeId}

def Silent (node : Node) : Prop := ∀ m ∈ node.preorder, m.ownNames = [] ∧ m.referenced? = none

theorem Silent.names (h : node.Silent) : node.names = [] :=
  List.flatMap_eq_nil_iff.2 fun m hm => (h m hm).1

theorem Silent.not_visited {lookup : String → Option Descriptor} {owner : String} {path : Path}
    {detached : Bool} {entry : PointEntry} (h : node.Silent) :
    .point name entry ∉ Survey.visit lookup owner path detached id node := by
  intro hseen
  obtain ⟨⟨_, _, _, m⟩, hreaches, horigin⟩ := Survey.origin_of_visit hseen
  obtain ⟨hnames, hreferenced⟩ := h m (Survey.Place.Reaches.mem_preorder hreaches)
  cases horigin with
  | own _ _ declared named _ =>
    cases m with
    | text => cases declared
    | element =>
      cases declared
      simp [ownNames, named] at hnames
    | reference => cases hreferenced
  | through => cases hreferenced

/-- The name is that of one element with silent children, and the elements around it have none. -/
inductive Alone (name : String) : Node → Prop
  | here {tag : String} {point : PointSpec} {attributes : Attributes} {children : List Node}
      (own : point.id = some name) (silent : ∀ c ∈ children, c.Silent) :
      Alone name (.element tag point attributes children)
  | around {tag : String} {point : PointSpec} {attributes : Attributes} (pre : List Node)
      {post : List Node} {child : Node} (anonymous : point.id = none) (h : Alone name child)
      (apart : ∀ c ∈ pre ++ post, name ∉ c.names) :
      Alone name (.element tag point attributes (pre ++ child :: post))

theorem Alone.of_child (h : node.Alone name) (hc : c ∈ node.childNodes) (hname : name ∈ c.names) :
    c.Alone name := by
  cases h with
  | here _ silent =>
    rw [(silent c hc).names] at hname
    cases hname
  | @around tag point attributes pre post child _ h apart =>
    rcases List.mem_append.1 hc with hc | hc
    · exact absurd hname (apart c (List.mem_append_left _ hc))
    · rcases List.mem_cons.1 hc with rfl | hc
      · exact h
      · exact absurd hname (apart c (List.mem_append_right _ hc))

theorem Alone.of_point {other : String} (h : node.Alone name) (hpoint : node.point? = some point)
    (hother : point.id = some other) :
    other = name ∧ ∃ tag attributes children, node = .element tag point attributes children ∧
      ∀ c ∈ children, c.Silent := by
  cases h with
  | here own silent =>
    cases hpoint
    exact ⟨Option.some.inj (hother.symm.trans own), _, _, _, rfl, silent⟩
  | around _ anonymous =>
    cases hpoint
    rw [anonymous] at hother
    cases hother

end Stencil.Node
