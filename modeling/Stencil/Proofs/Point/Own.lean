import Stencil.Proofs.Point.Survey
import Stencil.Proofs.Point.Table
import Stencil.Proofs.Template.Names

/-! # Where entries come from

An entry of a point table comes from a node of the template: from the one that declares the point,
or from a reference to a template that has it. The entry holds the number of the node.
-/
namespace Stencil.Survey
variable {lookup : String → Option Descriptor} {owner name : String} {path : Path}
  {detached : Bool} {id : NodeId} {entry : PointEntry} {node : Node}

variable (lookup) in
/-- An entry comes from the node with the number `id`. -/
inductive Origin (name : String) (entry : PointEntry) (id : NodeId) : Node → Prop
  /-- The node declares the point itself. -/
  | own {m : Node} {point : PointSpec} (inherited : entry.inherited = none)
      (number : entry.node = id) (declared : m.point? = some point) (named : point.id = some name)
      (cardinality : point.cardinality = entry.cardinality) : Origin name entry id m
  /-- The node references a template with the point, and a slot may give it another name. -/
  | through {template : String} {point : PointSpec} {attributes : Attributes}
      {slots : List (String × Slot)} {sub : Descriptor} {q : String} {target : PointEntry}
      (registered : lookup template = some sub) (found : (q, target) ∈ sub.table.points)
      (inherited : entry.inherited = some ⟨id, q⟩)
      (named : name = q ∨ ∃ slot ∈ slots, slot.2.id = some name) :
      Origin name entry id (.reference template point attributes slots)

theorem origin_of_visit (h : .point name entry ∈ visit lookup owner path detached id node) :
    ∃ reached, Place.Reaches lookup ⟨path, detached, id, node⟩ reached ∧
      Origin lookup name entry reached.id reached.node := by
  obtain ⟨reached, hreaches, hnoted⟩ := Place.mem_visit_iff.1 h
  refine ⟨reached, hreaches, ?_⟩
  rcases (point_of_noted hnoted).2 with ⟨point, hpoint, hid, rfl⟩ |
    ⟨template, point, attributes, slots, sub, q, target, hnode, hsub, htarget, rfl, hname⟩
  · exact .own rfl rfl hpoint hid rfl
  · rw [hnode]
    refine .through hsub htarget rfl (hname.imp_right ?_)
    rintro ⟨slot, hslot, hid⟩
    exact ⟨(q, slot), hslot, hid⟩

end Stencil.Survey

namespace Stencil
variable {lookup : String → Option Descriptor} {name point : String} {root : Node}
  {entry : PointEntry}

theorem Descriptor.origin_of_point?
    (h : (compile lookup name root).table.point? point = some entry) :
    ∃ id m, root.preorder[id]? = some m ∧ Survey.Origin lookup point entry id m := by
  obtain ⟨reached, hreaches, horigin⟩ := Survey.origin_of_visit (PointTable.sighted_of_point? h)
  exact ⟨reached.id, reached.node, (Survey.Place.Reaches.numbered hreaches).getElem?, horigin⟩

theorem Descriptor.node_of_point? (h : (compile lookup name root).table.point? point = some entry)
    (hown : entry.inherited = none) :
    ∃ m spec, root.preorder[entry.node]? = some m ∧ m.point? = some spec ∧
      spec.id = some point ∧ spec.cardinality = entry.cardinality := by
  obtain ⟨id, m, hm, horigin⟩ := origin_of_point? h
  cases horigin with
  | own _ number declared named cardinality =>
    exact ⟨m, _, number ▸ hm, declared, named, cardinality⟩
  | through _ _ inherited => rw [hown] at inherited; cases inherited

end Stencil
