import Stencil.Proofs.Point.Own
import Stencil.Proofs.Registry.Reachable

/-! # The points of registered templates

The table of a registered template has each entry under its name, and that is a name which some
registered tree holds.
-/
namespace Stencil
variable {r : Registry} {name p : String} {D : Descriptor} {entry : PointEntry}

namespace Registry

theorem Reachable.find?_points (h : r.Reachable) (hD : r.get? name = some D)
    (hp : (p, entry) ∈ D.table.points) : D.table.point? p = some entry :=
  NameMap.find?_of_mem (h.sorted_points hD) hp

/-- The name of every point is a name in the tree of some registered template. -/
def Named (r : Registry) : Prop :=
  ∀ name D p entry, r.get? name = some D → (p, entry) ∈ D.table.points →
    ∃ other X, r.get? other = some X ∧ p ∈ X.root.names

theorem Named.register (h : r.Named) (name : String) (root : Node) :
    (r.register name root).Named := by
  intro other D p entry hD hp
  have hold {template : String} {sub : Descriptor} {q : String} {target : PointEntry}
      (hsub : r.get? template = some sub) (hq : (q, target) ∈ sub.table.points) :
      ∃ other X, (r.register name root).get? other = some X ∧ q ∈ X.root.names := by
    obtain ⟨other, X, hX, hname⟩ := h template sub q target hsub hq
    exact ⟨other, X, get?_register_of_some hX name root, hname⟩
  have hthis := hD
  rw [get?_register] at hD
  split at hD
  · cases hD
    obtain ⟨id, m, hm, horigin⟩ := Descriptor.origin_of_point?
      (NameMap.find?_of_mem (PointTable.sorted_ofSightings _) hp)
    have hmem := List.mem_of_getElem? hm
    cases horigin with
    | own _ _ declared named _ =>
      exact ⟨other, _, hthis,
        Node.mem_names_of_mem hmem (Node.mem_ownNames_of_point declared named)⟩
    | through registered found _ hnamed =>
      rcases hnamed with rfl | ⟨slot, hslot, hid⟩
      · exact hold registered found
      · exact ⟨other, _, hthis,
          Node.mem_names_of_mem hmem (Node.mem_ownNames_of_slot hslot hid ..)⟩
  · exact hold hD hp

theorem Reachable.named (h : r.Reachable) : r.Named :=
  h.induct (fun _ _ _ _ _ hD => nomatch hD) fun _ ih => ih.register

end Registry
end Stencil
