import Stencil.Proofs.Live.Location
import Stencil.Proofs.Point.Survey
import Stencil.Proofs.Registry.Points

/-! # Room for positions

Going up from an element adds positions among its siblings and numbers of siblings in a template.
The siblings that a segment counts are nodes of one registered tree. So if the document and any one
tree have no more nodes than there are machine words, none of these sums overflows.
-/
namespace Stencil

/-! ## What a segment counts -/

theorem Placement.fitsIn_between {size : Nat} (pre post : List Footprint) (f : Footprint)
    (h : pre.length + post.length < size) : (between pre post f).segment.FitsIn size := by
  have hpre := Footprint.taken_le_length pre
  have hpost := Footprint.taken_le_length post
  cases f with
  | none => exact trivial
  | element =>
    rw [between]
    split
    · exact trivial
    · next hrepeats =>
      -- a sibling in front is repeated, so there is one
      have hfront : 0 < pre.length := List.length_pos_iff.2 fun hnil => hrepeats (hnil ▸ rfl)
      rw [Segment.FitsIn]
      omega
  | repeated key =>
    rw [between, Segment.FitsIn]
    omega

namespace Survey
variable {lookup : String → Option Descriptor} {node : Node} {place : Place} {size : Nat}

theorem Place.fitsIn_child {path : Path} {detached : Bool} {next : NodeId} {pre post : List Node}
    {c : Node} {children : List Node} (split : children = pre ++ c :: post)
    (hsize : Node.sizeList children ≤ size) (hpath : ∀ s ∈ path, s.FitsIn size) :
    ∀ s ∈ (Place.child path detached next pre c post).path, s.FitsIn size := by
  intro s hs
  rcases List.mem_append.1 hs with hs | hs
  · exact hpath s hs
  · have hlength := Node.length_le_sizeList children
    rw [split, List.length_append, List.length_cons] at hlength
    rw [List.mem_singleton.1 hs]
    apply Placement.fitsIn_between
    rw [List.length_map, List.length_map]
    rw [split] at hsize
    omega

/-- The segments on the way to a place of a template fit in the template or in those whose points it
takes over. -/
theorem Place.Reaches.fitsIn (h : Place.Reaches lookup (.root node) place)
    (hsize : node.size ≤ size)
    (htables : ∀ template sub q target, lookup template = some sub →
      sub.table.point? q = some target → ∀ s ∈ target.path, s.FitsIn size) :
    ∀ s ∈ place.path, s.FitsIn size := by
  induction h with
  | refl => exact fun s hs => nomatch hs
  | @tail place next hplace hstep ih =>
    have hwithin : place.node.size ≤ size := by
      have hlast := (Place.Reaches.inside hplace).2
      simp only [Place.last, Place.root, NodeId] at hlast
      omega
    cases hstep with
    | @child tag point attributes children pre post c element split =>
      rw [element, Node.size_element] at hwithin
      exact fitsIn_child split (by omega) ih
    | @slotChild template point attributes sub target slots before after slot pre post c reference
        among registered listed split =>
      have hslot : slot ∈ slots := among ▸ List.mem_append_right _ List.mem_cons_self
      have hlt := Node.sizeList_lt_of_slot hslot template point attributes
      rw [reference] at hwithin
      refine fitsIn_child split (by omega) fun s hs => ?_
      rcases List.mem_append.1 hs with hs | hs
      · exact ih s hs
      · exact htables _ _ _ _ registered listed s hs

end Survey

namespace Registry
open Live
variable {r : Registry} {d : Document} {name p : String} {D : Descriptor} {entry : PointEntry}
  {size : Nat}

theorem Reachable.fitsIn (h : r.Reachable)
    (hsize : ∀ other X, r.get? other = some X → X.root.size ≤ size) (hD : r.get? name = some D)
    (hp : D.table.point? p = some entry) : ∀ s ∈ entry.path, s.FitsIn size := by
  refine h.induct_of_reachable (motive := fun r =>
    (∀ other X, r.get? other = some X → X.root.size ≤ size) → ∀ name D p entry,
      r.get? name = some D → D.table.point? p = some entry → ∀ s ∈ entry.path, s.FitsIn size)
    (fun _ _ _ _ _ _ hD => nomatch hD) ?_ hsize name D p entry hD hp
  intro r hr ih name root hsize other D p entry hD hp
  have hold := ih fun template X hX => hsize template X (get?_register_of_some hX name root)
  have hroot := hsize other D hD
  rw [get?_register] at hD
  split at hD
  · cases hD
    obtain ⟨place, hplace, hnoted⟩ := Survey.Place.mem_visit_iff.1 (PointTable.sighted_of_point? hp)
    have hpath := Survey.Place.Reaches.fitsIn hplace hroot hold
    obtain ⟨_, ⟨_, _, _, rfl⟩ | ⟨template, _, _, _, sub, q, target, _, hsub, htarget, rfl, _⟩⟩ :=
      Survey.point_of_noted hnoted
    · exact hpath
    · intro s hs
      rcases List.mem_append.1 hs with hs | hs
      · exact hpath s hs
      · exact hold template sub q target hsub
          (NameMap.find?_of_mem (hr.sorted_points hsub) htarget) s hs
  · exact hold other D p entry hD hp

/-! ## Documents beside templates -/

/-- The document and any one registered tree have no more nodes than there are machine words, as
they are kept in one memory. -/
def FitsBeside (r : Registry) (d : Document) : Prop :=
  ∀ name D, r.get? name = some D → d.size + D.root.size ≤ wordSize

theorem fitsBeside_of_forall (h : ∀ e ∈ r.templates, d.size + e.2.root.size ≤ wordSize) :
    r.FitsBeside d := fun _ _ hD => h _ (NameMap.mem_of_find? hD)

theorem Reachable.exists_matchPoints (h : r.Reachable) (hf : d.Forest) (hroom : r.FitsBeside d)
    (hD : r.get? name = some D) {root : Handle} {chain : List Handle} {steps : List Step}
    (hsteps : d.steps? (root :: chain) = some steps) :
    ∃ loc, matchPoints steps D.table.points = .ok loc := by
  have hsize : d.size ≤ wordSize := (Nat.le_add_right ..).trans (hroom name D hD)
  have hpoints : ∀ point ∈ D.table.points, ∀ segment ∈ point.2.path,
      segment.FitsIn (wordSize - d.size) := by
    intro point hpoint
    refine h.fitsIn (fun other X hX => ?_) hD (h.find?_points hD hpoint)
    have hfits := hroom other X hX
    omega
  refine Live.exists_matchPoints hpoints fun s hs => ?_
  have hlt := Document.index_lt_of_steps? hf hsteps s hs
  omega

end Registry
end Stencil
