import Stencil.Proofs.Live.Edit

/-! # The tree below a live node

In a forest the tree below a node is put together from the trees below its children, and it depends
on nothing but the nodes that stand within the node.
-/
namespace Stencil.Live

@[elab_as_elim]
theorem Fragment.induct {motive : Fragment → Prop} (text : ∀ s, motive (.text s))
    (element : ∀ tag attributes children, (∀ c ∈ children, motive c) →
      motive (.element tag attributes children)) : ∀ f, motive f
  | .text s => text s
  | .element tag attributes children =>
    element tag attributes children fun c _ => induct text element c
termination_by f => sizeOf f

def Fragment.isElement : Fragment → Bool
  | .text _ => false
  | .element .. => true

namespace Document
variable {d d' : Document} {id c x : Handle} {n : Nat}

theorem fragmentWithin_eq (hf : d.Forest) {m : Nat}
    (hn : ∀ k x, d.Below id k x → k < n) (hm : ∀ k x, d.Below id k x → k < m) :
    d.fragmentWithin n id = d.fragmentWithin m id := by
  induction n generalizing m id with
  | zero => exact absurd (hn 0 id .here) (Nat.lt_irrefl 0)
  | succ n ih =>
    obtain ⟨m, rfl⟩ := Nat.exists_eq_succ_of_ne_zero (Nat.ne_of_gt (hm 0 id .here))
    cases hg : d.get? id with
    | none => simp [fragmentWithin, hg]
    | some content =>
      cases content with
      | text s => simp [fragmentWithin, hg]
      | element tag attributes children =>
        simp only [fragmentWithin, hg, Fragment.element.injEq, true_and]
        refine List.map_congr_left fun c hc => ?_
        have link : d.Links id c := (hf.mem_children id c).1 (by rwa [children_of_get? hg])
        have deeper {k x} (h : d.Below c k x) : d.Below id (k + 1) x := by
          rw [Nat.add_comm]
          exact (Below.child .here link).trans h
        exact ih (fun k x h => Nat.lt_of_succ_lt_succ (hn _ x (deeper h)))
          (fun k x h => Nat.lt_of_succ_lt_succ (hm _ x (deeper h)))

theorem fragmentWithin_eq_fragment (hf : d.Forest) (hid : id < d.size) (hn : d.size ≤ n) :
    d.fragmentWithin n id = d.fragment id := by
  have bound (k x) (h : d.Below id k x) : k < d.size := by
    cases k with
    | zero => exact Nat.lt_of_le_of_lt (Nat.zero_le _) hid
    | succ k => exact h.level_lt hf (h.lt_size hf)
  exact fragmentWithin_eq hf (fun k x h => Nat.lt_of_lt_of_le (bound k x h) hn) bound

theorem fragment_of_text {s : String} (h : d.get? id = some (.text s)) :
    d.fragment id = .text s := by
  obtain ⟨k, hk⟩ := Nat.exists_eq_add_of_lt (Nat.lt_of_le_of_lt (Nat.zero_le _) (get?_lt_size h))
  simp [fragment, hk, fragmentWithin, h]

theorem fragment_of_none (h : d.get? id = none) : d.fragment id = .text "" := by
  unfold fragment
  cases d.size <;> simp [fragmentWithin, h]

theorem fragment_of_element (hf : d.Forest) {tag : String} {attributes : Attributes}
    {children : List Handle} (h : d.get? id = some (.element tag attributes children)) :
    d.fragment id = .element tag attributes (children.map d.fragment) := by
  rw [← fragmentWithin_eq_fragment hf (get?_lt_size h) (Nat.le_succ d.size), fragmentWithin, h]
  refine congrArg _ (List.map_congr_left fun c hc => ?_)
  have link : d.Links id c := (hf.mem_children id c).1 (by rwa [children_of_get? h])
  exact fragmentWithin_eq_fragment hf ((Below.child .here link).lt_size hf) (Nat.le_refl _)

theorem isElement_fragment (hf : d.Forest) (id : Handle) :
    (d.fragment id).isElement = d.isElement id := by
  unfold isElement
  cases hg : d.get? id with
  | none =>
    unfold fragment
    cases d.size <;> simp [fragmentWithin, hg, Fragment.isElement]
  | some content =>
    cases content with
    | text s => rw [fragment_of_text hg]; rfl
    | element tag attributes children => rw [fragment_of_element hf hg]; rfl

theorem fragmentWithin_congr (hf : d.Forest) (h : ∀ x, d.Within id x → d'.get? x = d.get? x) :
    d'.fragmentWithin n id = d.fragmentWithin n id := by
  induction n generalizing id with
  | zero => rfl
  | succ n ih =>
    simp only [fragmentWithin, h id (.refl d id)]
    cases hg : d.get? id with
    | none => rfl
    | some content =>
      cases content with
      | text s => rfl
      | element tag attributes children =>
        refine congrArg _ (List.map_congr_left fun c hc => ih fun x hx => ?_)
        have link : d.Links id c := (hf.mem_children id c).1 (by rwa [children_of_get? hg])
        exact h x (link.within.trans hx)

theorem fragment_congr (hf : d.Forest) (hf' : d'.Forest) (hid : id < d.size)
    (h : ∀ x, d.Within id x → d'.get? x = d.get? x) : d'.fragment id = d.fragment id := by
  have hget : d'.get? id = some d.contents[id] :=
    (h id (.refl d id)).trans (Array.getElem?_eq_getElem hid)
  have hid' : id < d'.size := get?_lt_size hget
  calc d'.fragment id
    _ = d'.fragmentWithin (max d.size d'.size) id :=
      (fragmentWithin_eq_fragment hf' hid' (Nat.le_max_right ..)).symm
    _ = d.fragmentWithin (max d.size d'.size) id := fragmentWithin_congr hf h
    _ = d.fragment id := fragmentWithin_eq_fragment hf hid (Nat.le_max_left ..)

end Document
end Stencil.Live
