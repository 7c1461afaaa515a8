import Stencil.Proofs.Live.ReverseLookup

/-! # Moving a node

Appending a node to another one moves it, with all below it, to the end of the children of its new
parent. It leaves the place that it had, and nothing else changes. A node cannot be moved into a text
or below itself, and an attempt changes nothing.
-/
namespace Stencil.Live.Document
open Registry (listed reachable_listed)
variable {d d' : Document} {p c x : Handle} {n : Nat} {f : List Handle → List Handle}

/-- The document `d'` is `d` with the node `c` moved to the end of the children of `p`. -/
structure Moves (d d' : Document) (p c : Handle) : Prop where
  /-- The others keep their order, also if the node was a child of `p` before. -/
  children_new : d'.children p = (d.children p).erase c ++ [c]
  children_old : ∀ x, x ≠ p → d'.children x = (d.children x).erase c
  once : ∀ x, (d'.children x).count c = if x = p then 1 else 0
  parent_new : d'.parent? c = some p
  parent_old : ∀ x, x ≠ c → d'.parent? x = d.parent? x
  tag : ∀ x, d'.tag? x = d.tag? x
  attributes : ∀ x, d'.attributes? x = d.attributes? x
  text : ∀ x s, d'.get? x = some (.text s) ↔ d.get? x = some (.text s)
  below : ∀ x, d.Within c x → d'.get? x = d.get? x
  subtree : d'.subtree c = d.subtree c
  fragment : d'.fragment c = d.fragment c
  inUse : ∀ x, d'.InUse x ↔ d.InUse x

/-! ## What a change of the children leaves alone -/

theorem tag?_eq (h : d'.get? x = (d.get? x).map (Content.mapChildren f)) :
    d'.tag? x = d.tag? x := by
  rw [tag?, tag?, h]
  rcases d.get? x with _ | ⟨⟩ | ⟨⟩ <;> rfl

theorem attributes?_eq (h : d'.get? x = (d.get? x).map (Content.mapChildren f)) :
    d'.attributes? x = d.attributes? x := by
  rw [attributes?, attributes?, h]
  rcases d.get? x with _ | ⟨⟩ | ⟨⟩ <;> rfl

theorem get?_eq_text_iff (h : d'.get? x = (d.get? x).map (Content.mapChildren f)) (s : String) :
    d'.get? x = some (.text s) ↔ d.get? x = some (.text s) := by
  rw [h]
  rcases d.get? x with _ | ⟨⟩ | ⟨⟩ <;> simp [Content.mapChildren]

theorem subtreeWithin_congr (hf : d.Forest) (h : ∀ x, d.Within c x → d'.get? x = d.get? x) :
    d'.subtreeWithin n c = d.subtreeWithin n c := by
  induction n generalizing c with
  | zero => rfl
  | succ n ih =>
    have hchildren : d'.children c = d.children c := by
      rw [children_eq, h c (.refl d c), children_eq]
    rw [subtreeWithin, subtreeWithin, hchildren]
    refine congrArg (c :: ·) (List.flatMap_congr fun k hk => ih fun x hx => ?_)
    exact h x (((hf.mem_children c k).1 hk).within.trans hx)

/-! ## The move -/

theorem get?_appended_of_within (hf : d.Forest) (hout : ¬ d.Within c p) (hx : d.Within c x) :
    (d.appended p c).get? x = d.get? x := by
  have hne : x ≠ p := by
    rintro rfl
    exact hout hx
  rw [get?_appended hf]
  simp only [if_neg hne]
  exact map_filter_of_not_links hf fun link => link.not_within hf hx

theorem moves_appended (hf : d.Forest) (hp : d.isElement p) (hc : d.InUse c)
    (hout : ¬ d.Within c p) : d.Moves (d.appended p c) p c := by
  have hf' := hf.appended hp hc hout
  have hchildren (x : Handle) : (d.appended p c).children x =
      if x = p then (d.children x).erase c ++ [c] else (d.children x).erase c := by
    rw [children_appended hf hp, (hf.nodup_children x).erase_eq_filter]
  have hbelow (x : Handle) (hx : d.Within c x) := get?_appended_of_within hf hout hx
  have hsize := size_appended d p c
  exact {
    children_new := (hchildren p).trans (if_pos rfl)
    children_old := fun x hx => (hchildren x).trans (if_neg hx)
    once := by
      intro x
      have hnot : c ∉ (d.children x).erase c := (hf.nodup_children x).not_mem_erase
      rw [hchildren]
      split
      · rw [List.count_append, List.count_eq_zero_of_not_mem hnot, List.count_singleton_self]
      · exact List.count_eq_zero_of_not_mem hnot
    parent_new := (parent?_appended hf hc.1 p c).trans (if_pos rfl)
    parent_old := fun x hx => (parent?_appended hf hc.1 p x).trans (if_neg hx)
    tag := fun x => tag?_eq (get?_appended hf p c x)
    attributes := fun x => attributes?_eq (get?_appended hf p c x)
    text := fun x => get?_eq_text_iff (get?_appended hf p c x)
    below := hbelow
    subtree := by
      rw [Document.subtree, hsize]
      exact subtreeWithin_congr hf hbelow
    fragment := fragment_congr hf hf' hc.1 hbelow
    inUse := fun x => by rw [InUse, hsize, free_appended, InUse] }

/-- **A move is all or nothing.** A node is refused by a text, by itself and by what stands below it,
and then the document is what it was. By any other node it is taken as its last child, and nothing
but its place changes. -/
theorem append_moves (hd : d.Reachable) (hp : d.InUse p) (hc : d.InUse c) :
    ((d.append p c).2 = false ↔ (∃ s, d.get? p = some (.text s)) ∨ d.Within c p) ∧
      ((d.append p c).2 = false → (d.append p c).1 = d) ∧
      ((d.append p c).2 = true → d.Moves (d.append p c).1 p c) := by
  have hf := hd.forest
  have htext : d.isElement p ↔ ¬ ∃ s, d.get? p = some (.text s) := by
    constructor
    · rintro helement ⟨s, hs⟩
      rw [isElement, hs] at helement
      cases helement
    · intro hnot
      by_contra helement
      exact hnot (text_of_not_isElement hp.1 helement)
  refine ⟨?_, fun hrefused => ?_, fun htaken => ?_⟩
  · rw [← Bool.not_eq_true, append_snd hf, htext, ← not_or, not_not]
  · rw [← Bool.not_eq_true, append_snd hf] at hrefused
    rw [append_of_not hf hrefused]
  · obtain ⟨helement, hout⟩ := (append_snd hf).1 htaken
    rw [append_of hf helement hout]
    exact moves_appended hf helement hc hout

/-- The heading of the list is moved behind the item, and nothing can be moved into itself. -/
theorem append_moves_heading :
    listed.Reachable ∧ (listed.InUse 0 ∧ listed.InUse 1) ∧
      ((listed.append 0 1).2 = true ∧ listed.Moves (listed.append 0 1).1 0 1 ∧
        (listed.append 0 1).1.children 0 = [2, 1]) ∧
      (listed.append 1 0).2 = false ∧ (listed.append 1 0).1 = listed := by
  have hdiv : listed.InUse 0 := ⟨by decide, by decide⟩
  have hheading : listed.InUse 1 := ⟨by decide, by decide⟩
  obtain ⟨-, -, hmoves⟩ := append_moves reachable_listed hdiv hheading
  obtain ⟨hrefused, hsame, -⟩ := append_moves reachable_listed hheading hdiv
  have hinside : listed.Within 0 1 := Links.within (show listed.parent? 1 = some 0 by decide)
  have hmoved := hmoves (by decide)
  have hfalse := hrefused.2 (.inr hinside)
  refine ⟨reachable_listed, ⟨hdiv, hheading⟩, ⟨by decide, hmoved, ?_⟩, hfalse, hsame hfalse⟩
  rw [hmoved.children_new]
  decide

end Stencil.Live.Document
