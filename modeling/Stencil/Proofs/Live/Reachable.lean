import Stencil.Proofs.Live.Draft

/-! # The documents there are

A document is made from the empty one by creating, appending and detaching nodes and by reading
markup into it. All of these are forests. Reading markup gives the first element of what the markup
comes to and leaves no other trace.
-/
namespace Stencil.Live

def Fragment.descend? : Nat → Fragment → Option Fragment
  | 0, f => some f
  | _ + 1, .text _ => none
  | depth + 1, .element _ _ children => (children.find? isElement).bind (descend? depth)

def Fragment.ofMarkup? (markup : String) : Option Fragment :=
  let tags := scaffold markup
  (Draft.read "div" Attributes.empty (Markup.tokens (wrap tags markup))).descend? (tags.length + 1)

namespace Document
variable {d : Document} {c e id : Handle} {n : Nat}

theorem descend?_fragment (hf : d.Forest) (n : Nat) (id : Handle) :
    (d.descend? n id).map d.fragment = (d.fragment id).descend? n := by
  induction n generalizing id with
  | zero => rfl
  | succ n ih =>
    rw [descend?, elementChildren, List.head?_filter]
    cases hg : d.get? id with
    | none =>
      have htext : ∃ s, d.fragment id = .text s := by
        unfold fragment
        cases d.size <;> simp [fragmentWithin, hg]
      obtain ⟨s, hs⟩ := htext
      rw [hs, children_eq, hg]
      rfl
    | some content =>
      rw [children_of_get? hg]
      cases content with
      | text s =>
        rw [fragment_of_text hg]
        rfl
      | element tag attributes children =>
        have hkind : Fragment.isElement ∘ d.fragment = d.isElement :=
          funext (isElement_fragment hf)
        rw [fragment_of_element hf hg, Fragment.descend?, List.find?_map, hkind, Content.children]
        cases children.find? d.isElement with
        | none => rfl
        | some c => exact ih c

theorem below_of_descend? (hf : d.Forest) (h : d.descend? n id = some e) : d.Below id n e := by
  induction n generalizing id with
  | zero =>
    cases h
    exact .here
  | succ n ih =>
    rw [descend?, Option.bind_eq_some_iff] at h
    obtain ⟨c, hc, he⟩ := h
    have hmem := (List.mem_filter.1 (List.mem_of_head? hc)).1
    have hbelow := (Below.child .here ((hf.mem_children id c).1 hmem)).trans (ih he)
    rwa [Nat.add_comm] at hbelow

/-! ## Reading markup -/

def scratched (d : Document) (tokens : List Markup.Token) : Document :=
  (d.alloc (.element "div" Attributes.empty [])).2.build d.fresh tokens

theorem get?_scratch (hf : d.Forest) :
    (d.alloc (.element "div" Attributes.empty [])).2.get? d.fresh =
      some (.element "div" Attributes.empty []) :=
  (get?_alloc hf _ _).trans (if_pos rfl)

theorem parent?_scratch (hf : d.Forest) :
    (d.alloc (.element "div" Attributes.empty [])).2.parent? d.fresh = none :=
  (parent?_alloc hf _ _).trans (parent?_fresh hf)

theorem builds_scratched (hf : d.Forest) (tokens : List Markup.Token) :
    (d.scratched tokens).Forest ∧ (d.scratched tokens).InUse d.fresh ∧
      (d.scratched tokens).parent? d.fresh = none ∧
      (d.scratched tokens).fragment d.fresh = Draft.read "div" Attributes.empty tokens := by
  have hf' : (d.alloc (.element "div" Attributes.empty [])).2.Forest := hf.alloc rfl
  have hget := get?_scratch hf
  have htop := parent?_scratch hf
  exact ⟨hf'.build hget htop tokens, inUse_build hf' hget htop tokens,
    parent?_build hf' hget htop tokens, fragment_build hf' hget htop tokens⟩

theorem materialize_eq (d : Document) (markup : String) :
    d.materialize markup =
      let built := d.scratched (Markup.tokens (wrap (scaffold markup) markup))
      match built.descend? ((scaffold markup).length + 1) d.fresh with
      | some element => (.ok element, (built.detach element).release d.fresh)
      | none => (.error ⟨markup⟩, built.release d.fresh) := by
  unfold materialize scratched
  rw [← alloc_fst d (.element "div" Attributes.empty [])]
  rfl

theorem Within.of_detach (h : (d.detach e).Within id c) : d.Within id c := by
  obtain ⟨k, hk⟩ := h
  induction hk with
  | here => exact .refl d _
  | child _ link ih => exact ih.trans (links_detach.1 link).2.within

theorem Within.detach (hf : d.Forest) (h : d.Within e c) : (d.detach e).Within e c := by
  obtain ⟨k, hk⟩ := h
  induction hk with
  | here => exact .refl _ _
  | child above link ih =>
    refine ih.trans (Links.within (links_detach.2 ⟨?_, link⟩))
    rintro rfl
    exact link.not_within hf above.within

theorem not_within_detach (hf : d.Forest) (hbelow : d.Below c (n + 1) e)
    (h : (d.detach e).Within e id) : ¬ (d.detach e).Within c id := by
  have hnot : ¬ (d.detach e).Within c e := by
    intro h
    rcases h.cases_parent with rfl | ⟨p, _, link⟩
    · exact hbelow.ne_root hf rfl
    · exact (links_detach.1 link).1 rfl
  intro hc
  rcases hc.comparable h with h | h
  · exact hnot h
  · exact hbelow.ne_root hf (h.of_detach.antisymm hf hbelow.within)

/-- What is taken out of the scratch element before that is freed stays as it was. -/
theorem keep_element (hf : d.Forest) (hc : d.InUse c) (htop : d.parent? c = none)
    (hbelow : d.Below c (n + 1) e) :
    ((d.detach e).release c).Forest ∧ ((d.detach e).release c).InUse e ∧
      ((d.detach e).release c).parent? e = none ∧
      ((d.detach e).release c).fragment e = d.fragment e := by
  classical
  have hf' := hf.detach e
  have hc' : (d.detach e).InUse c := by
    rw [InUse, size_detach, free_detach]
    exact hc
  have htop' : (d.detach e).parent? c = none := by
    rw [parent?_detach, htop]
    exact ite_self none
  have he := hc.of_within hf hbelow.within
  have hrelease := hf'.release hc' htop'
  refine ⟨hrelease, ⟨?_, ?_⟩, ?_, ?_⟩
  · rw [size_release, size_detach]
    exact he.1
  · rw [mem_free_release hf' hc', free_detach]
    exact fun h => h.elim (not_within_detach hf hbelow (.refl _ e)) he.2
  · rw [parent?_release hf' hc', parent?_detach, if_pos rfl]
    exact ite_self none
  · refine fragment_congr hf hrelease he.1 fun x hx => ?_
    rw [get?_release hf' hc', if_neg (not_within_detach hf hbelow (hx.detach hf))]
    exact get?_detach_of_not_links hf fun link => link.not_within hf hx

theorem materialize_spec (hf : d.Forest) (markup : String) :
    (d.materialize markup).2.Forest ∧
      match Fragment.ofMarkup? markup with
      | some f => ∃ e, (d.materialize markup).1 = .ok e ∧ (d.materialize markup).2.InUse e ∧
          (d.materialize markup).2.parent? e = none ∧ (d.materialize markup).2.fragment e = f
      | none => (d.materialize markup).1 = .error ⟨markup⟩ := by
  obtain ⟨hf', hc, htop, hread⟩ :=
    builds_scratched hf (Markup.tokens (wrap (scaffold markup) markup))
  have hdescend := descend?_fragment hf' ((scaffold markup).length + 1) d.fresh
  rw [hread] at hdescend
  rw [materialize_eq, Fragment.ofMarkup?, ← hdescend]
  simp only
  cases he : (d.scratched (Markup.tokens (wrap (scaffold markup) markup))).descend?
      ((scaffold markup).length + 1) d.fresh with
  | none => exact ⟨hf'.release hc htop, rfl⟩
  | some e =>
    obtain ⟨hforest, huse, hparent, hfragment⟩ :=
      keep_element hf' hc htop (below_of_descend? hf' he)
    exact ⟨hforest, e, rfl, huse, hparent, hfragment⟩

/-! ## Reachability -/

/-- The documents that come from the empty one. Only a node that is in use is ever appended. -/
inductive Reachable : Document → Prop
  | empty : Reachable .empty
  | createElement {d : Document} (h : Reachable d) (tag : String) (attributes : Attributes) :
      Reachable (d.createElement tag attributes).2
  | createText {d : Document} (h : Reachable d) (text : String) : Reachable (d.createText text).2
  | append {d : Document} (h : Reachable d) (parent child : Handle) (use : d.InUse child) :
      Reachable (d.append parent child).1
  | detach {d : Document} (h : Reachable d) (id : Handle) : Reachable (d.detach id)
  | materialize {d : Document} (h : Reachable d) (markup : String) :
      Reachable (d.materialize markup).2

theorem forest_empty : Document.empty.Forest where
  sizes := rfl
  mem_children p c := by simp [children, get?, Links, parent?, Document.empty]
  nodup_children p := by simp [children, get?, Document.empty]
  acyclic := ⟨fun x => ⟨x, fun y hy => by simp [Links, parent?, Document.empty] at hy⟩⟩
  free_nodup := .nil
  free_lt := by simp [Document.empty]
  free_text := by simp [Document.empty]
  free_parent := by simp [Document.empty]

theorem Reachable.forest (h : d.Reachable) : d.Forest := by
  induction h with
  | empty => exact forest_empty
  | createElement _ tag attributes ih => exact ih.alloc rfl
  | createText _ text ih => exact ih.alloc rfl
  | @append d _ parent child use ih =>
    by_cases h : d.isElement parent ∧ ¬ d.Within child parent
    · rw [append_of ih h.1 h.2]
      exact ih.appended h.1 use h.2
    · rw [append_of_not ih h]
      exact ih
  | detach _ id ih => exact ih.detach id
  | materialize _ markup ih => exact (materialize_spec ih markup).1

end Document
end Stencil.Live
