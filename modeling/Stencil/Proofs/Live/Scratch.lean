import Mathlib.Data.Finset.Card
import Stencil.Proofs.Live.Session

/-! # What reading markup takes and gives back

While markup is read, all that is new stands below the scratch element, and nothing outside of it is
touched. So when the first element has been taken out and the scratch element is freed with the
rest, the document is what it was before with one new tree in it, or without any if there was no
element.
-/
namespace Stencil.Live

namespace Document
variable {d d' d'' : Document} {root id p c e x : Handle} {content : Content} {n : Nat}

/-! ## One new tree -/

/-- The document `d'` is `d` with a new tree below `c`: what was in use is as it was, and what is
newly in use is `c` with all below it. -/
structure Gains (d d' : Document) (c : Handle) : Prop where
  same : ∀ x, d.InUse x → d'.InUse x ∧ d'.get? x = d.get? x ∧ d'.parent? x = d.parent? x
  new : ∀ x, d'.InUse x → d.InUse x ∨ d'.Within c x
  fresh : ¬ d.InUse c

theorem Gains.spares (h : d.Gains d' c) : d.Spares d' := fun x hx =>
  ⟨(h.same x hx).1, (h.same x hx).2.2⟩

theorem Gains.not_within (hf : d.Forest) (h : d.Gains d' c) (hx : d.InUse x) :
    ¬ d'.Within c x := h.spares.not_within hf hx h.fresh

theorem Links.inUse (hf : d.Forest) (h : d.Links p c) : d.InUse c := by
  refine ⟨(Below.child .here h).lt_size hf, fun hfree => ?_⟩
  rw [Links, hf.free_parent c hfree] at h
  cases h

theorem Spares.within (hf : d.Forest) (h : d.Spares d') (hx : d.Within c x) : d'.Within c x := by
  obtain ⟨n, hn⟩ := hx
  induction hn with
  | here => exact .refl d' _
  | child _ link ih =>
    have hlink : d'.Links _ _ := (h _ (link.inUse hf)).2.trans link
    exact ih.trans hlink.within

/-! ## Reading below the scratch element -/

theorem gains_alloc (hf : d.Forest) (content : Content) :
    d.Gains (d.alloc content).2 d.fresh where
  same x hx := by
    have hne : x ≠ d.fresh := by
      rintro rfl
      exact not_inUse_fresh d hx
    exact ⟨(inUse_alloc hf content x).2 (.inr hx), (get?_alloc hf content x).trans (if_neg hne),
      parent?_alloc hf content x⟩
  new x hx := by
    rcases (inUse_alloc hf content x).1 hx with rfl | hx
    · exact .inr (.refl _ _)
    · exact .inl hx
  fresh := not_inUse_fresh d

theorem inUse_planted (hf : d.Forest) (content : Content) (p x : Handle) :
    (d.planted p content).InUse x ↔ x = d.fresh ∨ d.InUse x := by
  rw [← inUse_alloc hf content, InUse, planted, size_appended, free_appended, InUse]

theorem Gains.planted (hf : d.Forest) (hf' : d'.Forest) (h : d.Gains d' c) (hp : d'.isElement p)
    (hwithin : d'.Within c p) (hc : content.children = []) : d.Gains (d'.planted p content) c where
  same x hx := by
    obtain ⟨huse, hget, hparent⟩ := h.same x hx
    have hfresh : x ≠ d'.fresh := by
      rintro rfl
      exact not_inUse_fresh d' huse
    have hne : x ≠ p := by
      rintro rfl
      exact h.not_within hf hx hwithin
    refine ⟨(inUse_planted hf' content p x).2 (.inr huse), ?_, ?_⟩
    · rw [get?_planted hf' hp hc, if_neg hfresh, if_neg hne]
      exact hget
    · rw [parent?_planted hf' hc, if_neg hfresh]
      exact hparent
  new x hx := by
    have hspares := spares_planted hf' hc p
    rcases (inUse_planted hf' content p x).1 hx with rfl | hx
    · have hlink : (d'.planted p content).Links p d'.fresh :=
        (parent?_planted hf' hc p _).trans (if_pos rfl)
      exact .inr ((hspares.within hf' hwithin).trans hlink.within)
    · exact (h.new x hx).imp_right (hspares.within hf')
  fresh := h.fresh

theorem Gains.retexted (hf : d.Forest) (hf' : d'.Forest) (h : d.Gains d' c) {s t : String}
    (hwithin : d'.Within c e) (hget : d'.get? e = some (.text t)) :
    d.Gains (d'.retexted e s) c where
  same x hx := by
    obtain ⟨huse, hsame, hparent⟩ := h.same x hx
    have hne : x ≠ e := by
      rintro rfl
      exact h.not_within hf hx hwithin
    have hspares := spares_retexted d' e s x huse
    refine ⟨hspares.1, ?_, hspares.2.trans hparent⟩
    rw [get?_retexted hget, if_neg hne]
    exact hsame
  new x hx := by
    have hsize : (d'.retexted e s).size = d'.size := Array.size_setIfInBounds
    refine (h.new x ⟨hsize ▸ hx.1, hx.2⟩).imp_right ?_
    exact (spares_retexted d' e s).within hf'
  fresh := h.fresh

theorem Spine.within (hf : d.Forest) {inner : Option Handle} {fs : List Frame} {hs : List Handle}
    (h : Spine d inner fs (hs ++ [c])) : ∀ x ∈ hs, d.Within c x := by
  induction hs generalizing inner fs with
  | nil => exact nofun
  | cons k hs ih =>
    cases h with
    | cons _ tail =>
      have hrest := ih tail
      refine List.forall_mem_cons.2 ⟨?_, hrest⟩
      cases hs with
      | nil =>
        cases tail with
        | cons next _ => exact (next.links hf).within
      | cons k' hs =>
        cases tail with
        | cons next _ => exact (hrest k' List.mem_cons_self).trans (next.links hf).within

end Document

namespace Builder
open Document
variable {d : Document} {b : Builder} {draft : Draft}

theorem Builds.within_parent (h : b.Builds draft) : b.document.Within b.container b.parent := by
  have hwithin := h.spine.within h.forest
  unfold parent
  cases hopened : b.opened with
  | nil => exact .refl _ _
  | cons k hs =>
    rw [hopened] at hwithin
    exact hwithin k List.mem_cons_self

theorem Builds.gains_step (hf : d.Forest) (h : b.Builds draft)
    (hgains : d.Gains b.document b.container) (token : Markup.Token) :
    d.Gains (b.step token).document b.container := by
  rcases h.document_step token with heq | ⟨content, hc, heq⟩ | ⟨c, s, t, link, hget, heq⟩
  · exact heq ▸ hgains
  · exact heq ▸ hgains.planted hf h.forest h.isElement_parent h.within_parent hc
  · exact heq ▸ hgains.retexted hf h.forest (h.within_parent.trans link.within) hget

theorem Builds.gains_run (hf : d.Forest) (h : b.Builds draft)
    (hgains : d.Gains b.document b.container) (tokens : List Markup.Token) :
    d.Gains (tokens.foldl Builder.step b).document b.container := by
  induction tokens generalizing b draft with
  | nil => exact hgains
  | cons token tokens ih =>
    have hstep := h.gains_step hf hgains token
    rw [← container_step b token] at hstep ⊢
    exact ih (h.step token) hstep

end Builder

namespace Document
variable {d d' : Document} {root id p c e x : Handle} {n : Nat} {known : List Handle}

theorem gains_scratched (hf : d.Forest) (tokens : List Markup.Token) :
    d.Gains (d.scratched tokens) d.fresh := by
  have hf' : (d.alloc (.element "div" Attributes.empty [])).2.Forest := hf.alloc rfl
  exact (builds_of_leaf hf' (get?_scratch hf) (parent?_scratch hf)).gains_run hf
    (gains_alloc hf _) tokens

/-! ## Taking the element out -/

theorem Within.cases_detach (h : d.Within c x) (e : Handle) :
    (d.detach e).Within c x ∨ (d.detach e).Within e x := by
  obtain ⟨n, hn⟩ := h
  induction hn with
  | here => exact .inl (.refl _ _)
  | @child n p x _ link ih =>
    by_cases hx : x = e
    · rw [hx]
      exact .inr (.refl _ _)
    · have hlink : (d.detach e).Links p x := links_detach.2 ⟨hx, link⟩
      exact ih.imp (·.trans hlink.within) (·.trans hlink.within)

theorem Within.release (hf : d.Forest) (hc : d.InUse c)
    (hout : ∀ x, d.Within e x → ¬ d.Within c x) (h : d.Within e x) : (d.release c).Within e x := by
  obtain ⟨n, hn⟩ := h
  induction hn with
  | here => exact .refl _ _
  | child above link ih =>
    have hlink := (links_release hf hc).2 ⟨hout _ (above.child link).within, link⟩
    exact ih.trans hlink.within

theorem inUse_release_iff (hf : d.Forest) (hc : d.InUse c) :
    (d.release c).InUse x ↔ d.InUse x ∧ ¬ d.Within c x := by
  rw [InUse, size_release, mem_free_release hf hc, not_or, InUse]
  tauto

theorem same_release (hf : d.Forest) (hc : d.InUse c) (hout : ¬ d.Within c x) :
    (d.release c).get? x = d.get? x ∧ (d.release c).parent? x = d.parent? x := by
  classical
  rw [get?_release hf hc, parent?_release hf hc, if_neg hout, if_neg hout]
  exact ⟨rfl, rfl⟩

theorem Gains.keep (hf : d.Forest) (hf' : d'.Forest) (h : d.Gains d' c) (hc : d'.InUse c)
    (hbelow : d'.Below c (n + 1) e) : d.Gains ((d'.detach e).release c) e where
  same x hx := by
    obtain ⟨huse, hget, hparent⟩ := h.same x hx
    have hnot := h.not_within hf hx
    have hout : ¬ (d'.detach e).Within c x := fun hw => hnot hw.of_detach
    have hchild : ¬ d'.Links x e := fun link =>
      hnot (hbelow.within.parent (hbelow.ne_root hf') link)
    have hne : x ≠ e := by
      rintro rfl
      exact hnot hbelow.within
    have hc' := inUse_detach (e := e).2 hc
    obtain ⟨hget', hparent'⟩ := same_release (hf'.detach e) hc' hout
    refine ⟨(inUse_release_iff (hf'.detach e) hc').2 ⟨inUse_detach.2 huse, hout⟩, ?_, ?_⟩
    · rw [hget', get?_detach_of_not_links hf' hchild, hget]
    · rw [hparent', parent?_detach, if_neg hne, hparent]
  new x hx := by
    have hc' := inUse_detach (e := e).2 hc
    obtain ⟨huse, hout⟩ := (inUse_release_iff (hf'.detach e) hc').1 hx
    refine (h.new x (inUse_detach.1 huse)).imp_right fun hw => ?_
    have he := (hw.cases_detach e).resolve_left hout
    exact he.release (hf'.detach e) hc' fun _ => not_within_detach hf' hbelow
  fresh he := h.not_within hf he hbelow.within

theorem Gains.drop (hf : d.Forest) (hf' : d'.Forest) (h : d.Gains d' c) (hc : d'.InUse c) :
    ∀ x, ((d'.release c).InUse x ↔ d.InUse x) ∧
      (d.InUse x → (d'.release c).get? x = d.get? x ∧ (d'.release c).parent? x = d.parent? x) := by
  intro x
  constructor
  · rw [inUse_release_iff hf' hc]
    constructor
    · rintro ⟨huse, hout⟩
      exact (h.new x huse).resolve_right hout
    · exact fun hx => ⟨(h.same x hx).1, h.not_within hf hx⟩
  · intro hx
    obtain ⟨_, hget, hparent⟩ := h.same x hx
    obtain ⟨hget', hparent'⟩ := same_release hf' hc (h.not_within hf hx)
    exact ⟨hget'.trans hget, hparent'.trans hparent⟩

theorem isElement_of_descend? (h : d.descend? (n + 1) id = some e) : d.isElement e := by
  induction n generalizing id with
  | zero =>
    obtain ⟨c, hc, he⟩ := Option.bind_eq_some_iff.1 h
    cases he
    exact (List.mem_filter.1 (List.mem_of_head? hc)).2
  | succ n ih =>
    obtain ⟨c, _, he⟩ := Option.bind_eq_some_iff.1 h
    exact ih he

/-! ## How many nodes there are -/

/-- The number of handles that are not waiting to be used again. -/
def count (d : Document) : Nat := d.size - d.free.length

theorem count_eq_card (hf : d.Forest) :
    d.count = ((Finset.range d.size).filter (· ∉ d.free)).card := by
  have hfree : d.free.toFinset ⊆ Finset.range d.size := by
    intro x hx
    exact Finset.mem_range.2 (hf.free_lt x (List.mem_toFinset.1 hx))
  have hset : (Finset.range d.size).filter (· ∉ d.free) =
      Finset.range d.size \ d.free.toFinset := by
    ext x
    simp
  rw [hset, Finset.card_sdiff_of_subset hfree, Finset.card_range,
    List.toFinset_card_of_nodup hf.free_nodup, count]

theorem mem_inUse : x ∈ (Finset.range d.size).filter (· ∉ d.free) ↔ d.InUse x := by
  rw [Finset.mem_filter, Finset.mem_range, InUse]

theorem count_congr (hf : d.Forest) (hf' : d'.Forest) (h : ∀ x, d'.InUse x ↔ d.InUse x) :
    d'.count = d.count := by
  rw [count_eq_card hf, count_eq_card hf']
  congr 1
  ext x
  rw [mem_inUse, mem_inUse, h]

theorem Gains.count (hf : d.Forest) (hf' : d'.Forest) (h : d.Gains d' c) (hc : d'.InUse c) :
    d'.count = d.count + (d'.subtree c).length := by
  have hset : (Finset.range d'.size).filter (· ∉ d'.free) =
      (Finset.range d.size).filter (· ∉ d.free) ∪ (d'.subtree c).toFinset := by
    ext x
    rw [Finset.mem_union, mem_inUse, mem_inUse, List.mem_toFinset, mem_subtree hf' hc.1]
    exact ⟨h.new x, fun hx => hx.elim (fun hx => (h.same x hx).1) (hc.of_within hf')⟩
  have hdisjoint : Disjoint ((Finset.range d.size).filter (· ∉ d.free))
      (d'.subtree c).toFinset := by
    refine Finset.disjoint_left.2 fun x hx hx' => ?_
    rw [List.mem_toFinset, mem_subtree hf' hc.1] at hx'
    exact h.not_within hf (mem_inUse.1 hx) hx'
  have hnodup : (d'.subtree c).Nodup := nodup_subtreeWithin hf' _ _
  rw [count_eq_card hf, count_eq_card hf', hset, Finset.card_union_of_disjoint hdisjoint,
    List.toFinset_card_of_nodup hnodup]

/-! ## Reading markup -/

/-- What was in use is as it was, and no more is in use. -/
def Stays (d d' : Document) : Prop :=
  ∀ x, (d'.InUse x ↔ d.InUse x) ∧
    (d.InUse x → d'.get? x = d.get? x ∧ d'.parent? x = d.parent? x)

theorem materialize_gains (hf : d.Forest) (markup : String) :
    match d.materialize markup with
    | (.ok e, d') => d.Gains d' e ∧ d'.InUse e ∧ d'.isElement e ∧ d'.parent? e = none
    | (.error _, d') => d.Stays d' := by
  obtain ⟨hf', hc, htop, -⟩ :=
    builds_scratched hf (Markup.tokens (wrap (scaffold markup) markup))
  have hgains := gains_scratched hf (Markup.tokens (wrap (scaffold markup) markup))
  rw [materialize_eq]
  simp only
  generalize d.scratched (Markup.tokens (wrap (scaffold markup) markup)) = built at *
  cases he : built.descend? ((scaffold markup).length + 1) d.fresh with
  | none => exact hgains.drop hf hf' hc
  | some e =>
    have hbelow := below_of_descend? hf' he
    obtain ⟨hforest, huse, hparent, hfragment⟩ := keep_element hf' hc htop hbelow
    refine ⟨hgains.keep hf hf' hc hbelow, huse, ?_, hparent⟩
    rw [← isElement_fragment hforest, hfragment, isElement_fragment hf']
    exact isElement_of_descend? he

/-- A node is live if it has a known handle, or stands above or below a node that has one. -/
def IsLive (d : Document) (known : List Handle) (id : Handle) : Prop :=
  ∃ k ∈ known, d.Within k id ∨ d.Within id k

theorem InUse.above (hf : d.Forest) (hx : d.InUse x) (h : d.Within c x) : d.InUse c := by
  rcases h with ⟨_ | n, hn⟩
  · cases hn
    exact hx
  · obtain ⟨k, link, _⟩ := hn.first_step
    exact inUse_of_isElement hf (isElement_of_links hf link)

theorem Session.inUse_of_live (h : Session d known) (hx : d.IsLive known x) : d.InUse x := by
  obtain ⟨hreachable, hknown⟩ := h.reachable
  obtain ⟨k, hk, hwithin | hwithin⟩ := hx
  · exact (hknown k hk).of_within hreachable.forest hwithin
  · exact (hknown k hk).above hreachable.forest hwithin

/-- The free handles are different from each other, and none of them is that of a live node. -/
def Separate (d : Document) (known : List Handle) : Prop :=
  d.free.Nodup ∧ ∀ id, d.IsLive known id → id ∉ d.free

theorem Session.separate (h : Session d known) : d.Separate known :=
  ⟨h.reachable.1.forest.free_nodup, fun _ hid => (h.inUse_of_live hid).2⟩

/-- **Reading markup neither disturbs nor leaks.** Live nodes stay as they are. If the markup has an
element, it comes with nodes that were not live before, and the document has grown by them alone;
otherwise it has not grown. The free handles stay apart from the live ones, before and after. -/
theorem Session.materialize_frame (h : Session d known) (markup : String) :
    (∀ id, d.IsLive known id → (d.materialize markup).2.get? id = d.get? id ∧
      (d.materialize markup).2.parent? id = d.parent? id) ∧
    (match d.materialize markup with
      | (.ok e, d') => d'.isElement e ∧ d'.parent? e = none ∧
          (∀ id, d'.Within e id → ¬ d.IsLive known id) ∧
          d'.count = d.count + (d'.subtree e).length ∧ d'.Separate (e :: known)
      | (.error _, d') => d'.count = d.count ∧ d'.Separate known) ∧
    d.Separate known := by
  have hf := h.reachable.1.forest
  have hf' := (h.reachable.1.materialize markup).forest
  have hgains := materialize_gains hf markup
  have hnext := (h.materialize markup).separate
  obtain ⟨result, d', hresult⟩ : ∃ result d', d.materialize markup = (result, d') := ⟨_, _, rfl⟩
  rw [hresult] at hgains hf' hnext ⊢
  cases result with
  | ok e =>
    obtain ⟨hgains, huse, helement, hparent⟩ := hgains
    refine ⟨fun id hid => (hgains.same id (h.inUse_of_live hid)).2, ⟨helement, hparent, ?_⟩,
      h.separate⟩
    exact ⟨fun id hid hlive => hgains.not_within hf (h.inUse_of_live hlive) hid,
      hgains.count hf hf' huse, hnext⟩
  | error err =>
    refine ⟨fun id hid => (hgains id).2 (h.inUse_of_live hid), ⟨?_, hnext⟩, h.separate⟩
    exact count_congr hf hf' fun x => (hgains x).1

/-- A row that is read beside the list takes the handle of the list's scratch element, and the table
around the row is given back. -/
theorem materialize_frame_row :
    ∃ e d', readList.materialize "<tr><td>x</td></tr>" = (.ok e, d') ∧ Session readList [1] ∧
      readList.IsLive [1] 3 ∧ d'.get? 3 = readList.get? 3 ∧ d'.parent? 3 = readList.parent? 3 ∧
      d'.parent? e = none ∧ d'.subtree e = [6, 7, 8] ∧ d'.count = 3 + 3 ∧ d'.free = [5, 4, 0] := by
  have hroot : (Document.empty.materialize "<ul><li>a</li></ul>").1 = .ok 1 := by decide +kernel
  have hsession : Session readList [1] := by
    have hread := Session.empty.materialize "<ul><li>a</li></ul>"
    rwa [hroot] at hread
  have hlive : readList.IsLive [1] 3 := by
    have hitem : readList.parent? 2 = some 1 := by decide +kernel
    have htext : readList.parent? 3 = some 2 := by decide +kernel
    exact ⟨1, by decide, .inl ((Links.within hitem).trans (Links.within htext))⟩
  have hrow : (readList.materialize "<tr><td>x</td></tr>").1 = .ok 6 := by decide +kernel
  obtain ⟨hsame, hgrows, -⟩ := hsession.materialize_frame "<tr><td>x</td></tr>"
  obtain ⟨d', hresult⟩ : ∃ d', readList.materialize "<tr><td>x</td></tr>" = (.ok 6, d') :=
    ⟨_, Prod.ext hrow rfl⟩
  have hsubtree : (readList.materialize "<tr><td>x</td></tr>").2.subtree 6 = [6, 7, 8] := by
    decide +kernel
  have hfree : (readList.materialize "<tr><td>x</td></tr>").2.free = [5, 4, 0] := by decide +kernel
  rw [hresult] at hsame hgrows hsubtree hfree
  obtain ⟨hget, hparent⟩ := hsame 3 hlive
  obtain ⟨-, htop, -, hcount, -⟩ := hgrows
  have hbefore : readList.count = 3 := by decide +kernel
  rw [hsubtree, hbefore] at hcount
  exact ⟨6, d', hresult, hsession, hlive, hget, hparent, htop, hsubtree, hcount, hfree⟩

end Document
end Stencil.Live
