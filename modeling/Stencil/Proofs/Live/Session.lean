import Stencil.Proofs.Live.Location
import Stencil.Proofs.Live.Reachable

/-! # Documents at work

A caller knows the handles that calls gave to it, and those that it came across as children and
parents of nodes it knew. Their nodes are never recycled: reading markup frees nothing but what it
has made itself. So a document is a forest throughout, and none of the walks over it is cut off.
-/
namespace Stencil.Live
open Document

namespace Document
variable {d d' d'' : Document} {root id p c x : Handle} {content : Content} {chain : List Handle}

/-! ## What reading markup leaves alone -/

/-- What is in use stays in use, and below the same parent. -/
def Spares (d d' : Document) : Prop :=
  ∀ id, d.InUse id → d'.InUse id ∧ d'.parent? id = d.parent? id

theorem Spares.refl (d : Document) : d.Spares d := fun _ h => ⟨h, rfl⟩

theorem Spares.trans (h : d.Spares d') (h' : d'.Spares d'') : d.Spares d'' := by
  intro id hid
  obtain ⟨huse, hparent⟩ := h id hid
  obtain ⟨huse', hparent'⟩ := h' id huse
  exact ⟨huse', hparent'.trans hparent⟩

theorem spares_alloc (hf : d.Forest) (content : Content) : d.Spares (d.alloc content).2 :=
  fun id hid => ⟨(inUse_alloc hf content id).2 (.inr hid), parent?_alloc hf content id⟩

theorem spares_planted (hf : d.Forest) (hc : content.children = []) (p : Handle) :
    d.Spares (d.planted p content) := by
  intro id hid
  constructor
  · have hmade := (inUse_alloc hf content id).2 (.inr hid)
    rwa [InUse, planted, size_appended, free_appended]
  · rw [parent?_planted hf hc, if_neg]
    rintro rfl
    exact not_inUse_fresh d hid

theorem spares_retexted (d : Document) (c : Handle) (s : String) : d.Spares (d.retexted c s) := by
  intro id hid
  have hsize : (d.retexted c s).size = d.size := Array.size_setIfInBounds
  exact ⟨⟨hsize ▸ hid.1, hid.2⟩, rfl⟩

end Document

/-- One token plants a new node, continues a text under the innermost open element, or leaves the
document as it is. -/
theorem Builder.Builds.document_step {b : Builder} {draft : Draft} (h : b.Builds draft)
    (token : Markup.Token) :
    (b.step token).document = b.document ∨
      (∃ content : Content, content.children = [] ∧
        (b.step token).document = b.document.planted b.parent content) ∨
      ∃ c s t, b.document.Links b.parent c ∧ b.document.get? c = some (.text t) ∧
        (b.step token).document = b.document.retexted c s := by
  cases token with
  | startTag name attributes selfClosing =>
    refine .inr (.inl ⟨.element name attributes [], rfl, ?_⟩)
    have hplace := congrArg Builder.document
      (h.place (show (Content.element name attributes []).children = [] from rfl))
    simp only [Builder.step, Builder.startElement]
    split <;> exact hplace
  | endTag name =>
    refine .inl ?_
    simp only [Builder.step, Builder.endElement]
    split <;> rfl
  | text s =>
    simp only [Builder.step, Builder.addText]
    split
    · next c t hlast =>
      obtain ⟨c', hc', hget⟩ := Option.bind_eq_some_iff.1 hlast
      obtain ⟨content, hcontent, hpair⟩ := Option.map_eq_some_iff.1 hget
      cases hpair
      exact .inr (.inr ⟨c, _, t, (h.forest.mem_children _ c).1 (List.mem_of_getLast? hc'),
        hcontent, rfl⟩)
    · exact .inr (.inl ⟨.text s, rfl, congrArg Builder.document (h.place rfl)⟩)

theorem Builder.Builds.spares_step {b : Builder} {draft : Draft} (h : b.Builds draft)
    (token : Markup.Token) : b.document.Spares (b.step token).document := by
  rcases h.document_step token with heq | ⟨content, hc, heq⟩ | ⟨c, s, t, _, _, heq⟩
  · exact heq ▸ .refl _
  · exact heq ▸ spares_planted h.forest hc _
  · exact heq ▸ spares_retexted _ c s

theorem Builder.Builds.spares_run {b : Builder} {draft : Draft} (h : b.Builds draft)
    (tokens : List Markup.Token) :
    b.document.Spares (tokens.foldl Builder.step b).document := by
  induction tokens generalizing b draft with
  | nil => exact .refl _
  | cons token tokens ih => exact (h.spares_step token).trans (ih (h.step token))

namespace Document
variable {d d' : Document} {root id p c e x : Handle} {chain : List Handle} {n : Nat}

theorem spares_scratched (hf : d.Forest) (tokens : List Markup.Token) :
    d.Spares (d.scratched tokens) := by
  have hf' : (d.alloc (.element "div" Attributes.empty [])).2.Forest := hf.alloc rfl
  exact (spares_alloc hf _).trans
    ((builds_of_leaf hf' (get?_scratch hf) (parent?_scratch hf)).spares_run tokens)

theorem Spares.not_within (hf : d.Forest) (h : d.Spares d') (hid : d.InUse id)
    (hnew : ¬ d.InUse c) : ¬ d'.Within c id := by
  rintro ⟨n, hn⟩
  induction hn with
  | here => exact hnew hid
  | child _ link ih =>
    have hlink : d.Links _ _ := (h _ hid).2.symm.trans link
    exact ih (inUse_of_isElement hf (isElement_of_links hf hlink))

theorem inUse_release (hf : d.Forest) (hc : d.InUse c) (hid : d.InUse id)
    (hout : ¬ d.Within c id) : (d.release c).InUse id := by
  rw [InUse, size_release, mem_free_release hf hc, not_or]
  exact ⟨hid.1, hout, hid.2⟩

theorem inUse_detach : (d.detach e).InUse id ↔ d.InUse id := by
  rw [InUse, size_detach, free_detach, InUse]

theorem inUse_materialize (hf : d.Forest) (hid : d.InUse id) (markup : String) :
    (d.materialize markup).2.InUse id := by
  rw [materialize_eq]
  generalize Markup.tokens (wrap (scaffold markup) markup) = tokens
  obtain ⟨hf', hc, -, -⟩ := builds_scratched hf tokens
  have hspares := spares_scratched hf tokens
  have hout := hspares.not_within hf hid (not_inUse_fresh d)
  have huse := (hspares id hid).1
  simp only
  split
  · exact inUse_release (hf'.detach _) (inUse_detach.2 hc) (inUse_detach.2 huse)
      fun h => hout h.of_detach
  · exact inUse_release hf' hc huse hout

/-! ## Handles that a caller knows -/

/-- A document after some calls, each of which may have failed, and the handles that are known: the
ones that calls returned, and children and parents of nodes with known handles. Calls are made with
known handles only. -/
inductive Session : Document → List Handle → Prop
  | empty : Session .empty []
  | createElement {d : Document} {known : List Handle} (h : Session d known) (tag : String)
      (attributes : Attributes) :
      Session (d.createElement tag attributes).2 ((d.createElement tag attributes).1 :: known)
  | createText {d : Document} {known : List Handle} (h : Session d known) (text : String) :
      Session (d.createText text).2 ((d.createText text).1 :: known)
  | append {d : Document} {known : List Handle} {parent child : Handle} (h : Session d known)
      (hparent : parent ∈ known) (hchild : child ∈ known) :
      Session (d.append parent child).1 known
  | detach {d : Document} {known : List Handle} {id : Handle} (h : Session d known)
      (hid : id ∈ known) : Session (d.detach id) known
  | materialize {d : Document} {known : List Handle} (h : Session d known) (markup : String) :
      Session (d.materialize markup).2 ((d.materialize markup).1.toOption.toList ++ known)
  | child {d : Document} {known : List Handle} {p c : Handle} (h : Session d known)
      (hp : p ∈ known) (hc : c ∈ d.children p) : Session d (c :: known)
  | parent {d : Document} {known : List Handle} {p c : Handle} (h : Session d known)
      (hc : c ∈ known) (hp : d.parent? c = some p) : Session d (p :: known)

variable {known : List Handle}

/-- Every known handle belongs to a node that is in use. -/
theorem Session.reachable (h : Session d known) : d.Reachable ∧ ∀ id ∈ known, d.InUse id := by
  induction h with
  | empty => exact ⟨.empty, nofun⟩
  | @createElement d known _ tag attributes ih =>
    refine ⟨ih.1.createElement tag attributes, List.forall_mem_cons.2 ⟨?_, fun id hid => ?_⟩⟩
    · exact (inUse_alloc ih.1.forest _ _).2 (.inl (alloc_fst d _))
    · exact (inUse_alloc ih.1.forest _ id).2 (.inr (ih.2 id hid))
  | @createText d known _ text ih =>
    refine ⟨ih.1.createText text, List.forall_mem_cons.2 ⟨?_, fun id hid => ?_⟩⟩
    · exact (inUse_alloc ih.1.forest _ _).2 (.inl (alloc_fst d _))
    · exact (inUse_alloc ih.1.forest _ id).2 (.inr (ih.2 id hid))
  | @append d known parent child _ _ hchild ih =>
    refine ⟨ih.1.append parent child (ih.2 child hchild), fun id hid => ?_⟩
    by_cases h : d.isElement parent ∧ ¬ d.Within child parent
    · rw [append_of ih.1.forest h.1 h.2, InUse, size_appended, free_appended]
      exact ih.2 id hid
    · rw [append_of_not ih.1.forest h]
      exact ih.2 id hid
  | detach _ _ ih => exact ⟨ih.1.detach _, fun id hid => inUse_detach.2 (ih.2 id hid)⟩
  | @materialize d known _ markup ih =>
    refine ⟨ih.1.materialize markup, List.forall_mem_append.2 ⟨fun id hid => ?_, fun id hid =>
      inUse_materialize ih.1.forest (ih.2 id hid) markup⟩⟩
    have hspec := (materialize_spec ih.1.forest markup).2
    cases hf : Fragment.ofMarkup? markup with
    | none =>
      rw [hf] at hspec
      rw [hspec] at hid
      cases hid
    | some f =>
      rw [hf] at hspec
      obtain ⟨e, he, huse, -⟩ := hspec
      rw [he] at hid
      exact List.mem_singleton.1 hid ▸ huse
  | @child d known p c _ hp hc ih =>
    refine ⟨ih.1, List.forall_mem_cons.2 ⟨?_, ih.2⟩⟩
    exact (ih.2 p hp).of_within ih.1.forest ((ih.1.forest.mem_children p c).1 hc).within
  | @parent d known p c _ _ hp ih =>
    refine ⟨ih.1, List.forall_mem_cons.2 ⟨?_, ih.2⟩⟩
    exact inUse_of_isElement ih.1.forest (isElement_of_links ih.1.forest hp)

/-! ## Walks that nothing cuts off -/

/-- The tree below a node, as a walk without any bound finds it. -/
inductive Unfolds (d : Document) : Handle → Fragment → Prop
  | missing {id : Handle} (h : d.get? id = none) : Unfolds d id (.text "")
  | text {id : Handle} {s : String} (h : d.get? id = some (.text s)) : Unfolds d id (.text s)
  | element {id : Handle} {tag : String} {attributes : Attributes} {children : List Handle}
      (h : d.get? id = some (.element tag attributes children)) (below : Handle → Fragment)
      (inner : ∀ c ∈ children, Unfolds d c (below c)) :
      Unfolds d id (.element tag attributes (children.map below))

theorem Unfolds.unique {f g : Fragment} (h : d.Unfolds id f) (h' : d.Unfolds id g) : f = g := by
  induction h generalizing g with
  | missing h =>
    cases h' with
    | missing => rfl
    | text h' | element h' => cases h.symm.trans h'
  | text h =>
    cases h' with
    | text h' => cases h.symm.trans h'; rfl
    | missing h' | element h' => cases h.symm.trans h'
  | element h below _ ih =>
    cases h' with
    | missing h' | text h' => cases h.symm.trans h'
    | element h' below' inner' =>
      cases h.symm.trans h'
      exact congrArg _ (List.map_congr_left fun c hc => ih c hc (inner' c hc))

theorem unfolds_fragmentWithin (hf : d.Forest) (hn : ∀ k x, d.Below id k x → k < n) :
    d.Unfolds id (d.fragmentWithin n id) := by
  induction n generalizing id with
  | zero => exact absurd (hn 0 id .here) (Nat.lt_irrefl 0)
  | succ n ih =>
    rw [fragmentWithin]
    cases hg : d.get? id with
    | none => exact .missing hg
    | some content =>
      cases content with
      | text s => exact .text hg
      | element tag attributes children =>
        refine .element hg _ fun c hc => ih fun k x h => ?_
        have link : d.Links id c := (hf.mem_children id c).1 (by rwa [children_of_get? hg])
        have hdeeper := hn (1 + k) x ((Below.child .here link).trans h)
        omega

theorem unfolds_fragment (hf : d.Forest) (id : Handle) : d.Unfolds id (d.fragment id) := by
  cases hg : d.get? id with
  | none =>
    have hfragment : d.fragment id = .text "" := by
      unfold fragment
      cases d.size <;> simp [fragmentWithin, hg]
    exact hfragment ▸ .missing hg
  | some content =>
    refine unfolds_fragmentWithin hf fun k x h => ?_
    cases k with
    | zero => exact Nat.lt_of_le_of_lt (Nat.zero_le _) (get?_lt_size hg)
    | succ k => exact h.level_lt hf (h.lt_size hf)

/-- What climbing from a node to a root comes to without any bound: the nodes that it passes, the
root first, or nothing at a node without a parent. -/
inductive Climbs (d : Document) (root : Handle) : Handle → Option (List Handle) → Prop
  | here : Climbs d root root (some [root])
  | top {id : Handle} (hne : id ≠ root) (h : d.parent? id = none) : Climbs d root id none
  | up {p id : Handle} {passed : Option (List Handle)} (hne : id ≠ root) (link : d.Links p id)
      (h : Climbs d root p passed) : Climbs d root id (passed.map (· ++ [id]))

variable {passed passed' : Option (List Handle)}

theorem Climbs.unique (h : d.Climbs root id passed) (h' : d.Climbs root id passed') :
    passed = passed' := by
  induction h generalizing passed' with
  | here =>
    cases h' with
    | here => rfl
    | top hne | up hne => exact absurd rfl hne
  | top hne h =>
    cases h' with
    | here => exact absurd rfl hne
    | top => rfl
    | up _ link => cases h.symm.trans link
  | up hne link _ ih =>
    cases h' with
    | here => exact absurd rfl hne
    | top _ h => cases h.symm.trans link
    | up _ link' h' =>
      obtain rfl := Option.some.inj (link.symm.trans link')
      rw [ih h']

/-- Climbing ends, because no node is above itself. -/
theorem exists_climbs (hf : d.Forest) (root id : Handle) : ∃ passed, d.Climbs root id passed := by
  induction id using hf.acyclic.induction with
  | h id ih =>
    by_cases hroot : id = root
    · exact hroot ▸ ⟨_, .here⟩
    · cases hp : d.parent? id with
      | none => exact ⟨_, .top hroot hp⟩
      | some p =>
        obtain ⟨passed, hclimbs⟩ := ih p hp
        exact ⟨_, .up hroot hp hclimbs⟩

theorem Climbs.isChain (h : d.Climbs root id (some chain)) :
    chain.IsChain d.Links ∧ chain.head? = some root ∧ chain.getLast? = some id := by
  generalize hpassed : some chain = passed at h
  induction h generalizing chain with
  | here =>
    cases hpassed
    exact ⟨List.isChain_singleton root, rfl, rfl⟩
  | top => cases hpassed
  | @up p id passed _ link _ ih =>
    obtain ⟨front, hfront, rfl⟩ := Option.map_eq_some_iff.1 hpassed.symm
    obtain ⟨hc, hh, hl⟩ := ih hfront.symm
    refine ⟨List.isChain_append.2 ⟨hc, List.isChain_singleton id, ?_⟩, ?_, List.getLast?_concat⟩
    · rintro x hx y hy
      cases hl.symm.trans hx
      cases hy
      exact link
    · rw [List.head?_append, hh, Option.some_or]

/-- Climbing along a chain of links finds the chain, because no node but the last is its root. -/
theorem climbs_of_isChain (hf : d.Forest) (hc : chain.IsChain d.Links)
    (hh : chain.head? = some root) (hl : chain.getLast? = some id) :
    d.Climbs root id (some chain) := by
  induction chain using List.reverseRecOn generalizing id with
  | nil => cases hh
  | append_singleton front last ih =>
    rw [List.getLast?_concat] at hl
    obtain rfl := Option.some.inj hl
    obtain ⟨hfront, -, hlink⟩ := List.isChain_append.1 hc
    cases hp : front.getLast? with
    | none =>
      obtain rfl := List.getLast?_eq_none_iff.1 hp
      cases hh
      exact .here
    | some p =>
      have link : d.Links p last := hlink p hp last rfl
      rw [List.head?_append_of_ne_nil _ (by rintro rfl; cases hp)] at hh
      have hclimbs := ih hfront hh hp
      have hwithin : d.Within root p := by
        obtain ⟨rest, rfl⟩ := List.head?_eq_some_iff.1 hh
        rw [List.getLast?_eq_getElem?] at hp
        exact (below_of_isChain hfront hp).within
      refine .up ?_ link hclimbs
      rintro rfl
      exact link.not_within hf hwithin

theorem climbs_ancestorChain? (hf : d.Forest) (root id : Handle) :
    d.Climbs root id (d.ancestorChain? root id) := by
  cases hchain : d.ancestorChain? root id with
  | some chain =>
    obtain ⟨hc, hh, hl⟩ := ancestorChain?_sound hchain
    exact climbs_of_isChain hf hc hh hl
  | none =>
    obtain ⟨passed, hclimbs⟩ := exists_climbs hf root id
    cases passed with
    | none => exact hclimbs
    | some chain =>
      obtain ⟨hc, hh, hl⟩ := hclimbs.isChain
      obtain ⟨rest, rfl⟩ := List.head?_eq_some_iff.1 hh
      rw [List.getLast?_eq_getElem?] at hl
      exact absurd (below_of_isChain hc hl).within ((ancestorChain?_eq_none hf).1 hchain)

theorem ancestorChain?_eq_some_iff (hf : d.Forest) :
    d.ancestorChain? root id = some chain ↔
      chain.IsChain d.Links ∧ chain.head? = some root ∧ chain.getLast? = some id := by
  refine ⟨ancestorChain?_sound, fun ⟨hc, hh, hl⟩ => ?_⟩
  exact (climbs_ancestorChain? hf root id).unique (climbs_of_isChain hf hc hh hl)

/-! ## Whatever is called -/

/-- The lists of children and the table of parents describe one forest, and every walk over it ends
where it has to. -/
structure Consistent (d : Document) : Prop where
  parent_iff : ∀ p c, d.parent? c = some p ↔ c ∈ d.children p
  once : ∀ p c, c ∈ d.children p → (d.children p).count c = 1 ∧ ∀ q, c ∈ d.children q → q = p
  element : ∀ p c, c ∈ d.children p → d.isElement p
  acyclic : ∀ id, ¬ Relation.TransGen d.Links id id
  down : ∀ id, ∃ f, d.Unfolds id f ∧ (∀ g, d.Unfolds id g → g = f) ∧
    d.textContent id = f.content ∧ d.outerMarkup id = f.markup
  up : ∀ root id, d.Climbs root id (d.ancestorChain? root id)
  chain_isSome : ∀ root id, (d.ancestorChain? root id).isSome ↔ d.Within root id
  chain_eq : ∀ root id chain, d.ancestorChain? root id = some chain ↔
    chain.IsChain d.Links ∧ chain.head? = some root ∧ chain.getLast? = some id

theorem consistent_of_forest (hf : d.Forest) : d.Consistent where
  parent_iff p c := (hf.mem_children p c).symm
  once p c hc := by
    refine ⟨List.count_eq_one_of_mem (hf.nodup_children p) hc, fun q hq => ?_⟩
    exact Option.some.inj
      (((hf.mem_children q c).1 hq).symm.trans ((hf.mem_children p c).1 hc))
  element p c hc := isElement_of_links hf ((hf.mem_children p c).1 hc)
  acyclic id hid := hf.acyclic.transGen.irrefl.irrefl id hid
  down id := ⟨d.fragment id, unfolds_fragment hf id,
    fun _ h => h.unique (unfolds_fragment hf id), rfl, rfl⟩
  up := climbs_ancestorChain? hf
  chain_isSome _ _ := ancestorChain?_isSome hf
  chain_eq _ _ _ := ancestorChain?_eq_some_iff hf

/-- **A live document is always a forest**, whatever is called with handles that are known, and the
known handles stay in use. -/
theorem Session.consistent (h : Session d known) :
    d.Consistent ∧ ∀ id ∈ known, d.InUse id :=
  ⟨consistent_of_forest h.reachable.1.forest, h.reachable.2⟩

/-- A list with one item. -/
def readList : Document := (Document.empty.materialize "<ul><li>a</li></ul>").2

/-- The item is moved into a new list, which gets the handle of a scratch node. -/
def movedItem : Document := ((readList.createElement "ol" .empty).2.append 0 2).1

/-- Afterwards the new list cannot be moved into the item, and a text without an element is not
read. -/
theorem session_movedItem :
    let d := ((movedItem.append 2 0).1.materialize "b").2
    Session d [0, 2, 1] ∧ (d.Consistent ∧ ∀ id ∈ [0, 2, 1], d.InUse id) ∧
      d.ancestorChain? 0 2 = some [0, 2] := by
  have hroot : (Document.empty.materialize "<ul><li>a</li></ul>").1 = .ok 1 := by decide +kernel
  have hread : Session readList [1] := by
    have hread := Session.empty.materialize "<ul><li>a</li></ul>"
    rwa [hroot] at hread
  have hitem : Session readList [2, 1] := hread.child (p := 1) (by decide) (by decide +kernel)
  have hmade : (readList.createElement "ol" .empty).1 = 0 := by decide +kernel
  have hmoved : Session movedItem [0, 2, 1] := by
    have hnew := hitem.createElement "ol" .empty
    rw [hmade] at hnew
    exact hnew.append (by decide) (by decide)
  have hfailed : ((movedItem.append 2 0).1.materialize "b").1 = .error ⟨"b"⟩ := by
    decide +kernel
  have hsession :
      Session ((movedItem.append 2 0).1.materialize "b").2 [0, 2, 1] := by
    have hrefused : Session (movedItem.append 2 0).1 [0, 2, 1] :=
      hmoved.append (by decide) (by decide)
    have hlast := hrefused.materialize "b"
    rwa [hfailed] at hlast
  exact ⟨hsession, hsession.consistent, by decide +kernel⟩

end Document
end Stencil.Live
