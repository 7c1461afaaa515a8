import Mathlib.Data.List.TakeWhile
import Stencil.Proofs.Live.Sequence

/-! # Building tokens in a document

While tokens are built below a container, the open elements are the right edge of what is there: each
is the last child of the next, and the outermost one is the container's. What is not open is done
with. So no node is ever refused a place, and the walk over the finished tree meets what the tokens
say, in their order.
-/
namespace Stencil.Live

/-! ## The walk over a tree -/

namespace Document
variable {d d' : Document} {id p c k x : Handle} {inner : Option Handle} {fs : List Frame}
  {hs : List Handle}

def items (d : Document) (id : Handle) : Items := ((d.get? id).map Content.items).getD []

theorem items_subtreeWithin (d : Document) (n : Nat) (id : Handle) :
    (d.subtreeWithin n id).flatMap d.items = (d.fragmentWithin n id).items := by
  induction n generalizing id with
  | zero => rfl
  | succ n ih =>
    rw [subtreeWithin, List.flatMap_cons, List.flatMap_assoc, funext ih, fragmentWithin, items,
      children_eq]
    cases d.get? id with
    | none => rfl
    | some content =>
      cases content with
      | text s => exact List.append_nil _
      | element tag attributes children =>
        simp [Content.items, Content.children, Fragment.items, Fragment.itemsList_eq_flatMap,
          List.flatMap_map]

theorem items_subtree (d : Document) (id : Handle) :
    (d.subtree id).flatMap d.items = (d.fragment id).items := items_subtreeWithin d d.size id

theorem subtree_eq_cons (hid : id < d.size) : d.subtree id = id :: (d.subtree id).tail := by
  obtain ⟨n, hn⟩ := Nat.exists_eq_add_of_lt (Nat.lt_of_le_of_lt (Nat.zero_le id) hid)
  rw [Nat.zero_add] at hn
  rw [subtree, hn, subtreeWithin]
  rfl

theorem apart_of_within (hf : d.Forest) (h : (d.fragment c).Apart) (hx : d.Within c x) :
    (d.fragment x).Apart := by
  obtain ⟨n, hn⟩ := hx
  induction hn with
  | here => exact h
  | @child n p x _ link ih =>
    have hmem := (hf.mem_children p x).2 link
    cases hg : d.get? p with
    | none =>
      rw [children_eq, hg] at hmem
      cases hmem
    | some content =>
      cases content with
      | text s =>
        rw [children_of_get? hg] at hmem
        cases hmem
      | element tag attributes children =>
        rw [children_of_get? hg] at hmem
        rw [fragment_of_element hf hg] at ih
        cases ih with
        | element _ inner => exact inner _ (List.mem_map_of_mem hmem)

theorem chain_of_apart (hf : d.Forest) (h : (d.fragment x).Apart) :
    (d.children x).IsChain fun y z => d.isElement y ∨ d.isElement z := by
  cases hg : d.get? x with
  | none =>
    rw [children_eq, hg]
    exact .nil
  | some content =>
    cases content with
    | text s =>
      rw [children_of_get? hg]
      exact .nil
    | element tag attributes children =>
      rw [fragment_of_element hf hg] at h
      cases h with
      | element chain _ =>
        rw [children_of_get? hg, Content.children]
        rw [List.isChain_map] at chain
        simpa only [isElement_fragment hf] using chain

/-! ## The open elements -/

theorem Spine.isChain (h : Spine d inner fs hs) :
    hs.IsChain fun k p => (d.children p).getLast? = some k := by
  induction h with
  | nil => exact .nil
  | @cons inner f fs h hs head tail ih =>
    refine List.isChain_cons.2 ⟨fun p hp => ?_, ih⟩
    cases tail with
    | nil => cases hp
    | cons next _ =>
      cases hp
      obtain ⟨cs, hget, -⟩ := next
      rw [children_of_get? hget]
      exact List.getLast?_concat

theorem mem_of_within_edge (hf : d.Forest)
    (h : (k :: hs).IsChain fun k p => (d.children p).getLast? = some k)
    (hlast : ∀ c, (k :: hs).getLast? = some c → d.parent? c = none) (hx : d.Within x k) :
    x ∈ k :: hs := by
  induction hs generalizing k with
  | nil =>
    rcases hx.cases_parent with rfl | ⟨p, -, link⟩
    · exact List.mem_cons_self
    · cases (hlast k rfl).symm.trans link
  | cons p hs ih =>
    obtain ⟨hedge, hrest⟩ := List.isChain_cons_cons.1 h
    have link : d.Links p k := (hf.mem_children p k).1 (List.mem_of_getLast? hedge)
    rcases hx.cases_parent with rfl | ⟨q, hq, hlink⟩
    · exact List.mem_cons_self
    · obtain rfl := Option.some.inj (hlink.symm.trans link)
      exact List.mem_cons_of_mem _ (ih hrest (fun c hc => hlast c hc) hq)

theorem nodup_of_edge (hf : d.Forest)
    (h : hs.IsChain fun k p => (d.children p).getLast? = some k) : hs.Nodup := by
  have habove : hs.IsChain fun k p => Relation.TransGen d.Links p k :=
    h.imp fun k p hk => .single ((hf.mem_children p k).1 (List.mem_of_getLast? hk))
  have : IsTrans Handle fun k p => Relation.TransGen d.Links p k := ⟨fun _ _ _ hk hp => hp.trans hk⟩
  refine (List.isChain_iff_pairwise.1 habove).imp fun {k p} hk hkp => ?_
  subst hkp
  exact hf.acyclic.transGen.irrefl.irrefl k hk

end Document

namespace Builder
open Document
variable {b : Builder} {draft : Draft} {x : Handle}

theorem Builds.isChain (h : b.Builds draft) :
    (b.opened ++ [b.container]).IsChain fun k p => (b.document.children p).getLast? = some k :=
  h.spine.isChain

theorem Builds.not_within_parent (h : b.Builds draft) (hx : x ∉ b.opened ++ [b.container]) :
    ¬ b.document.Within x b.parent := by
  obtain ⟨hs, hhandles⟩ := b.handles_eq
  have hchain := h.isChain
  rw [hhandles] at hchain hx
  refine fun hwithin => hx (mem_of_within_edge h.forest hchain (fun c hc => ?_) hwithin)
  rw [← hhandles, List.getLast?_concat] at hc
  exact Option.some.inj hc ▸ h.top

theorem opened_startTag (b : Builder) (name : String) (attributes : Attributes)
    (selfClosing : Bool) :
    (b.step (.startTag name attributes selfClosing)).opened =
      if selfClosing || isChildless name then b.opened else b.document.fresh :: b.opened := by
  simp only [step, startElement, place, createElement, alloc_fst]
  split <;> rfl

theorem opened_text (b : Builder) (s : String) : (b.step (.text s)).opened = b.opened := by
  simp only [step, addText, place]
  split <;> rfl

theorem opened_step_subset (b : Builder) (token : Markup.Token) :
    (b.step token).opened ⊆ b.document.fresh :: b.opened := by
  cases token with
  | startTag name attributes selfClosing =>
    rw [opened_startTag]
    split
    · exact List.subset_cons_self ..
    · exact List.Subset.refl _
  | endTag name =>
    simp only [step, endElement]
    split
    · exact List.subset_cons_self ..
    · next closed outer heq =>
      have hsuffix := List.dropWhile_suffix (l := b.opened) (b.document.tag? · != some name)
      rw [heq] at hsuffix
      exact fun y hy => List.mem_cons_of_mem _ (hsuffix.subset (List.mem_cons_of_mem _ hy))
  | text s => exact opened_text b s ▸ List.subset_cons_self ..

/-- **What is closed stays as it is**, for one token. -/
theorem Builds.closed_step (h : b.Builds draft) (hx : b.document.isElement x)
    (hclosed : x ∉ b.opened ++ [b.container]) (token : Markup.Token) :
    (b.step token).document.fragment x = b.document.fragment x ∧
      (b.step token).document.isElement x ∧
      x ∉ (b.step token).opened ++ [(b.step token).container] := by
  have hf := h.forest
  have hf' := (h.step token).forest
  have huse := inUse_of_isElement hf hx
  have hout := h.not_within_parent hclosed
  have hsame : ∀ y, b.document.Within x y →
      (b.step token).document.get? y = b.document.get? y := by
    intro y hy
    have hne : y ≠ b.parent := by
      rintro rfl
      exact hout hy
    rcases h.document_step token with heq | ⟨content, hc, heq⟩ | ⟨c, s, t, link, hget, heq⟩
    · rw [heq]
    · have hfresh : y ≠ b.document.fresh := by
        rintro rfl
        exact not_inUse_fresh b.document (huse.of_within hf hy)
      rw [heq, get?_planted hf h.isElement_parent hc, if_neg hfresh, if_neg hne]
    · have hnot : y ≠ c := by
        rintro rfl
        rcases hy.cases_parent with rfl | ⟨p, hp, hlink⟩
        · rw [isElement, hget] at hx
          cases hx
        · exact hout (Option.some.inj (hlink.symm.trans link) ▸ hp)
      rw [heq, get?_retexted hget, if_neg hnot]
  refine ⟨fragment_congr hf hf' huse.1 hsame, ?_, ?_⟩
  · rw [isElement, hsame x (.refl _ x)]
    exact hx
  · rw [container_step, List.mem_append, not_or] at *
    refine ⟨fun hmem => ?_, hclosed.2⟩
    rcases List.mem_cons.1 (opened_step_subset b token hmem) with rfl | hmem
    · exact not_inUse_fresh b.document huse
    · exact hclosed.1 hmem

theorem Builds.closed_run (h : b.Builds draft) (hx : b.document.isElement x)
    (hclosed : x ∉ b.opened ++ [b.container]) (tokens : List Markup.Token) :
    (tokens.foldl Builder.step b).document.fragment x = b.document.fragment x := by
  induction tokens generalizing b draft with
  | nil => rfl
  | cons token tokens ih =>
    obtain ⟨hsame, hx', hclosed'⟩ := h.closed_step hx hclosed token
    exact (ih (h.step token) hx' hclosed').trans hsame

theorem endElement_of_split {inner outer : List Handle} {k : Handle} {name : String}
    (hopened : b.opened = inner ++ k :: outer)
    (hinner : ∀ y ∈ inner, b.document.tag? y ≠ some name) (hk : b.document.tag? k = some name) :
    b.step (.endTag name) = { b with opened := outer } := by
  have hdrop : b.opened.dropWhile (b.document.tag? · != some name) = k :: outer := by
    rw [hopened, List.dropWhile_append_of_pos fun y hy => bne_iff_ne.2 (hinner y hy),
      List.dropWhile_cons, hk, bne_self_eq_false]
    rfl
  simp only [step, endElement, hdrop]

theorem endElement_of_forall_ne {name : String}
    (h : ∀ y ∈ b.opened, b.document.tag? y ≠ some name) : b.step (.endTag name) = b := by
  have hdrop : b.opened.dropWhile (b.document.tag? · != some name) = [] :=
    List.dropWhile_eq_nil_iff.2 fun y hy => bne_iff_ne.2 (h y hy)
  simp only [step, endElement, hdrop]

end Builder

namespace Document
variable {d : Document} {c : Handle} {tag : String} {attributes : Attributes}
  {tokens : List Markup.Token}

/-- What has been built below a container when all the tokens have been taken. -/
def builder (d : Document) (c : Handle) (tokens : List Markup.Token) : Builder :=
  tokens.foldl Builder.step ⟨d, c, []⟩

/-- What building tokens below a container comes to. -/
structure Arranges (d : Document) (c : Handle) (tokens : List Markup.Token) : Prop where
  /-- A new node is never refused its place. -/
  accepted : ∀ pre post, tokens = pre ++ post → ∀ content : Content, content.children = [] →
    (((d.builder c pre).document.alloc content).2.append (d.builder c pre).parent
      ((d.builder c pre).document.alloc content).1).2 = true
  items : Items.Follow (((d.build c tokens).subtree c).tail.flatMap (d.build c tokens).items) tokens
  text : (d.build c tokens).textContent c = String.join (tokens.map Markup.Token.content)
  /-- Of two nodes beside each other one is an element. -/
  apart : ∀ x, (d.build c tokens).Within c x → ((d.build c tokens).children x).IsChain fun y z =>
    (d.build c tokens).isElement y ∨ (d.build c tokens).isElement z
  /-- An element is open from its start tag on if something can stand in it. -/
  opens : ∀ pre name attributes selfClosing post,
    tokens = pre ++ .startTag name attributes selfClosing :: post →
      (d.builder c (pre ++ [.startTag name attributes selfClosing])).opened =
        if selfClosing || isChildless name then (d.builder c pre).opened
        else (d.builder c pre).document.fresh :: (d.builder c pre).opened
  stays : ∀ pre s post, tokens = pre ++ .text s :: post →
    (d.builder c (pre ++ [.text s])).opened = (d.builder c pre).opened
  /-- Each open element is the last child of the next one. -/
  edge : ∀ pre post, tokens = pre ++ post → ((d.builder c pre).opened ++ [c]).IsChain fun k p =>
    ((d.builder c pre).document.children p).getLast? = some k
  /-- What is not open does not change any more. -/
  closed : ∀ pre post, tokens = pre ++ post → ∀ x, (d.builder c pre).document.isElement x →
    x ∉ (d.builder c pre).opened ++ [c] →
      (d.build c tokens).fragment x = (d.builder c pre).document.fragment x
  /-- An end tag closes the innermost open element of its name with all that is open inside it. -/
  closes : ∀ pre name post, tokens = pre ++ .endTag name :: post → ∀ inner k outer,
    (d.builder c pre).opened = inner ++ k :: outer →
    (∀ y ∈ inner, (d.builder c pre).document.tag? y ≠ some name) →
    (d.builder c pre).document.tag? k = some name →
      d.builder c (pre ++ [.endTag name]) = { d.builder c pre with opened := outer } ∧
      ∀ y ∈ inner ++ [k],
        (d.build c tokens).fragment y = (d.builder c pre).document.fragment y
  /-- An end tag without such an element counts for nothing. -/
  ignores : ∀ pre name post, tokens = pre ++ .endTag name :: post →
    (∀ y ∈ (d.builder c pre).opened, (d.builder c pre).document.tag? y ≠ some name) →
      d.builder c (pre ++ [.endTag name]) = d.builder c pre

theorem builder_append (d : Document) (c : Handle) (pre post : List Markup.Token) :
    d.builder c (pre ++ post) = post.foldl Builder.step (d.builder c pre) := List.foldl_append

theorem document_builder (d : Document) (c : Handle) (tokens : List Markup.Token) :
    (d.builder c tokens).document = d.build c tokens := rfl

theorem container_builder (d : Document) (c : Handle) (tokens : List Markup.Token) :
    (d.builder c tokens).container = c := Builder.container_run _ tokens

/-! ## All the tokens -/

section Leaf
variable (hf : d.Forest) (hget : d.get? c = some (.element tag attributes []))
  (htop : d.parent? c = none)
include hf hget htop

theorem builds_builder (pre : List Markup.Token) :
    (d.builder c pre).Builds (pre.foldl Draft.step ⟨⟨tag, attributes, []⟩, []⟩) :=
  (builds_of_leaf hf hget htop).run pre

theorem isChain_builder (pre : List Markup.Token) :
    ((d.builder c pre).opened ++ [c]).IsChain fun k p =>
      ((d.builder c pre).document.children p).getLast? = some k := by
  have hchain := (builds_builder hf hget htop pre).isChain
  rwa [container_builder] at hchain

theorem closed_builder (pre post : List Markup.Token) {x : Handle}
    (hx : (d.builder c pre).document.isElement x) (hclosed : x ∉ (d.builder c pre).opened ++ [c]) :
    (d.build c (pre ++ post)).fragment x = (d.builder c pre).document.fragment x := by
  rw [← document_builder, builder_append]
  refine (builds_builder hf hget htop pre).closed_run hx ?_ post
  rwa [container_builder]

theorem closed_of_endTag (pre post : List Markup.Token) {inner outer : List Handle} {k : Handle}
    {name : String} (hopened : (d.builder c pre).opened = inner ++ k :: outer)
    (hstep : d.builder c (pre ++ [.endTag name]) = { d.builder c pre with opened := outer }) :
    ∀ y ∈ inner ++ [k], (d.build c (pre ++ .endTag name :: post)).fragment y =
      (d.builder c pre).document.fragment y := by
  intro y hy
  have hbuilds := builds_builder hf hget htop pre
  have hopen : (d.builder c pre).opened ++ [c] = (inner ++ [k]) ++ (outer ++ [c]) := by
    rw [hopened]
    simp
  have hnodup := nodup_of_edge hbuilds.forest (isChain_builder hf hget htop pre)
  rw [hopen] at hnodup
  have hout : y ∉ outer ++ [c] := fun hmem => (List.nodup_append.1 hnodup).2.2 y hy y hmem rfl
  have helement : (d.builder c pre).document.isElement y := by
    refine hbuilds.spine.isElement y ?_
    rw [container_builder, hopen]
    exact List.mem_append_left _ hy
  have hclosed := closed_builder hf hget htop (pre ++ [.endTag name]) post (x := y)
  rw [hstep, List.append_assoc] at hclosed
  exact hclosed helement hout

theorem items_build (tokens : List Markup.Token) {f : Frame}
    (hread : Draft.read tag attributes tokens = f.close) :
    ((d.build c tokens).subtree c).tail.flatMap (d.build c tokens).items =
      Fragment.itemsList f.before := by
  have hfragment := fragment_build hf hget htop tokens
  have helement : (d.build c tokens).isElement c := by
    rw [← isElement_fragment (hf.build hget htop tokens), hfragment, hread]
    rfl
  have hitems := items_subtree (d.build c tokens) c
  rw [subtree_eq_cons (inUse_build hf hget htop tokens).1, List.flatMap_cons, hfragment, hread]
    at hitems
  rw [isElement] at helement
  split at helement
  · next heq =>
    rw [items, heq] at hitems
    exact (List.cons.inj hitems).2
  · cases helement

/-- **Nothing is lost and nothing is reordered** when tokens are built. -/
theorem arranges_of_leaf (tokens : List Markup.Token) : d.Arranges c tokens := by
  obtain ⟨f, hread, hfollow, hapart⟩ := Draft.read_eq_close tag attributes tokens
  have hbuilt := hf.build hget htop tokens
  have hfragment := (fragment_build hf hget htop tokens).trans hread
  have hbuilds := builds_builder hf hget htop
  refine {
    accepted := fun pre post _ content hc => ?_
    items := ?_
    text := ?_
    apart := fun x hx => ?_
    opens := fun pre name attributes selfClosing post _ => ?_
    stays := fun pre s post _ => ?_
    edge := fun pre post _ => isChain_builder hf hget htop pre
    closed := fun pre post heq x hx hclosed => ?_
    closes := fun pre name post heq inner k outer hopened hinner hk => ?_
    ignores := fun pre name post _ hne => ?_ }
  · have happend := append_alloc (hbuilds pre).forest (hbuilds pre).isElement_parent hc
    rw [alloc_fst, happend]
  · rw [items_build hf hget htop tokens hread]
    exact hfollow
  · refine String.toList_inj.1 ?_
    rw [textContent, hfragment, ← Fragment.characters_items, ← hfollow.characters]
    rfl
  · exact chain_of_apart hbuilt (apart_of_within hbuilt (hfragment ▸ hapart) hx)
  · rw [builder_append]
    exact Builder.opened_startTag ..
  · rw [builder_append]
    exact Builder.opened_text ..
  · exact heq ▸ closed_builder hf hget htop pre post hx hclosed
  · have hstep : d.builder c (pre ++ [.endTag name]) = { d.builder c pre with opened := outer } := by
      rw [builder_append]
      exact Builder.endElement_of_split hopened hinner hk
    have hclosed := closed_of_endTag hf hget htop pre post hopened hstep
    exact ⟨hstep, heq ▸ hclosed⟩
  · rw [builder_append]
    exact Builder.endElement_of_forall_ne hne

end Leaf

/-- Below a new element nothing that is built is refused, lost, reordered or changed again. -/
theorem createElement_arranges (hd : d.Reachable) (tag : String) (attributes : Attributes)
    (tokens : List Markup.Token) :
    (d.createElement tag attributes).2.Arranges (d.createElement tag attributes).1 tokens := by
  have hf := hd.forest
  have hget : (d.createElement tag attributes).2.get? (d.createElement tag attributes).1 =
      some (.element tag attributes []) := by
    rw [createElement, alloc_fst]
    exact (get?_alloc hf _ _).trans (if_pos rfl)
  refine arranges_of_leaf (hf.alloc rfl) hget ?_ tokens
  rw [createElement, alloc_fst]
  exact (parent?_alloc hf _ _).trans (parent?_fresh hf)

/-- A list with an item that its end tag closes, and end tags that count for nothing. -/
def listTokens : List Markup.Token := [
  .startTag "ul" .empty false, .startTag "li" .empty false, .text "a", .text "b",
  .startTag "br" .empty false, .endTag "p", .endTag "ul", .text "c", .endTag "div"]

theorem createElement_arranges_list :
    let created := Document.empty.createElement "div" .empty
    Document.empty.Reachable ∧ created.2.Arranges created.1 listTokens ∧
      (created.2.build created.1 listTokens).outerMarkup created.1 =
        "<div><ul><li>ab<br/></li></ul>c</div>" :=
  ⟨.empty, createElement_arranges .empty "div" .empty listTokens, by decide +kernel⟩

end Document
end Stencil.Live
