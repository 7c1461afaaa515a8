import Stencil.Proofs.Live.Session

/-! # Tokens in their order

In document order a tree shows characters and elements. What a draft shows is what its tokens say, one
by one: nothing that is there is moved, and what a token adds comes last. Texts never come to stand
beside each other.
-/
namespace Stencil

/-- What is seen of an element in document order. It is bare if nothing can stand in it. -/
structure Live.Head where
  tag : String
  attributes : Attributes
  bare : Bool

namespace Live

/-- The element comes of a start tag, as which it is seen. -/
structure Head.Shows (head start : Head) : Prop where
  tag : head.tag = start.tag
  attributes : head.attributes = start.attributes
  bare : start.bare → head.bare

abbrev Items := List (Char ⊕ Head)

def Items.ofText (s : String) : Items := s.toList.map .inl

end Live

open Live

/-- What a token adds. -/
def Markup.Token.items : Markup.Token → Items
  | .startTag name attributes selfClosing => [.inr ⟨name, attributes, selfClosing || isChildless name⟩]
  | .endTag _ => []
  | .text s => .ofText s

def Markup.Token.content : Markup.Token → String
  | .text s => s
  | _ => ""

namespace Live

def Items.Follow (items : Items) (tokens : List Markup.Token) : Prop :=
  List.Forall₂ (Sum.LiftRel Eq Head.Shows) items (tokens.flatMap Markup.Token.items)

def Content.items : Content → Items
  | .text s => .ofText s
  | .element tag attributes children => [.inr ⟨tag, attributes, children.isEmpty⟩]

namespace Fragment

mutual

def items : Fragment → Items
  | text s => .ofText s
  | element tag attributes children => .inr ⟨tag, attributes, children.isEmpty⟩ :: itemsList children

def itemsList : List Fragment → Items
  | [] => []
  | child :: rest => items child ++ itemsList rest

end

theorem itemsList_append (a b : List Fragment) :
    itemsList (a ++ b) = itemsList a ++ itemsList b := by
  induction a with
  | nil => rfl
  | cons f a ih => rw [List.cons_append, itemsList, itemsList, ih, List.append_assoc]

theorem itemsList_singleton (f : Fragment) : itemsList [f] = f.items := by
  rw [itemsList, itemsList, List.append_nil]

theorem itemsList_eq_flatMap (children : List Fragment) :
    itemsList children = children.flatMap items := by
  induction children with
  | nil => rfl
  | cons f children ih => rw [itemsList, ih, List.flatMap_cons]

end Fragment

namespace Draft
variable {b : Draft} {f g : Frame} {outer : List Frame} {first more : Items}
  {tokens : List Markup.Token}

/-- The items of what has been read. An open element is not bare. -/
def items : Frame → List Frame → Items
  | f, [] => Fragment.itemsList f.before
  | f, g :: outer => items g outer ++ .inr ⟨f.tag, f.attributes, false⟩ :: Fragment.itemsList f.before

theorem items_add (f : Frame) (child : Fragment) (outer : List Frame) :
    items (f.add child) outer = items f outer ++ child.items := by
  cases outer with
  | nil => rw [items, items, Frame.add, Fragment.itemsList_append, Fragment.itemsList_singleton]
  | cons g outer =>
    rw [items, items, Frame.add, Fragment.itemsList_append, Fragment.itemsList_singleton]
    simp

theorem items_addText (f : Frame) (s : String) (outer : List Frame) :
    items (f.addText s) outer = items f outer ++ .ofText s := by
  unfold Frame.addText
  split
  · next t ht =>
    obtain ⟨pre, hpre⟩ := List.getLast?_eq_some_iff.1 ht
    have hbefore : Fragment.itemsList (f.before.dropLast ++ [.text (t ++ s)]) =
        Fragment.itemsList f.before ++ .ofText s := by
      rw [hpre, List.dropLast_concat, Fragment.itemsList_append, Fragment.itemsList_append,
        Fragment.itemsList_singleton, Fragment.itemsList_singleton]
      simp [Fragment.items, Items.ofText]
    cases outer <;> simp [items, hbefore]
  · exact items_add f (.text s) outer

theorem follow_of_open {tag : String} {attributes : Attributes} (bare : Bool)
    (h : Items.Follow (first ++ .inr ⟨tag, attributes, false⟩ :: more) tokens) :
    Items.Follow (first ++ .inr ⟨tag, attributes, bare⟩ :: more) tokens := by
  unfold Items.Follow at h ⊢
  generalize tokens.flatMap Markup.Token.items = starts at h ⊢
  induction first generalizing starts with
  | nil =>
    cases h with
    | cons hhead htail =>
      cases hhead with
      | inr hshows =>
        refine .cons (.inr ⟨hshows.tag, hshows.attributes, fun hbare => ?_⟩) htail
        cases hshows.bare hbare
  | cons item first ih =>
    cases h with
    | cons hhead htail => exact .cons hhead (ih _ htail)

theorem follow_close (h : Items.Follow (items f (g :: outer)) tokens) :
    Items.Follow (items (g.add f.close) outer) tokens := by
  rw [items_add]
  exact follow_of_open f.before.isEmpty h

theorem follow_closeThrough (tag : String) (h : Items.Follow (items f outer) tokens) :
    Items.Follow (items (closeThrough tag f outer).inner (closeThrough tag f outer).outer) tokens := by
  induction outer generalizing f with
  | nil => exact h
  | cons g outer ih =>
    rw [closeThrough]
    split
    · exact follow_close h
    · exact ih (follow_close h)

theorem follow_finish (h : Items.Follow (items f outer) tokens) :
    Items.Follow (Fragment.itemsList (finish f outer).before) tokens := by
  induction outer generalizing f with
  | nil => exact h
  | cons g outer ih => exact ih (follow_close h)

end Draft

theorem Items.Follow.append {items more : Items} {tokens : List Markup.Token} {token : Markup.Token}
    (h : items.Follow tokens)
    (hmore : List.Forall₂ (Sum.LiftRel Eq Head.Shows) more token.items) :
    Items.Follow (items ++ more) (tokens ++ [token]) := by
  unfold Items.Follow
  rw [List.flatMap_append, List.flatMap_singleton]
  exact List.rel_append h hmore

theorem forall₂_ofText (s : String) :
    List.Forall₂ (Sum.LiftRel Eq Head.Shows) (Items.ofText s) (Items.ofText s) :=
  List.forall₂_same.2 fun item hitem => by
    obtain ⟨c, -, rfl⟩ := List.mem_map.1 hitem
    exact .inl rfl

def Items.characters (items : Items) : List Char := items.filterMap Sum.getLeft?

theorem Items.characters_append (a b : Items) :
    Items.characters (a ++ b) = a.characters ++ b.characters := List.filterMap_append

theorem Items.characters_ofText (s : String) : (Items.ofText s).characters = s.toList := by
  rw [characters, ofText, List.filterMap_map]
  exact List.filterMap_some

theorem Fragment.characters_items (f : Fragment) : f.items.characters = f.content.toList := by
  have hlist {children : List Fragment}
      (h : ∀ c ∈ children, c.items.characters = c.content.toList) :
      (itemsList children).characters = (contentList children).toList := by
    induction children with
    | nil => rfl
    | cons c children ih =>
      obtain ⟨hfirst, hrest⟩ := List.forall_mem_cons.1 h
      rw [contentList, itemsList, String.toList_append, Items.characters_append, hfirst, ih hrest]
  induction f using Fragment.induct with
  | text s => exact Items.characters_ofText s
  | element tag attributes children ih => exact hlist ih

theorem characters_tokens (tokens : List Markup.Token) :
    Items.characters (tokens.flatMap Markup.Token.items) =
      (String.join (tokens.map Markup.Token.content)).toList := by
  rw [String.toList_join, List.flatMap_map]
  induction tokens with
  | nil => rfl
  | cons token tokens ih =>
    rw [List.flatMap_cons, List.flatMap_cons, Items.characters_append, ih]
    cases token with
    | text s => rw [Markup.Token.items, Items.characters_ofText, Markup.Token.content]
    | startTag | endTag => rfl

theorem Items.Follow.characters {items : Items} {tokens : List Markup.Token}
    (h : items.Follow tokens) :
    items.characters = (String.join (tokens.map Markup.Token.content)).toList := by
  rw [← characters_tokens]
  unfold Follow at h
  generalize tokens.flatMap Markup.Token.items = starts at h ⊢
  induction h with
  | nil => rfl
  | cons hitem _ ih =>
    cases hitem with
    | inl heq => exact congrArg₂ List.cons heq ih
    | inr => exact ih

namespace Draft
variable {b : Draft} {tokens : List Markup.Token}

/-- **Nothing is lost or reordered** by a token: what is there stays, and what it adds comes last. -/
theorem follow_step (h : Items.Follow (items b.inner b.outer) tokens) (token : Markup.Token) :
    Items.Follow (items (b.step token).inner (b.step token).outer) (tokens ++ [token]) := by
  cases token with
  | startTag name attributes selfClosing =>
    cases hbare : selfClosing || isChildless name with
    | true =>
      simp only [step, hbare, if_true, items_add]
      refine h.append ?_
      rw [Markup.Token.items, hbare]
      exact .cons (.inr ⟨rfl, rfl, fun _ => rfl⟩) .nil
    | false =>
      simp only [step, hbare, Bool.false_eq_true, if_false]
      refine h.append ?_
      rw [Markup.Token.items, hbare]
      exact .cons (.inr ⟨rfl, rfl, id⟩) .nil
  | endTag name =>
    have hkeep : Items.Follow (items b.inner b.outer) (tokens ++ [.endTag name]) := by
      have hall : Items.Follow (items b.inner b.outer ++ []) (tokens ++ [.endTag name]) :=
        h.append .nil
      rwa [List.append_nil] at hall
    simp only [step]
    split
    · exact follow_closeThrough name hkeep
    · exact hkeep
  | text s =>
    simp only [step, items_addText]
    exact h.append (forall₂_ofText s)

theorem follow_run (h : Items.Follow (items b.inner b.outer) tokens) (more : List Markup.Token) :
    Items.Follow (items (more.foldl step b).inner (more.foldl step b).outer) (tokens ++ more) := by
  induction more generalizing b tokens with
  | nil => rwa [List.append_nil]
  | cons token more ih =>
    have hall := ih (follow_step h token)
    rwa [List.append_assoc] at hall

end Draft

/-! ## Texts stand apart -/

/-- No two texts stand beside each other. -/
inductive Fragment.Apart : Fragment → Prop
  | text (s : String) : Apart (.text s)
  | element {tag : String} {attributes : Attributes} {children : List Fragment}
      (chain : children.IsChain fun a b => a.isElement ∨ b.isElement)
      (inner : ∀ child ∈ children, Apart child) : Apart (.element tag attributes children)

namespace Frame
variable {f : Frame} {child : Fragment}

theorem apart_close : f.close.Apart ↔
    (f.before.IsChain fun a b => a.isElement ∨ b.isElement) ∧ ∀ child ∈ f.before, child.Apart := by
  constructor
  · intro h
    cases h with
    | element chain inner => exact ⟨chain, inner⟩
  · rintro ⟨chain, inner⟩
    exact .element chain inner

theorem apart_concat {before : List Fragment} (h : f.close.Apart) (hbefore : before <+: f.before)
    (hchild : child.Apart) (hlast : child.isElement ∨ ∀ s, before.getLast? ≠ some (.text s)) :
    Fragment.Apart (.element f.tag f.attributes (before ++ [child])) := by
  obtain ⟨hchain, hinner⟩ := apart_close.1 h
  have hfront := List.IsChain.prefix hchain hbefore
  refine .element (List.isChain_append.2 ⟨hfront, .singleton _, ?_⟩) ?_
  · intro last hlast' next hnext
    cases hnext
    refine hlast.symm.imp_left fun hnot => ?_
    cases last with
    | text s => exact absurd hlast' (hnot s)
    | element => rfl
  · intro c hc
    rcases List.mem_append.1 hc with hc | hc
    · exact hinner c (hbefore.subset hc)
    · exact List.mem_singleton.1 hc ▸ hchild

theorem apart_add (h : f.close.Apart) (hchild : child.Apart) (helement : child.isElement) :
    (f.add child).close.Apart :=
  apart_concat (f := f) h (List.prefix_refl _) hchild (.inl helement)

theorem apart_addText (h : f.close.Apart) (s : String) : (f.addText s).close.Apart := by
  unfold addText
  split
  · next t ht =>
    obtain ⟨pre, hpre⟩ := List.getLast?_eq_some_iff.1 ht
    refine apart_concat (f := f) h (List.dropLast_prefix _) (.text _) (.inr fun u hu => ?_)
    -- A text in front of the last one would have stood beside it before.
    obtain ⟨hchain, -⟩ := apart_close.1 h
    rw [hpre, List.dropLast_concat] at hu
    rw [hpre] at hchain
    have hbeside := (List.isChain_append.1 hchain).2.2 _ hu _ rfl
    exact hbeside.elim nofun nofun
  · next hlast => exact apart_concat (f := f) h (List.prefix_refl _) (.text s) (.inr hlast)

end Frame

namespace Draft
variable {b : Draft} {f g : Frame} {outer : List Frame}

/-- No two texts stand beside each other in any open element. -/
def Apart (b : Draft) : Prop := ∀ f ∈ b.inner :: b.outer, f.close.Apart

theorem apart_cons_close (h : ∀ f' ∈ f :: g :: outer, f'.close.Apart) :
    ∀ f' ∈ g.add f.close :: outer, f'.close.Apart := by
  obtain ⟨hf, hrest⟩ := List.forall_mem_cons.1 h
  obtain ⟨hg, houter⟩ := List.forall_mem_cons.1 hrest
  exact List.forall_mem_cons.2 ⟨Frame.apart_add hg hf rfl, houter⟩

theorem apart_closeThrough (tag : String) (h : ∀ f' ∈ f :: outer, f'.close.Apart) :
    (closeThrough tag f outer).Apart := by
  induction outer generalizing f with
  | nil => exact h
  | cons g outer ih =>
    rw [closeThrough]
    split
    · exact apart_cons_close h
    · exact ih (apart_cons_close h)

theorem apart_finish (h : ∀ f' ∈ f :: outer, f'.close.Apart) : (finish f outer).close.Apart := by
  induction outer generalizing f with
  | nil => exact h f List.mem_cons_self
  | cons g outer ih => exact ih (apart_cons_close h)

theorem Apart.step (h : b.Apart) (token : Markup.Token) : (b.step token).Apart := by
  have hnone (name : String) (attributes : Attributes) :
      Fragment.Apart (.element name attributes []) := .element .nil nofun
  obtain ⟨hinner, houter⟩ := List.forall_mem_cons.1 h
  cases token with
  | startTag name attributes selfClosing =>
    simp only [Draft.step]
    split
    · exact List.forall_mem_cons.2 ⟨Frame.apart_add hinner (hnone name attributes) rfl, houter⟩
    · exact List.forall_mem_cons.2 ⟨hnone name attributes, h⟩
  | endTag name =>
    simp only [Draft.step]
    split
    · exact apart_closeThrough name h
    · exact h
  | text s => exact List.forall_mem_cons.2 ⟨Frame.apart_addText hinner s, houter⟩

theorem Apart.run (h : b.Apart) (tokens : List Markup.Token) : (tokens.foldl Draft.step b).Apart := by
  induction tokens generalizing b with
  | nil => exact h
  | cons token tokens ih => exact ih (h.step token)

theorem read_eq_close (tag : String) (attributes : Attributes) (tokens : List Markup.Token) :
    ∃ f : Frame, read tag attributes tokens = f.close ∧
      Items.Follow (Fragment.itemsList f.before) tokens ∧ f.close.Apart := by
  have hnone : Items.Follow (items ⟨tag, attributes, []⟩ []) [] := .nil
  have hfollow := follow_run (b := ⟨⟨tag, attributes, []⟩, []⟩) hnone tokens
  have hapart : Apart ⟨⟨tag, attributes, []⟩, []⟩ :=
    List.forall_mem_singleton.2 (.element .nil nofun)
  exact ⟨_, rfl, follow_finish hfollow, apart_finish (hapart.run tokens)⟩

end Draft

end Live
end Stencil
