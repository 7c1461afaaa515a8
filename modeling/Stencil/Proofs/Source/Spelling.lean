import Stencil.Proofs.Source.Layout
import Stencil.Proofs.Template.Names
import Stencil.Source.Grammar

/-! # Trees as tokens

What the grammar allows to be written for a tree. A point, attributes and braces that hold nothing
may be left out, the keys of attributes may be words or strings, and a comma may follow the last
attribute. A tree can be written if its names are identifiers, its repeated points have names and
its slots stand in the order of theirs.
-/
namespace Stencil
namespace Source

/-! ## The parts of a node -/

/-- What follows the name of an element, a reference or a slot for its point. -/
def pointTokens (point : PointSpec) : List Token :=
  (match point.id with
    | none => []
    | some id =>
      .mark .hash :: .word id :: if point.isMultiple then [.mark .star] else []) ++
    if point.exported then [.keyword .exported] else []

/-- A key is written as a string, or as a word if it is one. -/
def Names (token : Token) (key : String) : Prop := token = .string key ∨ token = .word key

/-- Attributes behind an opening bracket or a comma, up to the closing bracket. -/
inductive Lists : List (String × String) → List Token → Prop
  | close : Lists [] [.mark .bracketClose]
  | last {token : Token} {key value : String} (h : Names token key) :
      Lists [(key, value)] [token, .mark .colon, .string value, .mark .bracketClose]
  | more {token : Token} {key value : String} {entries : List (String × String)}
      {tokens : List Token} (h : Names token key) (rest : Lists entries tokens) :
      Lists ((key, value) :: entries)
        (token :: .mark .colon :: .string value :: .mark .comma :: tokens)

inductive SpellsAttributes : Attributes → List Token → Prop
  | absent : SpellsAttributes .empty []
  | brackets {attributes : Attributes} {tokens : List Token} (h : Lists attributes.entries tokens) :
      SpellsAttributes attributes (.mark .bracketOpen :: tokens)

/-! ## Nodes -/

/-- What the grammar has a rule for: a node; nodes between braces, or with the braces around them;
and the same for slots. -/
inductive Phrase
  | node (node : Node)
  | nodes (nodes : List Node)
  | body (nodes : List Node)
  | slots (slots : List (String × Slot))
  | overrides (slots : List (String × Slot))

/-- The tokens are a way to write the phrase. -/
inductive Spells : Phrase → List Token → Prop
  | text (text : String) : Spells (.node (.text text)) [.string text]
  | element {tag : String} {point : PointSpec} {attributes : Attributes} {children : List Node}
      {listed inner : List Token} (written : SpellsAttributes attributes listed)
      (inside : Spells (.body children) inner) :
      Spells (.node (.element tag point attributes children))
        (.word tag :: (pointTokens point ++ listed ++ inner))
  | reference {template : String} {point : PointSpec} {attributes : Attributes}
      {slots : List (String × Slot)} {listed inner : List Token}
      (written : SpellsAttributes attributes listed) (inside : Spells (.overrides slots) inner) :
      Spells (.node (.reference template point attributes slots))
        (.keyword .reference :: .word template :: (pointTokens point ++ listed ++ inner))
  | noNodes : Spells (.nodes []) []
  | moreNodes {node : Node} {nodes : List Node} {first rest : List Token}
      (head : Spells (.node node) first) (tail : Spells (.nodes nodes) rest) :
      Spells (.nodes (node :: nodes)) (first ++ rest)
  | noBody : Spells (.body []) []
  | body {nodes : List Node} {inner : List Token} (h : Spells (.nodes nodes) inner) :
      Spells (.body nodes) (.mark .braceOpen :: (inner ++ [.mark .braceClose]))
  | noSlots : Spells (.slots []) []
  | moreSlots {name : String} {id : Option String} {attributes : Attributes}
      {children : List Node} {slots : List (String × Slot)} {listed inner rest : List Token}
      (written : SpellsAttributes attributes listed) (inside : Spells (.body children) inner)
      (tail : Spells (.slots slots) rest) :
      Spells (.slots ((name, ⟨id, attributes, children⟩) :: slots))
        (.word name :: (pointTokens ⟨id, .single, false⟩ ++ listed ++ inner) ++ rest)
  | noOverrides : Spells (.overrides []) []
  | overrides {slots : List (String × Slot)} {inner : List Token}
      (h : Spells (.slots slots) inner) :
      Spells (.overrides slots) (.mark .braceOpen :: (inner ++ [.mark .braceClose]))

end Source

/-! ## What can be written -/

open Source

/-- The name of a point is an identifier, and a repeated point has one. -/
def PointSpec.isWritable (point : PointSpec) : Bool :=
  point.id.all isIdentifier && (point.id.isSome || !point.isMultiple)

namespace Node
variable {node m c : Node}

/-- The names that a node has itself are identifiers, and its slots stand in order. -/
def isWritable : Node → Bool
  | text _ => true
  | element tag point _ _ => isIdentifier tag && point.isWritable
  | reference template point _ slots =>
    isIdentifier template && point.isWritable && decide (slots.Pairwise (·.1 < ·.1)) &&
      slots.all fun slot => isIdentifier slot.1 && slot.2.id.all isIdentifier

/-- A tree that can be written. -/
def Writable (node : Node) : Prop := ∀ m ∈ node.preorder, m.isWritable

theorem Writable.own (h : node.Writable) : node.isWritable := h node (mem_preorder_self node)

theorem Writable.child (h : node.Writable) (hc : c ∈ node.childNodes) : c.Writable :=
  fun m hm => h m (mem_preorder_of_child hc hm)

end Node

namespace Source
variable {tag template : String} {point : PointSpec} {attributes : Attributes}
  {children : List Node} {slots : List (String × Slot)} {phrase : Phrase} {tokens : List Token}

/-- A phrase in which everything can be written. -/
def Phrase.Writable : Phrase → Prop
  | .node n => n.Writable
  | .nodes ns | .body ns => ∀ n ∈ ns, n.Writable
  | .slots slots | .overrides slots => NameMap.Sorted slots ∧ ∀ slot ∈ slots,
      isIdentifier slot.1 ∧ slot.2.id.all isIdentifier ∧ ∀ n ∈ slot.2.children, n.Writable

theorem writable_element (h : (Node.element tag point attributes children).Writable) :
    isIdentifier tag ∧ point.isWritable ∧ (Phrase.body children).Writable := by
  have hown := h.own
  rw [Node.isWritable, Bool.and_eq_true] at hown
  exact ⟨hown.1, hown.2, fun _ hc => h.child hc⟩

theorem writable_reference (h : (Node.reference template point attributes slots).Writable) :
    isIdentifier template ∧ point.isWritable ∧ (Phrase.overrides slots).Writable := by
  have hown := h.own
  simp only [Node.isWritable, Bool.and_eq_true, decide_eq_true_eq, List.all_eq_true] at hown
  obtain ⟨⟨⟨htemplate, hpoint⟩, hsorted⟩, hslots⟩ := hown
  refine ⟨htemplate, hpoint, hsorted, fun slot hslot => ?_⟩
  obtain ⟨hname, hid⟩ := hslots slot hslot
  exact ⟨hname, hid, fun _ hc => h.child (Node.mem_childNodes_of_slot hslot hc ..)⟩

/-! ## Everything that can be written has a spelling -/

def Spellable (tokens : List Token) : Prop := ∀ token ∈ tokens, token.isSpellable

theorem spellable_append {tokens' : List Token} :
    Spellable (tokens ++ tokens') ↔ Spellable tokens ∧ Spellable tokens' := List.forall_mem_append

theorem spellable_cons {token : Token} :
    Spellable (token :: tokens) ↔ token.isSpellable ∧ Spellable tokens := List.forall_mem_cons

theorem spellable_pointTokens (h : point.id.all isIdentifier) : Spellable (pointTokens point) := by
  obtain ⟨id, cardinality, exported⟩ := point
  cases id <;> cases cardinality <;> cases exported <;>
    simp_all [pointTokens, Spellable, Token.isSpellable, PointSpec.isMultiple]

theorem exists_lists (entries : List (String × String)) :
    ∃ tokens, Lists entries tokens ∧ Spellable tokens := by
  induction entries with
  | nil => exact ⟨_, .close, by simp [Spellable, Token.isSpellable]⟩
  | cons entry entries ih =>
    obtain ⟨key, value⟩ := entry
    obtain ⟨tokens, hlists, hspellable⟩ := ih
    refine ⟨_, .more (.inl rfl) hlists, ?_⟩
    simp [spellable_cons, Token.isSpellable, hspellable]

theorem exists_spellsAttributes (attributes : Attributes) :
    ∃ tokens, SpellsAttributes attributes tokens ∧ Spellable tokens := by
  obtain ⟨tokens, hlists, hspellable⟩ := exists_lists attributes.entries
  exact ⟨_, .brackets hlists, spellable_cons.2 ⟨rfl, hspellable⟩⟩

theorem spellable_braces (h : Spellable tokens) :
    Spellable (.mark .braceOpen :: (tokens ++ [.mark .braceClose])) := by
  rw [spellable_cons, spellable_append]
  exact ⟨rfl, h, by simp [Spellable, Token.isSpellable]⟩

theorem exists_spells_body
    (h : ∀ c ∈ children, ∃ tokens, Spells (.node c) tokens ∧ Spellable tokens) :
    ∃ tokens, Spells (.body children) tokens ∧ Spellable tokens := by
  have inner : ∃ tokens, Spells (.nodes children) tokens ∧ Spellable tokens := by
    induction children with
    | nil => exact ⟨[], .noNodes, by simp [Spellable]⟩
    | cons c children ih =>
      obtain ⟨hhead, htail⟩ := List.forall_mem_cons.1 h
      obtain ⟨first, hfirst, hspellable⟩ := hhead
      obtain ⟨rest, hrest, hspellable'⟩ := ih htail
      exact ⟨_, .moreNodes hfirst hrest, spellable_append.2 ⟨hspellable, hspellable'⟩⟩
  obtain ⟨tokens, hspells, hspellable⟩ := inner
  exact ⟨_, .body hspells, spellable_braces hspellable⟩

theorem exists_spells_overrides (h : ∀ slot ∈ slots, isIdentifier slot.1 ∧
      slot.2.id.all isIdentifier ∧
        ∃ tokens, Spells (.body slot.2.children) tokens ∧ Spellable tokens) :
    ∃ tokens, Spells (.overrides slots) tokens ∧ Spellable tokens := by
  have inner : ∃ tokens, Spells (.slots slots) tokens ∧ Spellable tokens := by
    induction slots with
    | nil => exact ⟨[], .noSlots, by simp [Spellable]⟩
    | cons slot slots ih =>
      obtain ⟨name, id, attributes, children⟩ := slot
      obtain ⟨⟨hname, hid, inside, hinside, hspellable⟩, htail⟩ := List.forall_mem_cons.1 h
      obtain ⟨listed, hlisted, hspellable'⟩ := exists_spellsAttributes attributes
      obtain ⟨rest, hrest, hspellable''⟩ := ih htail
      have hpoint : Spellable (pointTokens ⟨id, .single, false⟩) := spellable_pointTokens hid
      refine ⟨_, .moreSlots hlisted hinside hrest, ?_⟩
      simp only [List.cons_append, spellable_cons, spellable_append]
      exact ⟨hname, ⟨⟨hpoint, hspellable'⟩, hspellable⟩, hspellable''⟩
  obtain ⟨tokens, hspells, hspellable⟩ := inner
  exact ⟨_, .overrides hspells, spellable_braces hspellable⟩

theorem exists_spells (node : Node) (h : node.Writable) :
    ∃ tokens, Spells (.node node) tokens ∧ Spellable tokens := by
  induction node using Node.induct with
  | step node ih =>
    cases node with
    | text text => exact ⟨_, .text text, by simp [Spellable, Token.isSpellable]⟩
    | element tag point attributes children =>
      obtain ⟨htag, hpoint, hchildren⟩ := writable_element h
      rw [PointSpec.isWritable, Bool.and_eq_true] at hpoint
      obtain ⟨listed, hlisted, hspellable⟩ := exists_spellsAttributes attributes
      obtain ⟨inside, hinside, hspellable'⟩ :=
        exists_spells_body fun c hc => ih c hc (hchildren c hc)
      refine ⟨_, .element hlisted hinside, ?_⟩
      simp only [spellable_cons, spellable_append]
      exact ⟨htag, ⟨spellable_pointTokens hpoint.1, hspellable⟩, hspellable'⟩
    | reference template point attributes slots =>
      obtain ⟨htemplate, hpoint, -, hslots⟩ := writable_reference h
      rw [PointSpec.isWritable, Bool.and_eq_true] at hpoint
      obtain ⟨listed, hlisted, hspellable⟩ := exists_spellsAttributes attributes
      have hbody : ∃ tokens, Spells (.overrides slots) tokens ∧ Spellable tokens := by
        refine exists_spells_overrides fun slot hslot => ?_
        obtain ⟨hname, hid, hchildren⟩ := hslots slot hslot
        refine ⟨hname, hid, exists_spells_body fun c hc => ?_⟩
        exact ih c (Node.mem_childNodes_of_slot hslot hc ..) (hchildren c hc)
      obtain ⟨inside, hinside, hspellable'⟩ := hbody
      refine ⟨_, .reference hlisted hinside, ?_⟩
      simp only [spellable_cons, spellable_append]
      exact ⟨rfl, htemplate, ⟨spellable_pointTokens hpoint.1, hspellable⟩, hspellable'⟩

end Source
end Stencil
