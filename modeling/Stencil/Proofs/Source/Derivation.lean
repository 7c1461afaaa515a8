import Stencil.Source.Grammar

/-! # Derivations

The grammar of template source as trees, with a constructor for each way to apply a rule. A tree
holds whatever the rules leave open, so it derives one list of tokens; and no two trees derive the
same list, because each choice shows in the next token. What a tree stands for comes from its parts:
of attributes with the same key the last one gives the value, in the place of the first, and of
slots with the same name the last one is kept.
-/
namespace Stencil.Source

/-! ## The parts of a node -/

/-- `WORD | STRING`, in front of the colon of an attribute. -/
inductive Key
  | word (name : String)
  | string (text : String)

structure Entry where
  key : Key
  value : String

/-- `([ (attribute (, attribute)* ,?)? ])?` -/
inductive EntryList
  | absent
  | empty
  | listed (first : Entry) (more : List Entry) (comma : Bool)

/-- `(# WORD *?)? export?`, where the word has a star or not. -/
structure Marks where
  id : Option (String × Bool)
  exported : Bool

def optionally (present : Bool) (tokens : List Token) : List Token := if present then tokens else []

def Key.token : Key → Token
  | word name => .word name
  | string text => .string text

def Key.name : Key → String
  | word name => name
  | string text => text

def Entry.tokens (e : Entry) : List Token := [e.key.token, .mark .colon, .string e.value]

def Entry.pair (e : Entry) : String × String := (e.key.name, e.value)

/-- Attributes from the second one on, up to the closing bracket. -/
def Entry.moreTokens (more : List Entry) (comma : Bool) : List Token :=
  more.flatMap (.mark .comma :: ·.tokens) ++ optionally comma [.mark .comma] ++
    [.mark .bracketClose]

namespace EntryList

def tokens : EntryList → List Token
  | absent => []
  | empty => [.mark .bracketOpen, .mark .bracketClose]
  | listed first more comma => .mark .bracketOpen :: (first.tokens ++ Entry.moreTokens more comma)

/-- Keys with their values, as they are written. -/
def pairs : EntryList → List (String × String)
  | absent | empty => []
  | listed first more _ => (first :: more).map Entry.pair

def attributes (l : EntryList) : Attributes := .ofList l.pairs

end EntryList

namespace Marks

def idTokens (id : Option (String × Bool)) : List Token :=
  match id with
  | none => []
  | some (name, star) => .mark .hash :: .word name :: optionally star [.mark .star]

def tokens (m : Marks) : List Token := idTokens m.id ++ optionally m.exported [.keyword .exported]

/-- `(# WORD)?`, as it stands in slots. -/
def named (id : Option String) : Marks := ⟨id.map (·, false), false⟩

def spec (m : Marks) : PointSpec :=
  match m.id with
  | none => ⟨none, .single, m.exported⟩
  | some (name, star) => ⟨some name, if star then .multiple else .single, m.exported⟩

end Marks

/-! ## Nodes -/

/-- What there are rules for: `node`, `node*`, `({ node* })?`, `slot*` and `({ slot* })?`. -/
inductive Symbol
  | node
  | nodes
  | body
  | slots
  | overrides

/-- The trees of the grammar. -/
inductive Derivation : Symbol → Type
  | text (text : String) : Derivation .node
  | element (tag : String) (marks : Marks) (entries : EntryList) (body : Derivation .body) :
      Derivation .node
  | reference (template : String) (marks : Marks) (entries : EntryList)
      (overrides : Derivation .overrides) : Derivation .node
  | noNodes : Derivation .nodes
  | moreNodes (first : Derivation .node) (rest : Derivation .nodes) : Derivation .nodes
  | noBody : Derivation .body
  | body (nodes : Derivation .nodes) : Derivation .body
  | noSlots : Derivation .slots
  /-- `WORD (# WORD)? attributes body` in front of more slots. -/
  | moreSlots (name : String) (id : Option String) (entries : EntryList) (body : Derivation .body)
      (rest : Derivation .slots) : Derivation .slots
  | noOverrides : Derivation .overrides
  | overrides (slots : Derivation .slots) : Derivation .overrides

/-- What the trees of a symbol stand for. Slots are listed as they are written. -/
abbrev Symbol.Value : Symbol → Type
  | node => Node
  | nodes | body => List Node
  | slots => List (String × Slot)
  | overrides => NameMap Slot

namespace Derivation

/-- The tokens that a tree derives. -/
def tokens {symbol : Symbol} : Derivation symbol → List Token
  | .text s => [.string s]
  | element tag marks entries inner => .word tag :: (marks.tokens ++ entries.tokens ++ inner.tokens)
  | reference template marks entries inner =>
    .keyword .reference :: .word template :: (marks.tokens ++ entries.tokens ++ inner.tokens)
  | noNodes | noBody | noSlots | noOverrides => []
  | moreNodes first rest => first.tokens ++ rest.tokens
  | body nodes => .mark .braceOpen :: (nodes.tokens ++ [.mark .braceClose])
  | moreSlots name id entries inner rest =>
    .word name :: ((Marks.named id).tokens ++ entries.tokens ++ inner.tokens) ++ rest.tokens
  | overrides slots => .mark .braceOpen :: (slots.tokens ++ [.mark .braceClose])

/-- What a tree stands for. -/
def value {symbol : Symbol} : Derivation symbol → symbol.Value
  | .text s => Node.text s
  | element tag marks entries inner => Node.element tag marks.spec entries.attributes inner.value
  | reference template marks entries inner =>
    Node.reference template marks.spec entries.attributes inner.value
  | noNodes | noBody | noSlots | noOverrides => []
  | moreNodes first rest => first.value :: rest.value
  | body nodes => nodes.value
  | moreSlots name id entries inner rest =>
    (name, ⟨id, entries.attributes, inner.value⟩) :: rest.value
  | overrides slots => NameMap.ofList slots.value

end Derivation

/-! ## Declarations -/

/-- `template WORD { node }`, with the bytes of the word. -/
structure Template where
  name : String
  span : Span
  root : Derivation .node

def Template.declaration (t : Template) : Declaration := ⟨t.name, t.span, t.root.value⟩

def Template.tokens (t : Template) : List Token :=
  .keyword .template :: .word t.name :: .mark .braceOpen :: (t.root.tokens ++ [.mark .braceClose])

/-- The trees derive the lexemes, and the spans in them are those of their names. -/
inductive Derives : List Template → List Lexeme → Prop
  | nil : Derives [] []
  | cons {t : Template} {more : List Template} {keyword opening closing : Span}
      {inner rest : List Lexeme} (derived : inner.map (·.token) = t.root.tokens)
      (later : Derives more rest) :
      Derives (t :: more)
        (⟨.keyword .template, keyword⟩ :: ⟨.word t.name, t.span⟩ :: ⟨.mark .braceOpen, opening⟩ ::
          (inner ++ ⟨.mark .braceClose, closing⟩ :: rest))

/-! ## One tree for each list of tokens

Two trees are compared together with what goes on behind them. That must not look like more of what
is derived, so it matters which token it starts with.
-/

/-- How far a head is behind a token: the marks, the attributes and the braces come in this order,
and then something that belongs to the head no more. -/
def Token.rank : Token → Nat
  | .mark .bracketOpen => 1
  | .mark .braceOpen => 2
  | .word _ | .string _ | .keyword .reference | .mark .braceClose => 3
  | _ => 0

def Beyond (n : Nat) (r : List Token) : Prop := ∀ t ∈ r.head?, n < t.rank

variable {t : Token} {n : Nat} {r r' : List Token}

theorem beyond_cons (h : n < t.rank) (r : List Token) : Beyond n (t :: r) := by
  intro t' ht'
  cases ht'
  exact h

theorem Beyond.mono {m : Nat} (h : Beyond n r) (hm : m ≤ n) : Beyond m r :=
  fun t ht => Nat.lt_of_le_of_lt hm (h t ht)

theorem Beyond.head?_ne (h : Beyond n r) (ht : t.rank ≤ n) : r.head? ≠ some t :=
  fun hhead => Nat.not_lt_of_le ht (h t hhead)

theorem optionally_inj {b b' : Bool} (hr : r.head? ≠ some t) (hr' : r'.head? ≠ some t)
    (h : optionally b [t] ++ r = optionally b' [t] ++ r') : b = b' ∧ r = r' := by
  cases b <;> cases b'
  · exact ⟨rfl, h⟩
  · exact absurd (congrArg List.head? h) hr
  · exact absurd (congrArg List.head? h).symm hr'
  · exact ⟨rfl, (List.cons.inj h).2⟩

theorem head?_optionally_ne {t' : Token} (ht : t ≠ t') (hr : r.head? ≠ some t') (b : Bool) :
    (optionally b [t] ++ r).head? ≠ some t' := by
  cases b with
  | false => exact hr
  | true => exact fun h => ht (Option.some.inj h)

theorem Marks.idTokens_inj {id id' : Option (String × Bool)}
    (hash : r.head? ≠ some (.mark .hash)) (star : r.head? ≠ some (.mark .star))
    (hash' : r'.head? ≠ some (.mark .hash)) (star' : r'.head? ≠ some (.mark .star))
    (h : idTokens id ++ r = idTokens id' ++ r') : id = id' ∧ r = r' := by
  cases id with
  | none =>
    cases id' with
    | none => exact ⟨rfl, h⟩
    | some => exact absurd (congrArg List.head? h) hash
  | some id =>
    cases id' with
    | none => exact absurd (congrArg List.head? h).symm hash'
    | some id' =>
      obtain ⟨name, repeated⟩ := id
      obtain ⟨name', repeated'⟩ := id'
      obtain ⟨hname, hrest⟩ := List.cons.inj (List.cons.inj h).2
      cases hname
      obtain ⟨rfl, rfl⟩ := optionally_inj star star' hrest
      exact ⟨rfl, rfl⟩

theorem Marks.tokens_inj {m m' : Marks} (hr : Beyond 0 r) (hr' : Beyond 0 r')
    (h : m.tokens ++ r = m'.tokens ++ r') : m = m' ∧ r = r' := by
  obtain ⟨id, exported⟩ := m
  obtain ⟨id', exported'⟩ := m'
  simp only [tokens, List.append_assoc] at h
  have behind {r : List Token} (hr : Beyond 0 r) (b : Bool) {t : Token} (ht : t.rank ≤ 0)
      (hne : .keyword .exported ≠ t) : (optionally b [.keyword .exported] ++ r).head? ≠ some t :=
    head?_optionally_ne hne (hr.head?_ne ht) b
  obtain ⟨rfl, hexported⟩ := idTokens_inj (behind hr _ (by decide) nofun)
    (behind hr _ (by decide) nofun) (behind hr' _ (by decide) nofun)
    (behind hr' _ (by decide) nofun) h
  obtain ⟨rfl, rfl⟩ :=
    optionally_inj (hr.head?_ne (by decide)) (hr'.head?_ne (by decide)) hexported
  exact ⟨rfl, rfl⟩

theorem Entry.tokens_inj {e e' : Entry} (h : e.tokens ++ r = e'.tokens ++ r') :
    e = e' ∧ r = r' := by
  obtain ⟨key, value⟩ := e
  obtain ⟨key', value'⟩ := e'
  obtain ⟨hkey, hrest⟩ := List.cons.inj h
  obtain ⟨hvalue, rfl⟩ := List.cons.inj (List.cons.inj hrest).2
  cases hvalue
  cases key <;> cases key' <;> cases hkey <;> exact ⟨rfl, rfl⟩

theorem Entry.moreTokens_nil (comma : Bool) :
    moreTokens [] comma = optionally comma [.mark .comma] ++ [.mark .bracketClose] := rfl

theorem Entry.moreTokens_cons (e : Entry) (more : List Entry) (comma : Bool) :
    moreTokens (e :: more) comma = .mark .comma :: (e.tokens ++ moreTokens more comma) := by
  simp [moreTokens]

theorem Entry.moreTokens_nil_ne {e : Entry} {more : List Entry} {comma comma' : Bool} :
    moreTokens [] comma ++ r ≠ moreTokens (e :: more) comma' ++ r' := by
  intro h
  rw [moreTokens_nil, moreTokens_cons] at h
  cases comma with
  | false => cases h
  | true =>
    obtain ⟨key, value⟩ := e
    cases key <;> cases h

theorem Entry.moreTokens_inj {more more' : List Entry} {comma comma' : Bool}
    (h : moreTokens more comma ++ r = moreTokens more' comma' ++ r') :
    more = more' ∧ comma = comma' ∧ r = r' := by
  induction more generalizing more' with
  | nil =>
    cases more' with
    | nil =>
      simp only [moreTokens_nil, List.append_assoc] at h
      obtain ⟨rfl, hrest⟩ := optionally_inj (by simp) (by simp) h
      exact ⟨rfl, rfl, (List.cons.inj hrest).2⟩
    | cons => exact absurd h moreTokens_nil_ne
  | cons e more ih =>
    cases more' with
    | nil => exact absurd h.symm moreTokens_nil_ne
    | cons e' more' =>
      simp only [moreTokens_cons, List.cons_append, List.append_assoc] at h
      obtain ⟨rfl, hrest⟩ := tokens_inj (List.cons.inj h).2
      obtain ⟨rfl, rfl, rfl⟩ := ih hrest
      exact ⟨rfl, rfl, rfl⟩

theorem EntryList.tokens_inj {l l' : EntryList} (hr : r.head? ≠ some (.mark .bracketOpen))
    (hr' : r'.head? ≠ some (.mark .bracketOpen)) (h : l.tokens ++ r = l'.tokens ++ r') :
    l = l' ∧ r = r' := by
  have key (e : Entry) {r r' : List Token} :
      .mark .bracketClose :: r ≠ e.tokens ++ r' := by
    obtain ⟨key, value⟩ := e
    cases key <;> nofun
  cases l with
  | absent =>
    cases l' with
    | absent => exact ⟨rfl, h⟩
    | empty | listed => exact absurd (congrArg List.head? h) hr
  | empty =>
    cases l' with
    | absent => exact absurd (congrArg List.head? h).symm hr'
    | empty => exact ⟨rfl, (List.cons.inj (List.cons.inj h).2).2⟩
    | listed first more comma =>
      simp only [tokens, List.cons_append, List.append_assoc] at h
      exact absurd (List.cons.inj h).2 (key first)
  | listed first more comma =>
    cases l' with
    | absent => exact absurd (congrArg List.head? h).symm hr'
    | empty =>
      simp only [tokens, List.cons_append, List.append_assoc] at h
      exact absurd (List.cons.inj h).2.symm (key first)
    | listed first' more' comma' =>
      simp only [tokens, List.cons_append, List.append_assoc] at h
      obtain ⟨rfl, hmore⟩ := Entry.tokens_inj (List.cons.inj h).2
      obtain ⟨rfl, rfl, rfl⟩ := Entry.moreTokens_inj hmore
      exact ⟨rfl, rfl⟩

theorem EntryList.beyond (l : EntryList) (hr : Beyond 1 r) : Beyond 0 (l.tokens ++ r) := by
  cases l with
  | absent => exact hr.mono (Nat.zero_le 1)
  | empty | listed => exact beyond_cons (by decide) _

theorem head_inj {m m' : Marks} {l l' : EntryList} (hr : Beyond 1 r) (hr' : Beyond 1 r')
    (h : m.tokens ++ l.tokens ++ r = m'.tokens ++ l'.tokens ++ r') :
    m = m' ∧ l = l' ∧ r = r' := by
  rw [List.append_assoc, List.append_assoc] at h
  obtain ⟨rfl, hlist⟩ := Marks.tokens_inj (l.beyond hr) (l'.beyond hr') h
  obtain ⟨rfl, rfl⟩ :=
    EntryList.tokens_inj (hr.head?_ne (by decide)) (hr'.head?_ne (by decide)) hlist
  exact ⟨rfl, rfl, rfl⟩

theorem Marks.named_inj {id id' : Option String} (h : named id = named id') : id = id' := by
  have hid : id.map (·, false) = id'.map (·, false) := congrArg Marks.id h
  cases id <;> cases id' <;> cases hid <;> rfl

def Symbol.Follows : Symbol → List Token → Prop
  | node | body | overrides => Beyond 2
  | nodes | slots => fun r => r.head? = some (.mark .braceClose)

namespace Derivation
variable {symbol : Symbol}

theorem element_append (tag : String) (marks : Marks) (entries : EntryList)
    (inner : Derivation .body) (r : List Token) : (element tag marks entries inner).tokens ++ r =
      .word tag :: (marks.tokens ++ entries.tokens ++ (inner.tokens ++ r)) := by
  simp [tokens]

theorem reference_append (template : String) (marks : Marks) (entries : EntryList)
    (inner : Derivation .overrides) (r : List Token) :
    (reference template marks entries inner).tokens ++ r = .keyword .reference :: .word template ::
      (marks.tokens ++ entries.tokens ++ (inner.tokens ++ r)) := by
  simp [tokens]

theorem moreNodes_append (first : Derivation .node) (rest : Derivation .nodes) (r : List Token) :
    (moreNodes first rest).tokens ++ r = first.tokens ++ (rest.tokens ++ r) :=
  List.append_assoc ..

theorem body_append (nodes : Derivation .nodes) (r : List Token) :
    (body nodes).tokens ++ r = .mark .braceOpen :: (nodes.tokens ++ .mark .braceClose :: r) := by
  simp [tokens]

theorem moreSlots_append (name : String) (id : Option String) (entries : EntryList)
    (inner : Derivation .body) (rest : Derivation .slots) (r : List Token) :
    (moreSlots name id entries inner rest).tokens ++ r =
      .word name :: ((Marks.named id).tokens ++ entries.tokens ++
        (inner.tokens ++ (rest.tokens ++ r))) := by
  simp [tokens]

theorem overrides_append (slots : Derivation .slots) (r : List Token) :
    (overrides slots).tokens ++ r =
      .mark .braceOpen :: (slots.tokens ++ .mark .braceClose :: r) := by
  simp [tokens]

theorem exists_node_cons (d : Derivation .node) :
    ∃ t ts, d.tokens = t :: ts ∧ 2 < t.rank ∧ t ≠ .mark .braceClose := by
  cases d <;> exact ⟨_, _, rfl, Nat.lt_succ_self 2, nofun⟩

theorem beyond_nodes (d : Derivation .nodes) (hr : r.head? = some (.mark .braceClose)) :
    Beyond 2 (d.tokens ++ r) := by
  cases d with
  | noNodes =>
    obtain ⟨ts, rfl⟩ := List.head?_eq_some_iff.1 hr
    exact beyond_cons (by decide) ts
  | moreNodes first rest =>
    obtain ⟨t, ts, hfirst, ht, _⟩ := first.exists_node_cons
    rw [tokens, hfirst]
    exact beyond_cons ht _

theorem beyond_slots (d : Derivation .slots) (hr : r.head? = some (.mark .braceClose)) :
    Beyond 2 (d.tokens ++ r) := by
  cases d with
  | noSlots =>
    obtain ⟨ts, rfl⟩ := List.head?_eq_some_iff.1 hr
    exact beyond_cons (by decide) ts
  | moreSlots => exact beyond_cons (Nat.lt_succ_self 2) _

theorem beyond_body (d : Derivation .body) (hr : Beyond 2 r) : Beyond 1 (d.tokens ++ r) := by
  cases d with
  | noBody => exact hr.mono (by decide)
  | body => exact beyond_cons (by decide) _

theorem beyond_overrides (d : Derivation .overrides) (hr : Beyond 2 r) :
    Beyond 1 (d.tokens ++ r) := by
  cases d with
  | noOverrides => exact hr.mono (by decide)
  | overrides => exact beyond_cons (by decide) _

theorem ne_node_append (d : Derivation .node) (hr : r.head? = some (.mark .braceClose)) :
    r ≠ d.tokens ++ r' := by
  rintro rfl
  obtain ⟨t, ts, hd, _, ht⟩ := d.exists_node_cons
  rw [hd] at hr
  exact ht (Option.some.inj hr)

/-- **The grammar is unambiguous.** Trees that derive the same tokens are the same, whatever may
follow them. -/
theorem tokens_inj {d d' : Derivation symbol} (hr : symbol.Follows r) (hr' : symbol.Follows r')
    (h : d.tokens ++ r = d'.tokens ++ r') : d = d' ∧ r = r' := by
  have closing (r : List Token) :
      (Token.mark .braceClose :: r).head? = some (.mark .braceClose) := rfl
  -- the induction is on the first tree, whatever follows; a list and its end are told apart by
  -- what follows, as no item starts with a closing brace
  induction d generalizing r r' with
  | text s =>
    cases d' with
    | text s' =>
      cases h
      exact ⟨rfl, rfl⟩
    | element | reference => cases h
  | element tag marks entries inner ih =>
    cases d' with
    | element tag' marks' entries' inner' =>
      rw [element_append, element_append] at h
      obtain ⟨htag, hhead⟩ := List.cons.inj h
      cases htag
      obtain ⟨rfl, rfl, hinner⟩ := head_inj (inner.beyond_body hr) (inner'.beyond_body hr') hhead
      obtain ⟨rfl, rfl⟩ := ih hr hr' hinner
      exact ⟨rfl, rfl⟩
    | text | reference => cases h
  | reference template marks entries inner ih =>
    cases d' with
    | reference template' marks' entries' inner' =>
      rw [reference_append, reference_append] at h
      obtain ⟨htemplate, hhead⟩ := List.cons.inj (List.cons.inj h).2
      cases htemplate
      obtain ⟨rfl, rfl, hinner⟩ :=
        head_inj (inner.beyond_overrides hr) (inner'.beyond_overrides hr') hhead
      obtain ⟨rfl, rfl⟩ := ih hr hr' hinner
      exact ⟨rfl, rfl⟩
    | text | element => cases h
  | noNodes =>
    cases d' with
    | noNodes => exact ⟨rfl, h⟩
    | moreNodes first rest =>
      rw [moreNodes_append] at h
      exact absurd h (first.ne_node_append hr)
  | moreNodes first rest ihfirst ihrest =>
    cases d' with
    | noNodes =>
      rw [moreNodes_append] at h
      exact absurd h.symm (first.ne_node_append hr')
    | moreNodes first' rest' =>
      rw [moreNodes_append, moreNodes_append] at h
      obtain ⟨rfl, hrest⟩ := ihfirst (rest.beyond_nodes hr) (rest'.beyond_nodes hr') h
      obtain ⟨rfl, rfl⟩ := ihrest hr hr' hrest
      exact ⟨rfl, rfl⟩
  | noBody =>
    cases d' with
    | noBody => exact ⟨rfl, h⟩
    | body => exact absurd (congrArg List.head? h) (Beyond.head?_ne hr (by decide))
  | body nodes ih =>
    cases d' with
    | noBody => exact absurd (congrArg List.head? h).symm (Beyond.head?_ne hr' (by decide))
    | body nodes' =>
      rw [body_append, body_append] at h
      obtain ⟨rfl, hclose⟩ := ih (closing r) (closing r') (List.cons.inj h).2
      exact ⟨rfl, (List.cons.inj hclose).2⟩
  | noSlots =>
    cases d' with
    | noSlots => exact ⟨rfl, h⟩
    | moreSlots => cases hr.symm.trans (congrArg List.head? h)
  | moreSlots name id entries inner rest ihinner ihrest =>
    cases d' with
    | noSlots => cases hr'.symm.trans (congrArg List.head? h).symm
    | moreSlots name' id' entries' inner' rest' =>
      rw [moreSlots_append, moreSlots_append] at h
      obtain ⟨hname, hhead⟩ := List.cons.inj h
      cases hname
      have hrest := rest.beyond_slots hr
      have hrest' := rest'.beyond_slots hr'
      obtain ⟨hid, rfl, hinner⟩ :=
        head_inj (inner.beyond_body hrest) (inner'.beyond_body hrest') hhead
      obtain rfl := Marks.named_inj hid
      obtain ⟨rfl, hlater⟩ := ihinner hrest hrest' hinner
      obtain ⟨rfl, rfl⟩ := ihrest hr hr' hlater
      exact ⟨rfl, rfl⟩
  | noOverrides =>
    cases d' with
    | noOverrides => exact ⟨rfl, h⟩
    | overrides => exact absurd (congrArg List.head? h) (Beyond.head?_ne hr (by decide))
  | overrides slots ih =>
    cases d' with
    | noOverrides => exact absurd (congrArg List.head? h).symm (Beyond.head?_ne hr' (by decide))
    | overrides slots' =>
      rw [overrides_append, overrides_append] at h
      obtain ⟨rfl, hclose⟩ := ih (closing r) (closing r') (List.cons.inj h).2
      exact ⟨rfl, (List.cons.inj hclose).2⟩

end Derivation

/-- One list of trees for each list of lexemes. -/
theorem Derives.unique {ts ts' : List Template} {lexemes : List Lexeme} (h : Derives ts lexemes)
    (h' : Derives ts' lexemes) : ts = ts' := by
  induction h generalizing ts' with
  | nil =>
    cases h'
    rfl
  | @cons t more keyword opening closing inner rest derived _ ih =>
    generalize hlexemes : (_ :: _ :: _ :: (inner ++ _ :: rest) : List Lexeme) = lexemes at h'
    cases h' with
    | nil => cases hlexemes
    | @cons t' more' keyword' opening' closing' inner' rest' derived' later' =>
      obtain ⟨name, span, root⟩ := t
      obtain ⟨name', span', root'⟩ := t'
      simp only [List.cons.injEq, Lexeme.mk.injEq, Token.word.injEq, true_and] at hlexemes
      obtain ⟨_, ⟨rfl, rfl⟩, _, hinner⟩ := hlexemes
      have htokens := congrArg (List.map (·.token)) hinner
      simp only [List.map_append, List.map_cons, derived, derived'] at htokens
      have closing (r : List Token) : Symbol.node.Follows (.mark .braceClose :: r) :=
        beyond_cons (by decide) r
      obtain ⟨rfl, _⟩ := Derivation.tokens_inj (closing _) (closing _) htokens
      have hlength := congrArg List.length (derived.trans derived'.symm)
      rw [List.length_map, List.length_map] at hlength
      obtain ⟨_, hrest⟩ := List.append_inj hinner hlength
      obtain rfl := (List.cons.inj hrest).2
      rw [ih later']

end Stencil.Source
