import Stencil.Proofs.Source.Reading

/-! # What has been read

A state stands for the tokens that led to it. Each open head and each open pair of braces is a part
of a tree, and what a state holds is the value of that part. Every token that is not refused adds
itself to what has been read, so where a source may end, all of it is derived by trees.
-/
namespace Stencil.Source

/-! ## Lists of trees -/

/-- A slot as it is written. -/
structure Override where
  name : String
  id : Option String
  entries : EntryList
  body : Derivation .body

namespace Override

def tokens (o : Override) : List Token :=
  .word o.name :: ((Marks.named o.id).tokens ++ o.entries.tokens ++ o.body.tokens)

def value (o : Override) : String × Slot := (o.name, ⟨o.id, o.entries.attributes, o.body.value⟩)

end Override

namespace Derivation

def ofNodes : List (Derivation .node) → Derivation .nodes
  | [] => noNodes
  | d :: ds => moreNodes d (ofNodes ds)

theorem tokens_ofNodes (ds : List (Derivation .node)) :
    (ofNodes ds).tokens = ds.flatMap tokens := by
  induction ds with
  | nil => rfl
  | cons d ds ih => rw [ofNodes, tokens, ih, List.flatMap_cons]

theorem value_ofNodes (ds : List (Derivation .node)) : (ofNodes ds).value = ds.map value := by
  induction ds with
  | nil => rfl
  | cons d ds ih => rw [ofNodes, value, ih, List.map_cons]

def ofSlots : List Override → Derivation .slots
  | [] => noSlots
  | o :: os => moreSlots o.name o.id o.entries o.body (ofSlots os)

theorem tokens_ofSlots (os : List Override) : (ofSlots os).tokens = os.flatMap (·.tokens) := by
  induction os with
  | nil => rfl
  | cons o os ih => rw [ofSlots, tokens, ih, List.flatMap_cons, Override.tokens]

theorem value_ofSlots (os : List Override) : (ofSlots os).value = os.map (·.value) := by
  induction os with
  | nil => rfl
  | cons o os ih => rw [ofSlots, value, ih, List.map_cons, Override.value]

end Derivation

/-! ## Heads -/

/-- What introduces a construct. -/
def Subject.tokens : Subject → List Token
  | element tag => [.word tag]
  | reference template => [.keyword .reference, .word template]
  | slot name => [.word name]

def Entry.leading (es : List Entry) : List Token :=
  .mark .bracketOpen :: es.flatMap (·.tokens ++ [.mark .comma])

/-- The tokens behind the name of a head, as far as it has been read. -/
inductive HeadTokens (subject : Subject) : Head → Progress → List Token → Prop
  | name : HeadTokens subject ⟨subject, .anonymous, .empty⟩ .name []
  | hash : HeadTokens subject ⟨subject, .anonymous, .empty⟩ .hash [.mark .hash]
  | id (id : String) : HeadTokens subject ⟨subject, ⟨some id, .single, false⟩, .empty⟩ .id
      [.mark .hash, .word id]
  | star (id : String) (suit : (Marks.mk (some (id, true)) false).Suit subject) :
      HeadTokens subject ⟨subject, ⟨some id, .multiple, false⟩, .empty⟩ .star
        [.mark .hash, .word id, .mark .star]
  | exported (id : Option (String × Bool)) (suit : (Marks.mk id true).Suit subject) :
      HeadTokens subject ⟨subject, (Marks.mk id true).spec, .empty⟩ .exported
        (Marks.mk id true).tokens
  | list (m : Marks) (suit : m.Suit subject) (es : List Entry) :
      HeadTokens subject ⟨subject, m.spec, .ofList (es.map Entry.pair)⟩ .list
        (m.tokens ++ Entry.leading es)
  | key (m : Marks) (suit : m.Suit subject) (es : List Entry) (k : Key) :
      HeadTokens subject ⟨subject, m.spec, .ofList (es.map Entry.pair)⟩ (.key k.name)
        (m.tokens ++ Entry.leading es ++ [k.token])
  | colon (m : Marks) (suit : m.Suit subject) (es : List Entry) (k : Key) :
      HeadTokens subject ⟨subject, m.spec, .ofList (es.map Entry.pair)⟩ (.colon k.name)
        (m.tokens ++ Entry.leading es ++ [k.token, .mark .colon])
  | value (m : Marks) (suit : m.Suit subject) (es : List Entry) (e : Entry) :
      HeadTokens subject ⟨subject, m.spec, .ofList ((es ++ [e]).map Entry.pair)⟩ .value
        (m.tokens ++ Entry.leading es ++ e.tokens)
  | attributes (m : Marks) (suit : m.Suit subject) (l : EntryList) :
      HeadTokens subject ⟨subject, m.spec, l.attributes⟩ .attributes (m.tokens ++ l.tokens)

variable {stack : List Frame} {focus : Focus} {head head' : Head} {progress progress' : Progress}
  {subject : Subject} {token : Token} {outer tokens : List Token}

theorem HeadTokens.exists_marks (h : HeadTokens subject head progress tokens)
    (hopen : progress.isOpen) :
    ∃ m : Marks, m.Suit subject ∧ head = ⟨subject, m.spec, .empty⟩ ∧ tokens = m.tokens := by
  have hnamed (id : Option String) : (Marks.named id).Suit subject := by
    cases subject <;> first | exact ⟨id, rfl⟩ | exact trivial
  cases h with
  | name => exact ⟨.named none, hnamed none, rfl, rfl⟩
  | id id => exact ⟨.named (some id), hnamed (some id), rfl, rfl⟩
  | star id suit => exact ⟨⟨some (id, true), false⟩, suit, rfl, rfl⟩
  | exported id suit => exact ⟨⟨id, true⟩, suit, rfl, rfl⟩
  | hash | list | key | colon | value | attributes => cases hopen

theorem HeadTokens.ended (h : HeadTokens subject head progress tokens)
    (hmay : Head.mayEnd progress) :
    ∃ (m : Marks) (l : EntryList), m.Suit subject ∧ head = ⟨subject, m.spec, l.attributes⟩ ∧
      tokens = m.tokens ++ l.tokens := by
  by_cases hopen : progress.isOpen
  · obtain ⟨m, suit, rfl, rfl⟩ := h.exists_marks hopen
    exact ⟨m, .absent, suit, rfl, (List.append_nil _).symm⟩
  · cases h with
    | attributes m suit l => exact ⟨m, l, suit, rfl, rfl⟩
    | name | id | star | exported => exact absurd rfl hopen
    | hash | list | key | colon | value => cases hmay

theorem comma_cons_leading (es : List Entry) :
    .mark .comma :: es.flatMap (·.tokens ++ [.mark .comma]) =
      es.flatMap (.mark .comma :: ·.tokens) ++ [.mark .comma] := by
  induction es with
  | nil => rfl
  | cons e es ih =>
    rw [List.flatMap_cons, List.flatMap_cons, List.append_assoc, List.append_assoc, ← ih]
    rfl

theorem leading_cons (e : Entry) (es : List Entry) :
    Entry.leading (e :: es) = .mark .bracketOpen ::
      (e.tokens ++ (es.flatMap (.mark .comma :: ·.tokens) ++ [.mark .comma])) := by
  rw [Entry.leading, List.flatMap_cons, List.append_assoc, ← comma_cons_leading]
  rfl

theorem exists_entryList_comma (es : List Entry) :
    ∃ l : EntryList, l.pairs = es.map Entry.pair ∧
      l.tokens = Entry.leading es ++ [.mark .bracketClose] := by
  cases es with
  | nil => exact ⟨.empty, rfl, rfl⟩
  | cons e es =>
    refine ⟨.listed e es true, rfl, ?_⟩
    simp [leading_cons, EntryList.tokens, Entry.moreTokens, optionally]

theorem exists_entryList_value (es : List Entry) (e : Entry) :
    ∃ l : EntryList, l.pairs = (es ++ [e]).map Entry.pair ∧
      l.tokens = Entry.leading es ++ e.tokens ++ [.mark .bracketClose] := by
  cases es with
  | nil => exact ⟨.listed e [] false, rfl, rfl⟩
  | cons e' es =>
    refine ⟨.listed e' (es ++ [e]) false, rfl, ?_⟩
    simp [leading_cons, EntryList.tokens, Entry.moreTokens, optionally]

theorem HeadTokens.listed (h : HeadTokens subject head progress tokens)
    (hstep : head.listed progress token = some (head', progress')) :
    HeadTokens subject head' progress' (tokens ++ [token]) := by
  cases h with
  | name | hash | id | star | exported | attributes => cases hstep
  | list m suit es =>
    cases token with
    | word name =>
      cases hstep
      exact .key m suit es (.word name)
    | string text =>
      cases hstep
      exact .key m suit es (.string text)
    | mark mark =>
      cases mark with
      | bracketClose =>
        cases hstep
        obtain ⟨l, hpairs, htokens⟩ := exists_entryList_comma es
        rw [← hpairs, List.append_assoc, ← htokens]
        exact .attributes m suit l
      | _ => cases hstep
    | keyword => cases hstep
  | key m suit es k =>
    cases token with
    | mark mark =>
      cases mark with
      | colon =>
        cases hstep
        rw [List.append_assoc]
        exact .colon m suit es k
      | _ => cases hstep
    | _ => cases hstep
  | colon m suit es k =>
    cases token with
    | string text =>
      cases hstep
      have hvalue := HeadTokens.value m suit es ⟨k, text⟩
      rw [List.map_append] at hvalue
      rw [List.append_assoc]
      exact (Attributes.ofList_concat (es.map Entry.pair) (k.name, text)) ▸ hvalue
    | _ => cases hstep
  | value m suit es e =>
    cases token with
    | mark mark =>
      cases mark with
      | comma =>
        cases hstep
        have hlist := HeadTokens.list m suit (es ++ [e])
        rw [Entry.leading, List.flatMap_append] at hlist
        simpa [Entry.leading] using hlist
      | bracketClose =>
        cases hstep
        obtain ⟨l, hpairs, htokens⟩ := exists_entryList_value es e
        rw [← hpairs, List.append_assoc m.tokens, List.append_assoc m.tokens, ← htokens]
        exact .attributes m suit l
      | _ => cases hstep
    | _ => cases hstep

theorem suit_of_not_isSlot {point : PointSpec} {attributes : Attributes}
    (h : ¬ Head.isSlot ⟨subject, point, attributes⟩) (m : Marks) : m.Suit subject := by
  cases subject with
  | slot => exact absurd rfl h
  | element | reference => trivial

/-- A token that a head takes is one more token of it. -/
theorem HeadTokens.step (h : HeadTokens subject head progress tokens)
    (hstep : head.step progress token = some (head', progress')) :
    HeadTokens subject head' progress' (tokens ++ [token]) := by
  have hbracket (hopen : progress.isOpen) :
      HeadTokens subject head .list (tokens ++ [.mark .bracketOpen]) := by
    obtain ⟨m, suit, rfl, rfl⟩ := h.exists_marks hopen
    exact .list m suit []
  -- one case for each arm of `Head.step`: the marks, the bracket, and what stands inside it
  unfold Head.step at hstep
  split at hstep
  · cases h
    cases hstep
    exact .hash
  · cases h
    cases hstep
    exact .id _
  · split at hstep
    · cases hstep
    · next hslot =>
      cases h
      cases hstep
      exact .star _ (suit_of_not_isSlot hslot _)
  · split at hstep
    · cases hstep
    · next hslot =>
      cases h
      cases hstep
      exact .exported none (suit_of_not_isSlot hslot _)
  · split at hstep
    · cases hstep
    · next hslot =>
      cases h
      cases hstep
      exact .exported (some (_, false)) (suit_of_not_isSlot hslot _)
  · split at hstep
    · cases hstep
    · next hslot =>
      cases h
      cases hstep
      exact .exported (some (_, true)) (suit_of_not_isSlot hslot _)
  · cases hstep
    exact hbracket rfl
  · cases hstep
    exact hbracket rfl
  · cases hstep
    exact hbracket rfl
  · cases hstep
    exact hbracket rfl
  · exact h.listed hstep

/-! ## Braces -/

/-- Slots stand directly inside the braces of a reference, and nothing else does. -/
def Subject.Fits : Subject → List Frame → Prop
  | .slot _, stack => takesNodes stack = false
  | _, stack => takesNodes stack = true

/-- What stands inside the braces behind a head. -/
inductive Inner : Subject → List Node → NameMap Slot → List Token → Prop
  | body {subject : Subject} (h : ∀ template, subject ≠ .reference template)
      (d : Derivation .body) : Inner subject d.value [] d.tokens
  | overrides (template : String) (d : Derivation .overrides) :
      Inner (.reference template) [] d.value d.tokens

/-- The tokens up to a place inside the innermost braces where no head is unfinished. -/
inductive StackTokens : List Frame → List Token → Prop
  | nil : StackTokens [] []
  | children {stack : List Frame} {outer : List Token} {subject : Subject} {m : Marks}
      {l : EntryList} (h : StackTokens stack outer) (fits : subject.Fits stack)
      (suit : m.Suit subject) (hsubject : ∀ template, subject ≠ .reference template)
      (ds : List (Derivation .node)) :
      StackTokens
        (.children ⟨subject, m.spec, l.attributes⟩ (ds.map Derivation.value).reverse :: stack)
        (outer ++ (subject.tokens ++ (m.tokens ++ l.tokens) ++
          .mark .braceOpen :: ds.flatMap Derivation.tokens))
  | slots {stack : List Frame} {outer : List Token} {m : Marks} {l : EntryList}
      (template : String) (h : StackTokens stack outer) (fits : takesNodes stack = true)
      (os : List Override) :
      StackTokens
        (.slots ⟨.reference template, m.spec, l.attributes⟩ (.ofList (os.map Override.value)) ::
          stack)
        (outer ++ (Subject.tokens (.reference template) ++ (m.tokens ++ l.tokens) ++
          .mark .braceOpen :: os.flatMap Override.tokens))

/-- The tokens inside a declaration, behind the brace that opens it. -/
inductive FocusTokens : List Frame → Focus → List Token → Prop
  | item {stack : List Frame} {tokens : List Token} (h : StackTokens stack tokens) :
      FocusTokens stack .item tokens
  | reference {stack : List Frame} {tokens : List Token} (h : StackTokens stack tokens)
      (fits : takesNodes stack = true) :
      FocusTokens stack .reference (tokens ++ [.keyword .reference])
  | head {stack : List Frame} {outer tokens : List Token} {subject : Subject} {head : Head}
      {progress : Progress} (h : StackTokens stack outer) (fits : subject.Fits stack)
      (own : HeadTokens subject head progress tokens) :
      FocusTokens stack (.head head progress) (outer ++ (subject.tokens ++ tokens))
  | close (d : Derivation .node) : FocusTokens [] (.close d.value) d.tokens

theorem focusTokens_addNode (h : StackTokens stack outer) (fits : takesNodes stack = true)
    (d : Derivation .node) :
    FocusTokens (addNode d.value stack).1 (addNode d.value stack).2 (outer ++ d.tokens) := by
  cases h with
  | nil => exact .close d
  | slots => cases fits
  | @children stack outer subject m l hstack hfits suit hsubject ds =>
    have hmore := StackTokens.children (l := l) hstack hfits suit hsubject (ds ++ [d])
    rw [List.map_append, List.reverse_append, List.flatMap_append] at hmore
    simp only [List.flatMap_singleton, ← List.cons_append, ← List.append_assoc] at hmore ⊢
    exact .item hmore

/-- The braces of a head complete it, and so does their absence. -/
theorem focusTokens_finish {m : Marks} {l : EntryList} {children : List Node}
    {slots : NameMap Slot} (subject : Subject) (h : StackTokens stack outer)
    (fits : subject.Fits stack) (suit : m.Suit subject)
    (inner : Inner subject children slots tokens) :
    FocusTokens (finish ⟨subject, m.spec, l.attributes⟩ children slots stack).1
      (finish ⟨subject, m.spec, l.attributes⟩ children slots stack).2
      (outer ++ (subject.tokens ++ (m.tokens ++ l.tokens) ++ tokens)) := by
  cases inner with
  | overrides template d => exact focusTokens_addNode h fits (.reference template m l d)
  | body hsubject d =>
    cases subject with
    | element tag => exact focusTokens_addNode h fits (.element tag m l d)
    | reference template => exact absurd rfl (hsubject template)
    | slot name =>
      obtain ⟨id, rfl⟩ := suit
      cases h with
      | nil | children => cases fits
      | @slots stack outer m' l' template hstack hfits os =>
        have hid : (Marks.named id).spec.id = id := by cases id <;> rfl
        have htokens : (Override.mk name id l d).tokens =
          (Subject.slot name).tokens ++ ((Marks.named id).tokens ++ l.tokens) ++ d.tokens := rfl
        have hmore := StackTokens.slots (m := m') (l := l') template hstack hfits
          (os ++ [⟨name, id, l, d⟩])
        rw [List.map_append, List.flatMap_append, NameMap.ofList, List.foldl_append,
          List.flatMap_singleton, htokens] at hmore
        simp only [finish, hid, ← List.cons_append, ← List.append_assoc] at hmore ⊢
        exact .item hmore

theorem FocusTokens.settled (h : FocusTokens stack focus tokens) :
    FocusTokens (settled stack focus).1 (settled stack focus).2 tokens := by
  cases h with
  | item h => exact .item h
  | reference h fits => exact .reference h fits
  | close d => exact .close d
  | @head stack outer tokens subject head progress h fits own =>
    rw [Source.settled]
    split
    · next hmay =>
      obtain ⟨m, l, suit, rfl, rfl⟩ := own.ended hmay
      have inner : Inner subject [] [] [] := by
        cases subject with
        | reference template => exact .overrides template .noOverrides
        | element tag => exact .body (by simp) .noBody
        | slot name => exact .body (by simp) .noBody
      simpa only [List.append_nil] using focusTokens_finish subject h fits suit inner
    · exact .head h fits own

theorem focusTokens_start (subject : Subject) (h : StackTokens stack outer)
    (fits : subject.Fits stack) :
    FocusTokens stack (.head ⟨subject, .anonymous, .empty⟩ .name) (outer ++ subject.tokens) := by
  simpa only [List.append_nil] using FocusTokens.head h fits .name

/-- The next item, or the end of the braces. -/
theorem focusTokens_itemStep {place : List Frame × Focus} (h : StackTokens stack tokens)
    (hstep : itemStep stack token = some place) :
    FocusTokens place.1 place.2 (tokens ++ [token]) := by
  have takes (hslots : ∀ head read rest, stack = .slots head read :: rest → False) :
      takesNodes stack = true := by
    rcases stack with _ | ⟨_ | ⟨head, read⟩, rest⟩
    · rfl
    · rfl
    · exact (hslots head read rest rfl).elim
  unfold itemStep at hstep
  split at hstep
  · cases h with
    | @slots stack outer m l template h fits os =>
      cases hstep
      have hall := focusTokens_finish (.reference template) h fits trivial
        (.overrides template (.overrides (.ofSlots os))) (m := m) (l := l)
      rw [Derivation.value, Derivation.value_ofSlots, Derivation.tokens,
        Derivation.tokens_ofSlots] at hall
      simpa only [List.append_assoc, List.cons_append] using hall
  · cases hstep
    exact focusTokens_start (.slot _) h rfl
  · cases hstep
  · cases h with
    | @children stack outer subject m l h fits suit hsubject ds =>
      cases hstep
      have hall := focusTokens_finish subject h fits suit (.body hsubject (.body (.ofNodes ds)))
        (m := m) (l := l)
      rw [Derivation.value, Derivation.value_ofNodes, Derivation.tokens,
        Derivation.tokens_ofNodes] at hall
      simpa only [List.append_assoc, List.cons_append, List.reverse_reverse] using hall
  · next text hslots =>
    cases hstep
    exact focusTokens_addNode h (takes hslots) (.text text)
  · next hslots =>
    cases hstep
    exact focusTokens_start (.element _) h (takes hslots)
  · next hslots =>
    cases hstep
    exact .reference h (takes hslots)
  · cases hstep

theorem focusTokens_frame (h : StackTokens stack outer) (fits : subject.Fits stack)
    (own : HeadTokens subject head progress tokens) (hmay : Head.mayEnd progress) :
    FocusTokens (head.frame :: stack) .item
      (outer ++ (subject.tokens ++ tokens) ++ [.mark .braceOpen]) := by
  obtain ⟨m, l, suit, rfl, rfl⟩ := own.ended hmay
  have opened : StackTokens (Head.frame ⟨subject, m.spec, l.attributes⟩ :: stack)
      (outer ++ (subject.tokens ++ (m.tokens ++ l.tokens) ++ [.mark .braceOpen])) := by
    cases subject with
    | reference template => exact .slots template h fits []
    | element tag => exact .children h fits suit (by simp) []
    | slot name => exact .children h fits suit (by simp) []
  rw [List.append_assoc]
  exact .item opened

/-! ## Declarations -/

theorem Derives.concat {trees : List Template} {lexemes inner : List Lexeme}
    {root : Derivation .node} (h : Derives trees lexemes)
    (derived : inner.map (·.token) = root.tokens) (name : String)
    (keyword span opening closing : Span) :
    Derives (trees ++ [⟨name, span, root⟩]) (lexemes ++ (⟨.keyword .template, keyword⟩ ::
      ⟨.word name, span⟩ :: ⟨.mark .braceOpen, opening⟩ ::
        (inner ++ [⟨.mark .braceClose, closing⟩]))) := by
  induction h with
  | nil => exact .cons (t := ⟨name, span, root⟩) derived .nil
  | cons first _ ih =>
    simp only [List.cons_append, List.append_assoc]
    exact .cons first ih

/-- The lexemes that lead to a state. -/
inductive StateLexemes : State → List Lexeme → Prop
  | between {trees : List Template} {lexemes : List Lexeme} (h : Derives trees lexemes) :
      StateLexemes (.between (trees.map Template.declaration).reverse) lexemes
  | naming {trees : List Template} {lexemes : List Lexeme} (h : Derives trees lexemes)
      (keyword : Span) :
      StateLexemes (.naming (trees.map Template.declaration).reverse)
        (lexemes ++ [⟨.keyword .template, keyword⟩])
  | opening {trees : List Template} {lexemes : List Lexeme} (h : Derives trees lexemes)
      (keyword span : Span) (name : String) :
      StateLexemes (.opening (trees.map Template.declaration).reverse name span)
        (lexemes ++ [⟨.keyword .template, keyword⟩, ⟨.word name, span⟩])
  | within {trees : List Template} {lexemes inner : List Lexeme} (h : Derives trees lexemes)
      (keyword span opening : Span) (name : String) {stack : List Frame} {focus : Focus}
      (inside : FocusTokens stack focus (inner.map (·.token))) :
      StateLexemes (.within (trees.map Template.declaration).reverse name span stack focus)
        (lexemes ++ ⟨.keyword .template, keyword⟩ :: ⟨.word name, span⟩ ::
          ⟨.mark .braceOpen, opening⟩ :: inner)

variable {s s' : State} {lexemes inner : List Lexeme} {lexeme : Lexeme} {trees : List Template}

theorem StateLexemes.more {name : String} {span : Span} (h : Derives trees lexemes)
    (keyword opening : Span) (hinner : inner.map (·.token) = tokens)
    (inside : FocusTokens stack focus (tokens ++ [lexeme.token])) :
    StateLexemes (.within (trees.map Template.declaration).reverse name span stack focus)
      (lexemes ++ ⟨.keyword .template, keyword⟩ :: ⟨.word name, span⟩ ::
        ⟨.mark .braceOpen, opening⟩ :: (inner ++ [lexeme])) := by
  refine .within h keyword span opening name ?_
  rwa [List.map_append, hinner]

theorem stateLexemes_settledStep {place : List Frame × Focus} {name : String} {span : Span}
    (lexeme : Lexeme) (h : Derives trees lexemes) (keyword opening : Span)
    (hinner : inner.map (·.token) = tokens) (inside : FocusTokens place.1 place.2 tokens)
    (hstep : State.settledStep (trees.map Template.declaration).reverse name span lexeme.token
      place = some s') :
    StateLexemes s' (lexemes ++ ⟨.keyword .template, keyword⟩ :: ⟨.word name, span⟩ ::
      ⟨.mark .braceOpen, opening⟩ :: (inner ++ [lexeme])) := by
  obtain ⟨stack, focus⟩ := place
  obtain ⟨token, bytes⟩ := lexeme
  cases inside with
  | item inside =>
    obtain ⟨place, hitem, rfl⟩ := Option.map_eq_some_iff.1 hstep
    exact .more h keyword opening hinner (focusTokens_itemStep inside hitem)
  | @reference _ outer inside fits =>
    cases token with
    | word template =>
      cases hstep
      have started := focusTokens_start (.reference template) inside fits
      refine .more h keyword opening hinner ?_
      rwa [List.append_assoc]
    | keyword | mark | string => cases hstep
  | head => cases hstep
  | close d =>
    cases token with
    | mark mark =>
      cases mark with
      | braceClose =>
        cases hstep
        have hclosed := StateLexemes.between (h.concat hinner name keyword span opening bytes)
        rwa [List.map_append, List.reverse_append] at hclosed
      | _ => cases hstep
    | keyword | word | string => cases hstep

/-- **One step.** A lexeme that is not refused is one more lexeme that leads to the state. -/
theorem StateLexemes.step (h : StateLexemes s lexemes) (hstep : s.step lexeme = some s') :
    StateLexemes s' (lexemes ++ [lexeme]) := by
  obtain ⟨token, bytes⟩ := lexeme
  cases h with
  | between h =>
    cases token with
    | keyword k =>
      cases k with
      | template =>
        cases hstep
        exact .naming h bytes
      | _ => cases hstep
    | mark | word | string => cases hstep
  | naming h keyword =>
    cases token with
    | word name =>
      cases hstep
      rw [List.append_assoc]
      exact .opening h keyword bytes name
    | keyword | mark | string => cases hstep
  | opening h keyword span name =>
    cases token with
    | mark mark =>
      cases mark with
      | braceOpen =>
        cases hstep
        rw [List.append_assoc]
        exact .within h keyword span bytes name (.item .nil)
      | _ => cases hstep
    | keyword | word | string => cases hstep
  | @within trees lexemes inner h keyword span opening name stack focus inside =>
    -- what the lexemes inside spell has to be a variable before `inside` is taken apart
    generalize hinner : inner.map (·.token) = tokens at inside
    rw [List.append_assoc]
    have settled (hstep : State.settledStep (trees.map Template.declaration).reverse name span
        token (Source.settled stack focus) = some s') :=
      stateLexemes_settledStep ⟨token, bytes⟩ h keyword opening hinner inside.settled hstep
    cases inside with
    | item | reference | close => exact settled hstep
    | @head _ outer tokens subject head progress hstack fits own =>
      rw [State.step] at hstep
      cases hhead : head.step progress token with
      | some next =>
        simp only [hhead] at hstep
        cases hstep
        refine .more h keyword opening hinner ?_
        rw [List.append_assoc, List.append_assoc]
        exact .head hstack fits (own.step hhead)
      | none =>
        simp only [hhead] at hstep
        split at hstep
        · next hmay =>
          split at hstep
          · next hbrace =>
            subst hbrace
            cases hstep
            exact .more h keyword opening hinner (focusTokens_frame hstack fits own hmay)
          · exact settled hstep
        · cases hstep

/-- **A run.** -/
theorem StateLexemes.run {rest : List Lexeme} (h : StateLexemes s lexemes)
    (hrun : s.run rest = (s', [])) : StateLexemes s' (lexemes ++ rest) := by
  induction rest generalizing s lexemes with
  | nil =>
    cases hrun
    rwa [List.append_nil]
  | cons lexeme rest ih =>
    rw [State.run] at hrun
    cases hstep : s.step lexeme with
    | none => simp [hstep] at hrun
    | some s₁ =>
      simp only [hstep] at hrun
      rw [List.append_cons]
      exact ih (h.step hstep) hrun

end Stencil.Source
