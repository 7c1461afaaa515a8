import Stencil.Proofs.Source.History

/-! # Acceptance

A source is parsed exactly if the grammar derives its tokens. What is derived is read as itself, and
what has been read where a source may end is derived, so both directions meet in the trees. They are
told apart by their tokens, hence the declarations are those of one derivation.
-/
namespace Stencil.Source

variable {trees : List Template} {lexemes : List Lexeme}

theorem Derives.map_token (h : Derives trees lexemes) :
    lexemes.map (·.token) = trees.flatMap Template.tokens := by
  induction h with
  | nil => rfl
  | cons derived _ ih => simp [Template.tokens, derived, ih]

theorem exists_derives (h : lexemes.map (·.token) = trees.flatMap Template.tokens) :
    ∃ trees', Derives trees' lexemes := by
  induction trees generalizing lexemes with
  | nil =>
    rw [List.map_eq_nil_iff.1 h]
    exact ⟨[], .nil⟩
  | cons t trees ih =>
    rw [List.flatMap_cons, Template.tokens, List.cons_append, List.cons_append, List.cons_append,
      List.append_assoc] at h
    obtain ⟨⟨_, keyword⟩, _, rfl, rfl, hnamed⟩ := List.map_eq_cons_iff.1 h
    obtain ⟨⟨_, span⟩, _, rfl, rfl, hopened⟩ := List.map_eq_cons_iff.1 hnamed
    obtain ⟨⟨_, opening⟩, _, rfl, rfl, hinner⟩ := List.map_eq_cons_iff.1 hopened
    obtain ⟨inner, _, rfl, hderived, hclosed⟩ := List.map_eq_append_iff.1 hinner
    obtain ⟨⟨_, closing⟩, later, rfl, rfl, hlater⟩ := List.map_eq_cons_iff.1 hclosed
    obtain ⟨trees', hderives⟩ := ih hlater
    exact ⟨⟨t.name, span, t.root⟩ :: trees', .cons hderived hderives⟩

theorem derives_of_run {read : List Declaration}
    (h : State.start.run lexemes = (.between read, [])) :
    ∃ trees, Derives trees lexemes ∧ (trees.map Template.declaration).reverse = read := by
  have start : StateLexemes State.start [] := .between .nil
  cases start.run h with
  | between hderives => exact ⟨_, hderives, rfl⟩

/-! ## The end of a run -/

theorem parse_of_refused {source : String} {s : State} {lexeme : Lexeme} {rest : List Lexeme}
    (h : State.start.run (lex source) = (s, lexeme :: rest)) :
    parse source = .error ⟨lexeme.span, some lexeme.token, s.expected⟩ := by
  simp only [parse, h]

theorem parse_of_between {source : String} {read : List Declaration}
    (h : State.start.run (lex source) = (.between read, [])) :
    parse source = .ok read.reverse := by
  simp only [parse, h, State.result?]

theorem parse_of_unfinished {source : String} {s : State}
    (h : State.start.run (lex source) = (s, [])) (hs : s.result? = none) :
    parse source = .error ⟨⟨source.utf8ByteSize,
      ((lex source).getLast?.map (·.span.stop)).getD source.utf8ByteSize⟩, none, s.expected⟩ := by
  simp only [parse, h, hs]

theorem parse_eq_ok_iff_run {source : String} {declarations : List Declaration} :
    parse source = .ok declarations ↔
      State.start.run (lex source) = (.between declarations.reverse, []) := by
  constructor
  · intro h
    rcases hrun : State.start.run (lex source) with ⟨s, _ | ⟨lexeme, rest⟩⟩
    · cases s with
      | between read =>
        cases h.symm.trans (parse_of_between hrun)
        rw [List.reverse_reverse]
      | naming | opening | within => cases h.symm.trans (parse_of_unfinished hrun rfl)
    · cases h.symm.trans (parse_of_refused hrun)
  · intro h
    rw [parse_of_between h, List.reverse_reverse]

theorem parse_eq_ok_iff_derives {source : String} {declarations : List Declaration} :
    parse source = .ok declarations ↔
      ∃ trees, Derives trees (lex source) ∧ trees.map Template.declaration = declarations := by
  constructor
  · intro h
    obtain ⟨trees, hderives, hread⟩ := derives_of_run (parse_eq_ok_iff_run.1 h)
    exact ⟨trees, hderives, List.reverse_injective hread⟩
  · rintro ⟨trees, hderives, rfl⟩
    exact parse_of_derives hderives

/-- **Parsing accepts the grammar.** A source is parsed exactly if trees derive its tokens; there is
one derivation with the spans of the names, and the declarations are its value. Of attributes with
the same key the first gives the place and the last the value, and of slots with the same name the
last one is kept. -/
theorem parse_eq_ok_iff (source : String) :
    ((∃ declarations, parse source = .ok declarations) ↔
      ∃ trees : List Template, (lex source).map (·.token) = trees.flatMap Template.tokens) ∧
    (∀ declarations, parse source = .ok declarations ↔
      ∃ trees, Derives trees (lex source) ∧ trees.map Template.declaration = declarations) ∧
    (∀ trees trees', Derives trees (lex source) → Derives trees' (lex source) → trees = trees') ∧
    (∀ entries : EntryList,
      entries.attributes.entries.map Prod.fst = (entries.pairs.map Prod.fst).eraseDups ∧
      ∀ key, entries.attributes.get? key = entries.pairs.reverse.lookup key) ∧
    ∀ (slots : Derivation .slots) (name : String),
      NameMap.find? (Derivation.overrides slots).value name = slots.value.reverse.lookup name := by
  refine ⟨⟨?_, ?_⟩, fun _ => parse_eq_ok_iff_derives, fun _ _ => Derives.unique, ?_, ?_⟩
  · rintro ⟨declarations, h⟩
    obtain ⟨trees, hderives, _⟩ := parse_eq_ok_iff_derives.1 h
    exact ⟨trees, hderives.map_token⟩
  · rintro ⟨trees, h⟩
    obtain ⟨trees', hderives⟩ := exists_derives h
    exact ⟨_, parse_of_derives hderives⟩
  · intro entries
    exact ⟨Attributes.keys_ofList entries.pairs, Attributes.get?_ofList entries.pairs⟩
  · intro slots name
    exact NameMap.find?_ofList_reverse slots.value name

/-- An attribute and a slot are written twice. -/
def repeatedSource : String := "template T \x7b use L [a: \"1\", a: \"2\"] \x7b s s #x \x7d \x7d"

def repeatedEntries : EntryList := .listed ⟨.word "a", "1"⟩ [⟨.word "a", "2"⟩] false

def repeatedSlots : Derivation .slots :=
  .moreSlots "s" none .absent .noBody (.moreSlots "s" (some "x") .absent .noBody .noSlots)

def repeatedTree : Template :=
  ⟨"T", ⟨9, 10⟩, .reference "L" ⟨none, false⟩ repeatedEntries (.overrides repeatedSlots)⟩

theorem parse_eq_ok_iff_repeated :
    Derives [repeatedTree] (lex repeatedSource) ∧
      parse repeatedSource = .ok [⟨"T", ⟨9, 10⟩, .reference "L" .anonymous
        (Attributes.empty.insert "a" "2") [("s", ⟨some "x", .empty, []⟩)]⟩] := by
  have hlex : lex repeatedSource = ⟨.keyword .template, ⟨0, 8⟩⟩ :: ⟨.word "T", ⟨9, 10⟩⟩ ::
      ⟨.mark .braceOpen, ⟨11, 12⟩⟩ ::
        ([⟨.keyword .reference, ⟨13, 16⟩⟩, ⟨.word "L", ⟨17, 18⟩⟩, ⟨.mark .bracketOpen, ⟨19, 20⟩⟩,
          ⟨.word "a", ⟨20, 21⟩⟩, ⟨.mark .colon, ⟨21, 22⟩⟩, ⟨.string "1", ⟨23, 26⟩⟩,
          ⟨.mark .comma, ⟨26, 27⟩⟩, ⟨.word "a", ⟨28, 29⟩⟩, ⟨.mark .colon, ⟨29, 30⟩⟩,
          ⟨.string "2", ⟨31, 34⟩⟩, ⟨.mark .bracketClose, ⟨34, 35⟩⟩,
          ⟨.mark .braceOpen, ⟨36, 37⟩⟩, ⟨.word "s", ⟨38, 39⟩⟩, ⟨.word "s", ⟨40, 41⟩⟩,
          ⟨.mark .hash, ⟨42, 43⟩⟩, ⟨.word "x", ⟨43, 44⟩⟩, ⟨.mark .braceClose, ⟨45, 46⟩⟩] ++
        [⟨.mark .braceClose, ⟨47, 48⟩⟩]) := by
    decide +kernel
  have hderives : Derives [repeatedTree] (lex repeatedSource) := by
    rw [hlex]
    exact .cons (t := repeatedTree) rfl .nil
  have hvalue : [repeatedTree].map Template.declaration =
      [⟨"T", ⟨9, 10⟩, .reference "L" .anonymous (Attributes.empty.insert "a" "2")
        [("s", ⟨some "x", .empty, []⟩)]⟩] := by
    rfl
  exact ⟨hderives, ((parse_eq_ok_iff repeatedSource).2.1 _).2 ⟨_, hderives, hvalue⟩⟩

end Stencil.Source
