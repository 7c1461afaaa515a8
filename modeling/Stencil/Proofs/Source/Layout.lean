import Mathlib.Data.String.Basic
import Stencil.Source.Lexer
import Stencil.Text.Classes

/-! # Laying out tokens

Every token has a spelling. A layout writes tokens one after another with gaps of blanks and line
comments between them, and the lexer gets the tokens back, each with the bytes that its spelling
takes: no character of a gap can go on with a word, and a spelling says itself where it ends.
-/
namespace Stencil.Source
variable {start : Nat} {c : Char} {cs gap rest taken : List Char} {name : String} {token : Token}
  {lexeme : Lexeme} {lexemes : List Lexeme}

/-! ## Bytes -/

theorem bytes_append (cs cs' : List Char) : bytes (cs ++ cs') = bytes cs + bytes cs' := by
  induction cs with
  | nil => simp [bytes]
  | cons c cs ih => simp only [List.cons_append, bytes, ih]; omega

theorem bytes_eq_utf8ByteSize (s : String) : bytes s.toList = s.utf8ByteSize := by
  have run (cs : List Char) : bytes cs = String.utf8Len cs := by
    induction cs with
    | nil => rfl
    | cons c cs ih => rw [bytes, ih, String.utf8Len_cons, Nat.add_comm]
  rw [run, String.utf8Len_toList]

theorem bytes_pos (h : cs ≠ []) : 0 < bytes cs := by
  obtain ⟨c, rest, rfl⟩ := List.exists_cons_of_ne_nil h
  have hc := Char.utf8Size_pos c
  rw [bytes]
  omega

/-! ## Spellings -/

/-- Whether a text may stand where the grammar asks for a word. -/
def isIdentifier (name : String) : Bool :=
  match name.toList with
  | [] => false
  | c :: cs => isWordStart c && cs.all isWordPart &&
      !(["template", "use", "export"].contains name)

def quoteChar (c : Char) : List Char := if c = '\\' ∨ c = '"' then ['\\', c] else [c]

def Token.spelling : Token → List Char
  | keyword k => k.spelling.toList
  | mark m => [m.char]
  | word name => name.toList
  | string text => '"' :: (text.toList.flatMap quoteChar ++ ['"'])

/-- Every token can be written, except for words that are no identifiers. -/
def Token.isSpellable : Token → Bool
  | word name => isIdentifier name
  | _ => true

/-! ## Gaps -/

/-- White space and comments, each comment with the end of its line. -/
inductive Gap : List Char → Prop
  | nil : Gap []
  | blank {c : Char} {rest : List Char} (h : Text.isBlank c) (more : Gap rest) : Gap (c :: rest)
  | comment {text rest : List Char} (h : '\n' ∉ text) (more : Gap rest) :
      Gap ('/' :: '/' :: (text ++ '\n' :: rest))

/-- A text that starts at byte `start` is the tokens with gaps between them, each token with the
bytes of its spelling. Only the gap at the very start may be empty, and the one behind the last. -/
inductive Layout : Nat → List Lexeme → List Char → Prop
  | finish {start : Nat} {gap : List Char} (h : Gap gap) : Layout start [] gap
  | token {start : Nat} {gap rest : List Char} {token : Token} {lexemes : List Lexeme}
      (h : Gap gap) (apart : start = 0 ∨ gap ≠ []) (spellable : token.isSpellable)
      (more : Layout (start + bytes gap + bytes token.spelling) lexemes rest) :
      Layout start
        (⟨token, ⟨start + bytes gap, start + bytes gap + bytes token.spelling⟩⟩ :: lexemes)
        (gap ++ token.spelling ++ rest)

/-! ## One piece -/

theorem lexFrom_skip (start : Nat) (taken : List Char)
    (h : piece c (taken ++ rest) = ⟨none, taken.length⟩) :
    lexFrom start (c :: (taken ++ rest)) = lexFrom (start + bytes (c :: taken)) rest := by
  rw [lexFrom]
  simp only [h, List.take_left, List.drop_left, bytes, Nat.add_assoc]

theorem lexFrom_token (start : Nat)
    (h : piece c (taken ++ rest) = ⟨some token, taken.length⟩) :
    lexFrom start (c :: (taken ++ rest)) =
      ⟨token, ⟨start, start + bytes (c :: taken)⟩⟩ ::
        lexFrom (start + bytes (c :: taken)) rest := by
  rw [lexFrom]
  simp only [h, List.take_left, List.drop_left, bytes, Nat.add_assoc]

theorem isWordPart_of_isWordStart (h : isWordStart c) : isWordPart c := by
  rw [isWordStart, Bool.or_eq_true] at h
  rw [isWordPart, Char.isAlphanum, Bool.or_eq_true, Bool.or_eq_true, Bool.or_eq_true]
  exact .inl (h.imp_left .inl)

theorem visible_of_isWordPart (h : isWordPart c) : 33 ≤ c.toNat ∧ c.toNat ≤ 126 := by
  have halphanum : c.isAlphanum = ((decide (65 ≤ c.toNat ∧ c.toNat ≤ 90) ||
      (decide (97 ≤ c.toNat) && decide (c.toNat ≤ 122))) ||
      (decide (48 ≤ c.toNat) && decide (c.toNat ≤ 57))) := rfl
  simp only [isWordPart, halphanum, Bool.or_eq_true, Bool.and_eq_true, decide_eq_true_eq,
    beq_iff_eq] at h
  rcases h with (h | rfl) | rfl
  · omega
  · decide
  · decide

theorem not_visible_of_isBlank (h : Text.isBlank c) : ¬ (33 ≤ c.toNat ∧ c.toNat ≤ 126) := by
  simp [Text.isBlank] at h
  omega

theorem not_isWordPart_of_isBlank (h : Text.isBlank c) : isWordPart c = false := by
  by_contra hpart
  exact not_visible_of_isBlank h (visible_of_isWordPart (by simpa using hpart))

theorem piece_blank (h : Text.isBlank c) (rest : List Char) : piece c rest = ⟨none, 0⟩ := by
  have hvisible := not_visible_of_isBlank h
  have hstart : isWordStart c = false := by
    by_contra hc
    exact hvisible (visible_of_isWordPart (isWordPart_of_isWordStart (by simpa using hc)))
  have hquote : c ≠ '"' := by
    rintro rfl
    exact hvisible (by decide)
  have hslash : c ≠ '/' := by
    rintro rfl
    exact hvisible (by decide)
  have hmark : Mark.ofChar? c = none := by
    unfold Mark.ofChar?
    split <;> first | exact absurd (by decide) hvisible | rfl
  simp [piece, hstart, hquote, hslash, hmark]

theorem lexFrom_blank (h : Text.isBlank c) (start : Nat) (rest : List Char) :
    lexFrom start (c :: rest) = lexFrom (start + c.utf8Size) rest :=
  lexFrom_skip start [] (piece_blank h rest)

theorem piece_comment {text : List Char} (h : '\n' ∉ text) (rest : List Char) :
    piece '/' ('/' :: (text ++ '\n' :: rest)) = ⟨none, ('/' :: text).length⟩ := by
  have htake : (text ++ '\n' :: rest).takeWhile (· != '\n') = text := by
    rw [List.takeWhile_append_of_pos]
    · simp
    · intro x hx
      rw [bne_iff_ne]
      rintro rfl
      exact h hx
  simp [piece, isWordStart, htake, Nat.add_comm]

theorem lexFrom_gap (h : Gap gap) (start : Nat) (rest : List Char) :
    lexFrom start (gap ++ rest) = lexFrom (start + bytes gap) rest := by
  induction h generalizing start with
  | nil => rfl
  | @blank c gap hc _ ih =>
    rw [List.cons_append, lexFrom_blank hc, ih, bytes, Nat.add_assoc]
  | @comment text gap htext _ ih =>
    have hskip := lexFrom_skip start ('/' :: text) (piece_comment htext (gap ++ rest))
    have hbytes : start + bytes ('/' :: '/' :: text) + '\n'.utf8Size + bytes gap =
        start + bytes ('/' :: '/' :: (text ++ '\n' :: gap)) := by
      simp only [bytes, bytes_append]
      omega
    calc lexFrom start ('/' :: '/' :: (text ++ '\n' :: gap) ++ rest)
        = lexFrom start ('/' :: ('/' :: text ++ '\n' :: (gap ++ rest))) := by simp
      _ = lexFrom (start + bytes ('/' :: '/' :: text)) ('\n' :: (gap ++ rest)) := hskip
      _ = lexFrom (start + bytes ('/' :: '/' :: text) + '\n'.utf8Size) (gap ++ rest) :=
          lexFrom_blank (by decide) _ _
      _ = lexFrom (start + bytes ('/' :: '/' :: (text ++ '\n' :: gap))) rest := by rw [ih, hbytes]

/-- What stands behind a word so that it is not longer. -/
def EndsWord (rest : List Char) : Prop := ∀ c ∈ rest.head?, isWordPart c = false

theorem piece_word (hc : isWordStart c) (hcs : ∀ x ∈ cs, isWordPart x) (hrest : EndsWord rest) :
    piece c (cs ++ rest) = ⟨some (.ofWord (String.ofList (c :: cs))), cs.length⟩ := by
  have htake : (cs ++ rest).takeWhile isWordPart = cs := by
    rw [List.takeWhile_append_of_pos hcs]
    cases rest with
    | nil => simp
    | cons x rest => simp [hrest x rfl]
  simp [piece, hc, htake]

theorem scanString_quoted (text rest : List Char) :
    scanString (text.flatMap quoteChar ++ '"' :: rest) =
      .closed text ((text.flatMap quoteChar).length + 1) := by
  induction text with
  | nil => rfl
  | cons c text ih =>
    rw [List.flatMap_cons, quoteChar]
    split
    · next hc =>
      rcases hc with rfl | rfl <;> simp [scanString, ih, Scan.push, unescape]
    · next hc =>
      rw [not_or] at hc
      simp [scanString, hc, ih, Scan.push]

theorem isIdentifier_iff : isIdentifier name ↔
    (∃ c cs, name.toList = c :: cs ∧ isWordStart c ∧ ∀ x ∈ cs, isWordPart x) ∧
      Token.ofWord name = .word name := by
  unfold isIdentifier Token.ofWord
  cases name.toList with
  | nil => simp
  | cons c cs =>
    rw [Bool.and_eq_true, Bool.and_eq_true, List.all_eq_true]
    refine and_congr ?_ ?_
    · constructor
      · rintro ⟨hc, hcs⟩
        exact ⟨c, cs, rfl, hc, hcs⟩
      · rintro ⟨c', cs', heq, hc, hcs⟩
        cases heq
        exact ⟨hc, hcs⟩
    · split_ifs <;> simp_all

/-- The lexer reads a spelling as its token, if a word ends there. -/
theorem lexFrom_spelling (h : token.isSpellable) (hrest : EndsWord rest) (start : Nat) :
    lexFrom start (token.spelling ++ rest) =
      ⟨token, ⟨start, start + bytes token.spelling⟩⟩ ::
        lexFrom (start + bytes token.spelling) rest := by
  have word {name : String} {c : Char} {cs : List Char} (hname : name.toList = c :: cs)
      (hc : isWordStart c) (hcs : cs.all isWordPart) :
      lexFrom start (name.toList ++ rest) =
        ⟨.ofWord name, ⟨start, start + bytes name.toList⟩⟩ ::
          lexFrom (start + bytes name.toList) rest := by
    have hlex := lexFrom_token start (piece_word hc (List.all_eq_true.1 hcs) hrest)
    rw [← hname, String.ofList_toList] at hlex
    rw [hname, List.cons_append, ← hname]
    exact hlex
  cases token with
  | keyword k => cases k <;> exact word rfl (by decide) (by decide)
  | mark m => cases m <;> exact lexFrom_token start rfl
  | word name =>
    obtain ⟨⟨c, cs, hname, hc, hcs⟩, hword⟩ := isIdentifier_iff.1 h
    have hlex := word hname hc (List.all_eq_true.2 hcs)
    rw [hword] at hlex
    exact hlex
  | string text =>
    have hscan := scanString_quoted text.toList rest
    have hpiece : piece '"' ((text.toList.flatMap quoteChar ++ ['"']) ++ rest) =
        ⟨some (.string text), (text.toList.flatMap quoteChar ++ ['"']).length⟩ := by
      rw [List.append_assoc, List.singleton_append]
      simp [piece, isWordStart, hscan]
    exact lexFrom_token start hpiece

/-! ## Whole layouts -/

theorem Gap.endsWord (h : Gap gap) (hne : gap ≠ []) (rest : List Char) :
    EndsWord (gap ++ rest) := by
  intro c hc
  cases h with
  | nil => exact absurd rfl hne
  | blank hblank =>
    cases hc
    exact not_isWordPart_of_isBlank hblank
  | comment =>
    cases hc
    rfl

theorem Layout.endsWord (h : Layout start lexemes cs) (hstart : 0 < start) : EndsWord cs := by
  cases h with
  | finish hgap =>
    rcases eq_or_ne cs [] with rfl | hne
    · simp [EndsWord]
    · simpa using hgap.endsWord hne []
  | token hgap apart spellable more =>
    rw [List.append_assoc]
    exact hgap.endsWord (apart.resolve_left (by omega)) _

theorem Token.spelling_ne_nil (h : token.isSpellable) : token.spelling ≠ [] := by
  cases token with
  | keyword k => cases k <;> decide
  | mark m => simp [spelling]
  | word name =>
    obtain ⟨⟨c, cs, hname, _⟩, _⟩ := isIdentifier_iff.1 h
    simp [spelling, hname]
  | string text => simp [spelling]

theorem Layout.lexFrom_eq (h : Layout start lexemes cs) : lexFrom start cs = lexemes := by
  induction h with
  | @finish start gap hgap =>
    have hlex := lexFrom_gap hgap start []
    rw [List.append_nil, lexFrom] at hlex
    exact hlex
  | @token start gap rest token lexemes hgap apart spellable more ih =>
    have hpos := bytes_pos (Token.spelling_ne_nil spellable)
    have hrest : EndsWord rest := more.endsWord (by omega)
    rw [List.append_assoc, lexFrom_gap hgap, lexFrom_spelling spellable hrest, ih]

theorem Layout.split {front back : List Lexeme} (h : Layout start (front ++ back) cs) :
    ∃ before after, cs = before ++ after ∧ Layout (start + bytes before) back after := by
  induction front generalizing start cs with
  | nil => exact ⟨[], cs, rfl, h⟩
  | cons lexeme front ih =>
    cases h with
    | @token _ gap rest token _ hgap apart spellable more =>
      obtain ⟨before, after, rfl, hlayout⟩ := ih more
      refine ⟨gap ++ token.spelling ++ before, after, by simp, ?_⟩
      simpa only [bytes_append, Nat.add_assoc] using hlayout

theorem Layout.span {previous : Lexeme} (h : Layout start lexemes cs)
    (hnext : [previous, lexeme] <:+: lexemes) :
    ∃ before gap after,
      cs = before ++ previous.token.spelling ++ gap ++ lexeme.token.spelling ++ after ∧ Gap gap ∧
      lexeme.span.start = start + bytes (before ++ previous.token.spelling ++ gap) ∧
      lexeme.span.stop = lexeme.span.start + bytes lexeme.token.spelling := by
  obtain ⟨front, back, rfl⟩ := hnext
  rw [List.append_assoc] at h
  obtain ⟨before, after, rfl, hlayout⟩ := h.split
  cases hlayout with
  | @token _ gap rest token _ hgap _ _ more =>
    cases more with
    | @token _ gap' rest' token' _ hgap' _ _ more' =>
      refine ⟨before ++ gap, gap', rest', by simp, hgap', ?_, rfl⟩
      simp only [bytes_append, Nat.add_assoc]

theorem exists_layout (start : Nat) {tokens : List Token} (h : ∀ t ∈ tokens, t.isSpellable) :
    ∃ lexemes cs, Layout start lexemes cs ∧ lexemes.map (·.token) = tokens := by
  induction tokens generalizing start with
  | nil => exact ⟨[], [], .finish .nil, rfl⟩
  | cons token tokens ih =>
    obtain ⟨hhead, htail⟩ := List.forall_mem_cons.1 h
    obtain ⟨lexemes, cs, hlayout, hmap⟩ := ih (start + bytes [' '] + bytes token.spelling) htail
    have hblank : Gap [' '] := .blank (by decide) .nil
    exact ⟨_, _, .token hblank (.inr (List.cons_ne_nil _ _)) hhead hlayout, by simp [hmap]⟩

/-! ## The lexemes of any text -/

theorem isSpellable_ofWord (hc : isWordStart c) (hcs : ∀ x ∈ cs, isWordPart x) :
    (Token.ofWord (String.ofList (c :: cs))).isSpellable := by
  by_cases hword : Token.ofWord (String.ofList (c :: cs)) = .word (String.ofList (c :: cs))
  · rw [hword]
    exact isIdentifier_iff.2 ⟨⟨c, cs, String.toList_ofList, hc, hcs⟩, hword⟩
  · unfold Token.ofWord at hword ⊢
    split_ifs at hword ⊢ <;> first | rfl | exact absurd rfl hword

theorem isSpellable_piece (h : (piece c rest).token = some token) : token.isSpellable := by
  unfold piece at h
  split at h
  · next hc =>
    cases h
    exact isSpellable_ofWord hc fun x hx => List.all_eq_true.1 List.all_takeWhile x hx
  · split at h
    · split at h
      · cases h
        rfl
      · cases h
    · split at h
      · split at h
        · cases h
        · split at h <;> cases h
        · cases h
      · obtain ⟨mark, _, rfl⟩ := Option.map_eq_some_iff.1 h
        rfl

theorem of_mem_lexFrom (h : lexeme ∈ lexFrom start cs) :
    lexeme.token.isSpellable ∧ start ≤ lexeme.span.start ∧
      lexeme.span.start ≤ lexeme.span.stop ∧ lexeme.span.stop ≤ start + bytes cs := by
  have hsize (c : Char) (rest : List Char) (n : Nat) :
      bytes (c :: rest) = c.utf8Size + bytes (rest.take n) + bytes (rest.drop n) := by
    rw [bytes, Nat.add_assoc, ← bytes_append, List.take_append_drop]
  fun_induction lexFrom start cs with
  | case1 => cases h
  | case2 start c rest p stop later _ ih =>
    obtain ⟨hspellable, hstart, hle, hstop⟩ := ih h
    have hbytes := hsize c rest p.length
    exact ⟨hspellable, by omega, hle, by omega⟩
  | case3 start c rest p stop later token htoken ih =>
    have hbytes := hsize c rest p.length
    rcases List.mem_cons.1 h with rfl | h
    · have hstop : start ≤ stop := by omega
      exact ⟨isSpellable_piece htoken, Nat.le_refl start, hstop, by dsimp only; omega⟩
    · obtain ⟨hspellable, hstart, hle, hstop⟩ := ih h
      exact ⟨hspellable, by omega, hle, by omega⟩
end Stencil.Source
