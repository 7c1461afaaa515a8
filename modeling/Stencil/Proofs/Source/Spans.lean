import Mathlib.Data.List.TakeWhile
import Stencil.Proofs.Source.Layout

/-! # The spans of tokens

What a token is depends on the characters that spell it and on nothing behind them: a word takes all
characters that could go on with it, a quotation says itself where it ends, and a mark is a single
character. So the span of a token is a slice of the source that spells the token on its own, and
the next token starts behind it, however much has been passed over in between.
-/
namespace Stencil.Source

variable {start length : Nat} {c : Char} {cs rest text : List Char} {token : Token}
  {lexeme : Lexeme}

/-! ## A piece on its own -/

theorem Scan.push_eq_closed {s : Scan} {taken : Nat} (h : s.push c taken = .closed text length) :
    ∃ text' length', s = .closed text' length' ∧ text = c :: text' ∧ length = length' + taken := by
  cases s with
  | closed text' length' =>
    cases h
    exact ⟨text', length', rfl, rfl, rfl⟩
  | unclosed => cases h

theorem scanString_escape (h : c ≠ '\n') (rest : List Char) :
    scanString ('\\' :: c :: rest) = (scanString rest).push (unescape c) 2 :=
  scanString.eq_4 c rest h

theorem scanString_char (hquote : c ≠ '"') (hescape : c ≠ '\\') (rest : List Char) :
    scanString (c :: rest) = (scanString rest).push c 1 :=
  scanString.eq_5 c rest hquote (fun _ h => absurd h hescape) (fun _ _ h => absurd h hescape)

/-- A quotation ends with its closing quote, and nothing behind that is looked at. -/
theorem scanString_take (h : scanString cs = .closed text length) :
    length ≤ cs.length ∧ scanString (cs.take length) = .closed text length ∧
      (cs.take length).getLast? = some '"' := by
  fun_induction scanString cs generalizing text length with
  | case1 => cases h
  | case2 rest =>
    cases h
    exact ⟨Nat.succ_le_succ (Nat.zero_le _), rfl, rfl⟩
  | case3 => cases h
  | case4 c rest hline ih =>
    obtain ⟨text', length', hscan, rfl, rfl⟩ := Scan.push_eq_closed h
    obtain ⟨hle, htake, hlast⟩ := ih hscan
    refine ⟨Nat.add_le_add_right hle 2, ?_, ?_⟩
    · rw [List.take_succ_cons, List.take_succ_cons, scanString_escape hline, htake]
      rfl
    · rw [List.take_succ_cons, List.take_succ_cons, List.getLast?_cons, List.getLast?_cons, hlast]
      rfl
  | case5 c rest hquote _ hescape ih =>
    obtain ⟨text', length', hscan, rfl, rfl⟩ := Scan.push_eq_closed h
    obtain ⟨hle, htake, hlast⟩ := ih hscan
    have hbackslash : c ≠ '\\' := by
      intro hc
      cases rest with
      | nil => cases hscan
      | cons x rest => exact hescape x rest hc rfl
    refine ⟨Nat.add_le_add_right hle 1, ?_, ?_⟩
    · rw [List.take_succ_cons, scanString_char hquote hbackslash, htake]
      rfl
    · rw [List.take_succ_cons, List.getLast?_cons, hlast]
      rfl

theorem piece_take (h : piece c rest = ⟨some token, length⟩) :
    length ≤ rest.length ∧ piece c (rest.take length) = ⟨some token, length⟩ := by
  unfold piece at h
  split_ifs at h with hword hquote hslash
  · obtain ⟨htoken, rfl⟩ := Piece.mk.inj h
    have htake : rest.take (rest.takeWhile isWordPart).length = rest.takeWhile isWordPart :=
      (List.prefix_iff_eq_take.1 (List.takeWhile_prefix _)).symm
    have hword' : (rest.takeWhile isWordPart).takeWhile isWordPart = rest.takeWhile isWordPart :=
      List.takeWhile_eq_self_iff.2 fun _ => List.mem_takeWhile_imp
    exact ⟨(List.takeWhile_prefix _).length_le, by
      simp only [piece, if_pos hword, htake, hword', htoken]⟩
  · cases hscan : scanString rest with
    | unclosed => simp [hscan] at h
    | closed text length' =>
      simp only [hscan, Piece.mk.injEq] at h
      obtain ⟨htoken, rfl⟩ := h
      obtain ⟨hle, htake, _⟩ := scanString_take hscan
      exact ⟨hle, by simp only [piece, if_neg hword, if_pos hquote, htake, htoken]⟩
  · split at h
    · cases h
    · split at h <;> cases h
    · cases h
  · obtain ⟨htoken, rfl⟩ := Piece.mk.inj h
    exact ⟨Nat.zero_le _, by simp only [piece, if_neg hword, if_neg hquote, if_neg hslash, htoken]⟩

/-! ## Tokens cut out of a text -/

def IsPiece (token : Token) : List Char → Prop
  | [] => False
  | c :: more => piece c more = ⟨some token, more.length⟩

theorem isPiece_piece (h : (piece c rest).token = some token) :
    (piece c rest).length ≤ rest.length ∧
      IsPiece token (c :: rest.take (piece c rest).length) := by
  have hpiece : piece c rest = ⟨some token, (piece c rest).length⟩ := by rw [← h]
  obtain ⟨hle, htake⟩ := piece_take hpiece
  exact ⟨hle, by rw [IsPiece, htake, List.length_take_of_le hle]⟩

theorem IsPiece.lexFrom_eq (h : IsPiece token cs) (start : Nat) :
    lexFrom start cs = [⟨token, ⟨start, start + bytes cs⟩⟩] := by
  cases cs with
  | nil => cases h
  | cons c more =>
    have hpiece : piece c (more ++ []) = ⟨some token, more.length⟩ := by rwa [List.append_nil]
    have hlex := lexFrom_token start hpiece
    rwa [List.append_nil, lexFrom] at hlex

theorem IsPiece.ne_nil (h : IsPiece token cs) : cs ≠ [] := by
  rintro rfl
  cases h

theorem visible_of_mark {mark : Mark} (h : Mark.ofChar? c = some mark) :
    33 ≤ c.toNat ∧ c.toNat ≤ 126 := by
  unfold Mark.ofChar? at h
  split at h <;> first | decide | cases h

/-- What spells a token starts and ends with a visible character. -/
theorem IsPiece.visible (h : IsPiece token cs) :
    (∀ c ∈ cs.head?, 33 ≤ c.toNat ∧ c.toNat ≤ 126) ∧
      ∀ c ∈ cs.getLast?, 33 ≤ c.toNat ∧ c.toNat ≤ 126 := by
  cases cs with
  | nil => cases h
  | cons c more =>
    rw [IsPiece] at h
    unfold piece at h
    split_ifs at h with hword hquote hslash
    · have hmore : more.takeWhile isWordPart = more :=
        (List.takeWhile_prefix _).eq_of_length (Piece.mk.inj h).2
      have hall : ∀ x ∈ c :: more, isWordPart x := by
        rintro x (_ | ⟨_, hx⟩)
        · exact isWordPart_of_isWordStart hword
        · exact List.mem_takeWhile_imp (hmore.symm ▸ hx)
      exact ⟨fun x hx => visible_of_isWordPart (hall x (List.mem_of_mem_head? hx)),
        fun x hx => visible_of_isWordPart (hall x (List.mem_of_getLast? hx))⟩
    · cases hscan : scanString more with
      | unclosed => simp [hscan] at h
      | closed text length =>
        simp only [hscan, Piece.mk.injEq] at h
        have hlast := (scanString_take hscan).2.2
        rw [h.2, List.take_length] at hlast
        rw [List.head?_cons, List.getLast?_cons, hlast, hquote]
        exact ⟨fun x hx => Option.some.inj hx ▸ by decide,
          fun x hx => Option.some.inj hx ▸ by decide⟩
    · split at h
      · cases h
      · split at h <;> cases h
      · cases h
    · obtain ⟨htoken, hlength⟩ := Piece.mk.inj h
      obtain ⟨mark, hmark, _⟩ := Option.map_eq_some_iff.1 htoken
      obtain rfl := List.eq_nil_of_length_eq_zero hlength.symm
      have hc := visible_of_mark hmark
      exact ⟨fun x hx => Option.some.inj hx ▸ hc, fun x hx => Option.some.inj hx ▸ hc⟩

/-- The span of a lexeme takes characters that spell it, in a text that starts at byte `start`. -/
def Lexeme.CutFrom (l : Lexeme) (start : Nat) (cs : List Char) : Prop :=
  ∃ before spelled after, cs = before ++ (spelled ++ after) ∧ IsPiece l.token spelled ∧
    l.span = ⟨start + bytes before, start + bytes before + bytes spelled⟩

theorem Lexeme.CutFrom.behind (front : List Char) (h : lexeme.CutFrom (start + bytes front) cs) :
    lexeme.CutFrom start (front ++ cs) := by
  obtain ⟨before, spelled, after, rfl, hpiece, hspan⟩ := h
  refine ⟨front ++ before, spelled, after, (List.append_assoc ..).symm, hpiece, ?_⟩
  rw [hspan, bytes_append, ← Nat.add_assoc]

theorem cutFrom_of_mem_lexFrom (h : lexeme ∈ lexFrom start cs) : lexeme.CutFrom start cs := by
  have hsplit (c : Char) (rest : List Char) (n : Nat) :
      c :: rest = c :: rest.take n ++ rest.drop n := by
    rw [List.cons_append, List.take_append_drop]
  fun_induction lexFrom start cs with
  | case1 => cases h
  | case2 start c rest p stop later _ ih =>
    rw [hsplit c rest p.length]
    refine .behind _ ?_
    rw [bytes, ← Nat.add_assoc]
    exact ih h
  | case3 start c rest p stop later token htoken ih =>
    rw [hsplit c rest p.length]
    rcases List.mem_cons.1 h with rfl | h
    · refine ⟨[], c :: rest.take p.length, rest.drop p.length, rfl, (isPiece_piece htoken).2, ?_⟩
      simp only [bytes, Nat.add_zero, stop, Nat.add_assoc]
    · refine .behind _ ?_
      rw [bytes, ← Nat.add_assoc]
      exact ih h

/-! ## The spans of a source -/

theorem pairwise_lexFrom (start : Nat) (cs : List Char) :
    (lexFrom start cs).Pairwise fun l l' => l.span.stop ≤ l'.span.start := by
  fun_induction lexFrom start cs with
  | case1 => exact .nil
  | case2 start c rest p stop later _ ih => exact ih
  | case3 start c rest p stop later token htoken ih =>
    exact .cons (fun l hl => (of_mem_lexFrom hl).2.1) ih

theorem start_lt_stop_of_mem_lexFrom (h : lexeme ∈ lexFrom start cs) :
    lexeme.span.start < lexeme.span.stop := by
  obtain ⟨before, spelled, after, _, hpiece, hspan⟩ := cutFrom_of_mem_lexFrom h
  have hpos := bytes_pos hpiece.ne_nil
  rw [hspan]
  dsimp only
  omega

/-- **Token spans.** The spans of a source are not empty, they increase and do not overlap, and each
of them takes a slice of the source that spells the same token on its own. -/
theorem lex_spans (source : String) :
    (lex source).Pairwise (fun l l' => l.span.start < l'.span.start ∧
      l.span.stop < l'.span.stop ∧ l.span.stop ≤ l'.span.start) ∧
    ∀ l ∈ lex source, l.span.start < l.span.stop ∧ l.span.stop ≤ source.utf8ByteSize ∧
      ∃ before slice after : String, source = before ++ slice ++ after ∧
        before.utf8ByteSize = l.span.start ∧ (before ++ slice).utf8ByteSize = l.span.stop ∧
        lex slice = [⟨l.token, ⟨0, slice.utf8ByteSize⟩⟩] := by
  have hlt {l : Lexeme} (hl : l ∈ lex source) : l.span.start < l.span.stop :=
    start_lt_stop_of_mem_lexFrom hl
  have hsize (cs : List Char) : (String.ofList cs).utf8ByteSize = bytes cs := by
    rw [← bytes_eq_utf8ByteSize, String.toList_ofList]
  constructor
  · refine (pairwise_lexFrom 0 source.toList).imp_of_mem fun {l l'} hl hl' hle => ?_
    have := hlt hl
    have := hlt hl'
    exact ⟨by omega, by omega, hle⟩
  · intro l hl
    obtain ⟨before, spelled, after, hcut, hpiece, hspan⟩ := cutFrom_of_mem_lexFrom hl
    have hstop := (of_mem_lexFrom hl).2.2.2
    rw [bytes_eq_utf8ByteSize, Nat.zero_add] at hstop
    refine ⟨hlt hl, hstop, .ofList before, .ofList spelled, .ofList after, ?_, ?_, ?_, ?_⟩
    · rw [← String.ofList_append, ← String.ofList_append, List.append_assoc, ← hcut,
        String.ofList_toList]
    · rw [hsize, hspan, Nat.zero_add]
    · rw [String.utf8ByteSize_append, hsize, hsize, hspan, Nat.zero_add]
    · rw [lex, String.toList_ofList, hpiece.lexFrom_eq, hsize, Nat.zero_add]

/-- A character of two bytes in a comment, a quote in a string, and a string that is not closed. -/
def escapedSource : String := "// é\nuse \"a\\\"b\" \""

theorem lex_spans_escaped :
    (⟨.string "a\"b", ⟨10, 16⟩⟩ : Lexeme) ∈ lex escapedSource ∧
      ∃ before slice after : String, escapedSource = before ++ slice ++ after ∧
        before.utf8ByteSize = 10 ∧ (before ++ slice).utf8ByteSize = 16 ∧
        lex slice = [⟨.string "a\"b", ⟨0, slice.utf8ByteSize⟩⟩] := by
  have hlex : lex escapedSource =
      [⟨.keyword .reference, ⟨6, 9⟩⟩, ⟨.string "a\"b", ⟨10, 16⟩⟩] := by
    decide +kernel
  have hmem : (⟨.string "a\"b", ⟨10, 16⟩⟩ : Lexeme) ∈ lex escapedSource := by
    rw [hlex]
    exact List.mem_cons_of_mem _ List.mem_cons_self
  exact ⟨hmem, ((lex_spans escapedSource).2 _ hmem).2.2⟩

end Stencil.Source
