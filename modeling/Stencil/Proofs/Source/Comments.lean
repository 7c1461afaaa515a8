import Mathlib.Algebra.Group.Nat.Even
import Mathlib.Data.List.Induction
import Stencil.Proofs.Source.Layout

/-! # Where a block comment ends

The scan of a block comment takes single characters, and each star together with the character
behind it. A text that it can take like this leaves the comment open, as if it were not there. So a
comment ends at its first terminator if the stars in front of that come in pairs; an odd one takes
the star of the terminator with it, and the comment goes on.
-/
namespace Stencil.Source
variable {body front back rest : List Char} {c : Char}

/-! ## Spans -/

/-- The same token further behind. -/
def Lexeme.shift (distance : Nat) (l : Lexeme) : Lexeme :=
  ⟨l.token, ⟨l.span.start + distance, l.span.stop + distance⟩⟩

theorem lexFrom_add (start distance : Nat) (cs : List Char) :
    lexFrom (start + distance) cs = (lexFrom start cs).map (Lexeme.shift distance) := by
  induction hn : cs.length using Nat.strong_induction_on generalizing start cs with
  | _ n ih =>
    cases cs with
    | nil => simp [lexFrom]
    | cons c rest =>
      have hshorter : (rest.drop (piece c rest).length).length < n := by
        rw [← hn, List.length_drop, List.length_cons]
        omega
      have hlater :=
        ih _ hshorter (start + c.utf8Size + bytes (rest.take (piece c rest).length)) _ rfl
      have hstop : start + distance + c.utf8Size + bytes (rest.take (piece c rest).length) =
          start + c.utf8Size + bytes (rest.take (piece c rest).length) + distance := by omega
      rw [lexFrom, lexFrom]
      simp only [hstop, hlater]
      cases (piece c rest).token <;> rfl

/-! ## What the scan takes -/

/-- The characters that the scan passes over, whether it finds an end or not. -/
def Scan.length : Scan → Nat
  | closed _ length | unclosed length => length

@[simp] theorem Scan.length_push (s : Scan) (c : Char) (taken : Nat) :
    (s.push c taken).length = s.length + taken := by
  cases s <;> rfl

/-- Single characters, and stars each with a character behind it. -/
inductive Paired : List Char → Prop
  | nil : Paired []
  | char {c : Char} {rest : List Char} (h : c ≠ '*') (more : Paired rest) : Paired (c :: rest)
  | pair {c : Char} {rest : List Char} (h : c ≠ '/') (more : Paired rest) :
      Paired ('*' :: c :: rest)

theorem Paired.append (h : Paired front) (h' : Paired back) : Paired (front ++ back) := by
  induction h with
  | nil => exact h'
  | char hc _ ih => exact .char hc ih
  | pair hc _ ih => exact .pair hc ih

theorem scanComment_char (h : c ≠ '*') (rest : List Char) :
    scanComment (c :: rest) = (scanComment rest).push c 1 := by
  simp [scanComment, h]

theorem scanComment_pair (h : c ≠ '/') (rest : List Char) :
    scanComment ('*' :: c :: rest) = (scanComment rest).push c 2 := by
  simp [scanComment]

theorem Paired.length_scanComment (h : Paired body) (rest : List Char) :
    (scanComment (body ++ rest)).length = body.length + (scanComment rest).length := by
  induction h with
  | nil => rw [List.nil_append, List.length_nil, Nat.zero_add]
  | char hc _ ih =>
    rw [List.cons_append, scanComment_char hc, Scan.length_push, ih, List.length_cons]
    omega
  | pair hc _ ih =>
    rw [List.cons_append, List.cons_append, scanComment_pair hc, Scan.length_push, ih,
      List.length_cons, List.length_cons]
    omega

theorem piece_blockComment (more : List Char) :
    piece '/' ('*' :: more) = ⟨none, 1 + (scanComment more).length⟩ := by
  have hstart : isWordStart '/' = false := by decide
  rw [piece, hstart, if_neg Bool.false_ne_true, if_neg (by decide), if_pos rfl]
  cases scanComment more <;> rfl

theorem lexFrom_paired (h : Paired body) (start : Nat) (rest : List Char) :
    lexFrom start ('/' :: '*' :: (body ++ rest)) =
      lexFrom (start + bytes body) ('/' :: '*' :: rest) := by
  rw [lexFrom, lexFrom]
  simp only [piece_blockComment, h.length_scanComment, Nat.add_comm 1, List.take_succ_cons,
    List.drop_succ_cons, List.take_length_add_append, List.drop_length_add_append, bytes,
    bytes_append]
  congr 1
  omega

theorem lexFrom_closing (start : Nat) (rest : List Char) :
    lexFrom start ('/' :: '*' :: '*' :: '/' :: rest) = lexFrom (start + 4) rest := by
  rw [lexFrom]
  simp only [piece_blockComment]
  rfl

/-! ## Pairs of stars -/

/-- How many stars a text ends with. -/
def finalStars (cs : List Char) : Nat := (cs.reverse.takeWhile (· == '*')).length

theorem finalStars_concat (cs : List Char) (c : Char) :
    finalStars (cs ++ [c]) = if c = '*' then finalStars cs + 1 else 0 := by
  by_cases hc : c = '*' <;> simp [finalStars, hc]

/-- If a text does not end the comment, it is taken as a whole, or a star at its end is left over.
The induction takes characters off the end, as it is the stars there that decide. -/
theorem paired_or_star (h : ¬ ['*', '/'] <:+: body) :
    (Even (finalStars body) → Paired body) ∧
      (¬ Even (finalStars body) → ∃ front, body = front ++ ['*'] ∧ Paired front) := by
  induction body using List.reverseRecOn with
  | nil => exact ⟨fun _ => .nil, fun hodd => absurd Even.zero hodd⟩
  | append_singleton front c ih =>
    obtain ⟨heven, hodd⟩ := ih fun hin => h (hin.trans (List.infix_append' [] front [c]))
    rw [finalStars_concat]
    by_cases hc : c = '*'
    · subst hc
      rw [if_pos rfl, Nat.even_add_one, not_not]
      refine ⟨fun hstars => ?_, fun hstars => ⟨front, rfl, heven hstars⟩⟩
      obtain ⟨before, rfl, hbefore⟩ := hodd hstars
      rw [List.append_assoc]
      exact hbefore.append (.pair (by decide) .nil)
    · rw [if_neg hc]
      refine ⟨fun _ => ?_, fun hstars => absurd Even.zero hstars⟩
      by_cases hstars : Even (finalStars front)
      · exact (heven hstars).append (.char hc .nil)
      · obtain ⟨before, rfl, hbefore⟩ := hodd hstars
        have hslash : c ≠ '/' := by
          rintro rfl
          exact h ⟨before, [], by simp⟩
        rw [List.append_assoc]
        exact hbefore.append (.pair hslash .nil)

/-! ## The first terminator -/

theorem lex_blockComment (body rest : String) : lex ("/*" ++ body ++ "*/" ++ rest) =
    lexFrom 0 ('/' :: '*' :: (body.toList ++ '*' :: '/' :: rest.toList)) := by
  simp [lex]

/-- **The end of a block comment.** A comment ends at its first terminator, whatever follows,
exactly if an even number of stars stands in front of that. Behind an odd number it goes on as if
it had been opened there. -/
theorem lex_blockComment_iff {body : String} (h : ¬ ['*', '/'] <:+: body.toList) :
    ((∀ rest : String, lex ("/*" ++ body ++ "*/" ++ rest) =
        (lex rest).map (.shift ("/*" ++ body ++ "*/").utf8ByteSize)) ↔
      Even (finalStars body.toList)) ∧
    (¬ Even (finalStars body.toList) → ∀ rest : String, lex ("/*" ++ body ++ "*/" ++ rest) =
      (lex ("/*" ++ rest)).map (.shift (body ++ "*/").utf8ByteSize)) := by
  have heven (hstars : Even (finalStars body.toList)) (rest : String) :
      lex ("/*" ++ body ++ "*/" ++ rest) =
        (lex rest).map (.shift ("/*" ++ body ++ "*/").utf8ByteSize) := by
    have hbody := (paired_or_star h).1 hstars
    have hsize : ("/*" ++ body ++ "*/").utf8ByteSize = 0 + bytes body.toList + 4 := by
      rw [String.utf8ByteSize_append, String.utf8ByteSize_append, ← bytes_eq_utf8ByteSize body]
      change 2 + bytes body.toList + 2 = _
      omega
    rw [lex_blockComment, lexFrom_paired hbody, lexFrom_closing, hsize, lex, ← lexFrom_add,
      Nat.zero_add, Nat.zero_add]
  have hodd (hstars : ¬ Even (finalStars body.toList)) (rest : String) :
      lex ("/*" ++ body ++ "*/" ++ rest) =
        (lex ("/*" ++ rest)).map (.shift (body ++ "*/").utf8ByteSize) := by
    obtain ⟨front, hfront, hpaired⟩ := (paired_or_star h).2 hstars
    -- the star that is left over takes that of the terminator, and the slash is one of the text
    have htaken : Paired (body.toList ++ ['*', '/']) := by
      rw [hfront, List.append_assoc]
      exact hpaired.append (.pair (by decide) (.char (by decide) .nil))
    have hsize : (body ++ "*/").utf8ByteSize = bytes (body.toList ++ ['*', '/']) := by
      rw [← bytes_eq_utf8ByteSize, String.toList_append]
      rfl
    have hopened : lex ("/*" ++ rest) = lexFrom 0 ('/' :: '*' :: rest.toList) := by simp [lex]
    rw [lex_blockComment, hopened, hsize, ← lexFrom_add, ← lexFrom_paired htaken,
      List.append_assoc]
    rfl
  refine ⟨⟨fun hall => ?_, heven⟩, hodd⟩
  by_contra hstars
  have hword : lex "x" = [⟨.word "x", ⟨0, 1⟩⟩] := by decide +kernel
  have hhidden : lex ("/*" ++ "x") = [] := by decide +kernel
  have hsame := (hodd hstars "x").symm.trans (hall "x")
  rw [hword, hhidden] at hsame
  cases hsame

/-- Comments that are closed by two stars, as in a box of them. -/
theorem lex_blockComment_iff_boxed :
    ¬ Even (finalStars " a *".toList) ∧ ∀ rest : String,
      lex ("/*" ++ " a *" ++ "*/" ++ rest) = (lex ("/*" ++ rest)).map (.shift 6) := by
  have hinner : ¬ ['*', '/'] <:+: " a *".toList := by decide
  have hodd : ¬ Even (finalStars " a *".toList) := by decide
  exact ⟨hodd, (lex_blockComment_iff hinner).2 hodd⟩

/-- Such a comment does not end at its first terminator: it hides the tokens behind it. -/
theorem not_lex_blockComment_boxed :
    ¬ ∀ body rest : String, ¬ ['*', '/'] <:+: body.toList →
      lex ("/*" ++ body ++ "*/" ++ rest) =
        (lex rest).map (.shift ("/*" ++ body ++ "*/").utf8ByteSize) := by
  intro h
  have hsame := h " a *" " b" (by decide)
  have hword : lex " b" = [⟨.word "b", ⟨1, 2⟩⟩] := by decide +kernel
  have hhidden : lex ("/*" ++ " a *" ++ "*/" ++ " b") = [] := by decide +kernel
  rw [hword, hhidden] at hsame
  cases hsame

end Stencil.Source
