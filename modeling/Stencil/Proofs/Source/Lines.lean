import Mathlib.Data.List.Induction
import Stencil.Source.Report

/-! # Lines and columns

The lines of a report are found from the offsets at which they start, and a place is told by the
number of such starts and the distance from the last one. Read character by character this is a
counter of lines and columns, and so it can be compared with the count of line feeds alone. In one
text no two places are the same: where the line is, the column grows.
-/
namespace Stencil.Source

variable {c : Char} {cs before after rest current : List Char} {n d o pos l : Nat}

/-- A line and a column, both counted from 1. -/
structure Place where
  line : Nat
  column : Nat
  deriving DecidableEq

/-- The place behind a character, which may be the last one of its line. -/
def Place.next (p : Place) (last : Bool) : Place :=
  if last then ⟨p.line + 1, 1⟩ else ⟨p.line, p.column + 1⟩

/-! ## Starts of lines -/

/-- Whether a line starts behind a character. None starts at the end of the text, and none between a
carriage return and a line feed. -/
def endsLine (c : Char) (rest : List Char) : Bool :=
  isLineEnd c && !rest.isEmpty && !(c == '\r' && rest.head? == some '\n')

/-- The offsets at which lines start in a text that itself starts at `pos` within a line. -/
def lineStarts (pos : Nat) : List Char → List Nat
  | [] => []
  | c :: rest =>
    if endsLine c rest then (pos + 1) :: lineStarts (pos + 1) rest else lineStarts (pos + 1) rest

theorem lt_of_mem_lineStarts {start : Nat} (h : start ∈ lineStarts pos cs) : pos < start := by
  induction cs generalizing pos with
  | nil => cases h
  | cons c rest ih =>
    rw [lineStarts] at h
    split_ifs at h
    · rcases List.mem_cons.1 h with rfl | h
      · exact Nat.lt_succ_self pos
      · exact Nat.lt_of_succ_lt (ih h)
    · exact Nat.lt_of_succ_lt (ih h)

theorem endsLine_nil (c : Char) : endsLine c [] = false := by
  simp [endsLine]

theorem endsLine_of_isLineEnd (hc : isLineEnd c) (hrest : rest ≠ [])
    (hpair : ∀ more, c = '\r' → rest = '\n' :: more → False) : endsLine c rest = true := by
  obtain ⟨d, more, rfl⟩ := List.exists_cons_of_ne_nil hrest
  by_cases hreturn : c = '\r'
  · have hfeed : d ≠ '\n' := fun hd => hpair more hreturn (hd ▸ rfl)
    simp [endsLine, hc, hfeed]
  · simp [endsLine, hc, hreturn]

theorem endsLine_feed (h : rest ≠ []) : endsLine '\n' rest = true :=
  endsLine_of_isLineEnd (by decide) h fun _ hc => absurd hc (by decide)

theorem endsLine_of_not (hc : ¬ isLineEnd c) (rest : List Char) : endsLine c rest = false := by
  simp [endsLine, hc]

theorem offsets_rest
    (ih : rest ≠ [] → ∀ o, (placeLines o (splitLines [] rest)).map Line.offset =
      o :: lineStarts o rest)
    (hends : rest ≠ [] → endsLine c rest = true) (o : Nat) :
    (placeLines (o + 1) (splitLines [] rest)).map Line.offset = lineStarts o (c :: rest) := by
  rw [lineStarts]
  rcases eq_or_ne rest [] with rfl | hrest
  · rw [endsLine_nil, if_neg Bool.false_ne_true]
    rfl
  · rw [hends hrest, if_pos rfl]
    exact ih hrest (o + 1)

theorem offsets_placeLines (h : current ≠ [] ∨ cs ≠ []) (o : Nat) :
    (placeLines o (splitLines current cs)).map Line.offset =
      o :: lineStarts (o + current.length) cs := by
  fun_induction splitLines current cs generalizing o with
  | case1 current hempty => simp_all
  | case2 current hempty => rfl
  | case3 current rest ih =>
    have hreturn : endsLine '\r' ('\n' :: rest) = false := rfl
    rw [placeLines, List.map_cons, lineStarts, hreturn, if_neg Bool.false_ne_true,
      ← offsets_rest (fun hrest => ih (.inr hrest)) endsLine_feed, List.length_reverse,
      List.length_cons, List.length_cons]
    rfl
  | case4 current c rest hpair hend ih =>
    have hends (hrest : rest ≠ []) : endsLine c rest = true :=
      endsLine_of_isLineEnd hend hrest hpair
    rw [placeLines, List.map_cons, ← offsets_rest (fun hrest => ih (.inr hrest)) hends,
      List.length_reverse, List.length_cons]
    rfl
  | case5 current c rest hpair hend ih =>
    rw [ih (.inl (List.cons_ne_nil c current)), lineStarts, endsLine_of_not hend,
      if_neg Bool.false_ne_true, List.length_cons]
    rfl

theorem flatten_splitLines (current cs : List Char) :
    (splitLines current cs).flatten = current.reverse ++ cs := by
  fun_induction splitLines current cs with
  | case1 current hempty => simp_all
  | case2 current hempty => simp
  | case3 current rest ih => simp [ih]
  | case4 current c rest hpair hend ih => simp [ih]
  | case5 current c rest hpair hend ih => simp [ih]

theorem stop_placeLines {lines : List (List Char)} (h : lines ≠ []) (o : Nat) :
    (placeLines o lines).getLast?.map Line.stop = some (o + lines.flatten.length) := by
  induction lines generalizing o with
  | nil => exact absurd rfl h
  | cons chars rest ih =>
    rw [placeLines, List.getLast?_cons, List.flatten_cons, List.length_append, ← Nat.add_assoc]
    rcases eq_or_ne rest [] with rfl | hrest
    · rfl
    · have hlast := ih hrest (o + chars.length)
      obtain ⟨last, hlast', hstop⟩ := Option.map_eq_some_iff.1 hlast
      rw [hlast', Option.getD_some, Option.map_some, hstop]

theorem splitLines_ne_nil (h : cs ≠ []) : splitLines [] cs ≠ [] := by
  intro hnil
  have hflat := flatten_splitLines [] cs
  rw [hnil] at hflat
  exact h hflat.symm

theorem offsets_sourceLines (source : String) :
    (sourceLines source).map Line.offset = 0 :: lineStarts 0 source.toList := by
  unfold sourceLines
  rcases eq_or_ne source.toList [] with hnil | hne
  · rw [hnil]
    rfl
  · have hoffsets : (placeLines 0 (splitLines [] source.toList)).map Line.offset =
        0 :: lineStarts 0 source.toList := offsets_placeLines (.inr hne) 0
    split
    · next hlines => exact absurd hlines (splitLines_ne_nil hne)
    · exact hoffsets

theorem stop_sourceLines (source : String) :
    ((sourceLines source).getLast?.map Line.stop).getD 0 = source.toList.length := by
  unfold sourceLines
  rcases eq_or_ne source.toList [] with hnil | hne
  · rw [hnil]
    rfl
  · have hstop := stop_placeLines (splitLines_ne_nil hne) 0
    rw [flatten_splitLines] at hstop
    split
    · next hlines => exact absurd hlines (splitLines_ne_nil hne)
    · rw [hstop]
      simp

/-! ## Places as counters -/

/-- The place of the character with number `n` in a text that starts at the place `p`, as a report
counts lines. -/
def placeFrom (p : Place) : List Char → Nat → Place
  | c :: rest, n + 1 => placeFrom (p.next (endsLine c rest)) rest n
  | _, _ => p

theorem placeFrom_zero (p : Place) (cs : List Char) : placeFrom p cs 0 = p := by
  cases cs <;> rfl

/-- The line is the number of starts up to the character, and the column is its distance from the
last one of them. -/
theorem placeFrom_eq (ho : o ≤ pos) (hn : n ≤ cs.length) :
    placeFrom ⟨l, pos - o + 1⟩ cs n =
      ⟨l + (lineStarts pos cs).countP (· ≤ pos + n),
        pos + n -
          ((o :: lineStarts pos cs)[(lineStarts pos cs).countP (· ≤ pos + n)]?).getD 0 + 1⟩ := by
  induction cs generalizing pos n l o with
  | nil =>
    obtain rfl : n = 0 := Nat.le_zero.1 hn
    rfl
  | cons c rest ih =>
    cases n with
    | zero =>
      have hnone : (lineStarts pos (c :: rest)).countP (· ≤ pos + 0) = 0 := by
        refine List.countP_eq_zero.2 fun start hstart => ?_
        have := lt_of_mem_lineStarts hstart
        rw [decide_eq_true_eq]
        omega
      rw [placeFrom_zero, hnone]
      rfl
    | succ n =>
      have hstep : pos + (n + 1) = pos + 1 + n := by omega
      rw [placeFrom, lineStarts, hstep]
      cases hends : endsLine c rest with
      | true =>
        have hplace : Place.next ⟨l, pos - o + 1⟩ true = ⟨l + 1, pos + 1 - (pos + 1) + 1⟩ := by
          simp [Place.next]
        rw [hplace, ih (Nat.le_refl _) (Nat.le_of_succ_le_succ hn), if_pos rfl,
          List.countP_cons_of_pos (by simp), List.getElem?_cons_succ, Nat.add_assoc l,
          Nat.add_comm 1]
      | false =>
        have hplace : Place.next ⟨l, pos - o + 1⟩ false = ⟨l, pos + 1 - o + 1⟩ := by
          simp only [Place.next, Bool.false_eq_true, if_false, Place.mk.injEq, true_and]
          omega
        rw [hplace, ih (Nat.le_succ_of_le ho) (Nat.le_of_succ_le_succ hn),
          if_neg Bool.false_ne_true]

def placeAt (cs : List Char) (n : Nat) : Place := placeFrom ⟨1, 1⟩ cs n

theorem placeAt_eq (hn : n ≤ cs.length) : placeAt cs n =
    ⟨(lineStarts 0 cs).countP (· ≤ n) + 1,
      n - ((0 :: lineStarts 0 cs)[(lineStarts 0 cs).countP (· ≤ n)]?).getD 0 + 1⟩ := by
  have hplace := placeFrom_eq (l := 1) (Nat.le_refl 0) hn
  simp only [Nat.zero_add] at hplace
  rw [placeAt, hplace, Nat.add_comm 1]

theorem lineOf?_sourceLines (source : String) (n : Nat) :
    lineOf? (sourceLines source) n =
      if n ≤ source.toList.length then some ((placeAt source.toList n).line - 1) else none := by
  have hcount : (sourceLines source).countP (·.offset ≤ n) =
      (0 :: lineStarts 0 source.toList).countP (· ≤ n) := by
    rw [← offsets_sourceLines, List.countP_map]
    rfl
  unfold lineOf?
  rw [stop_sourceLines, hcount, List.countP_cons_of_pos (by simp)]
  dsimp only
  split_ifs with hn
  · rw [placeAt_eq hn]
  · rfl

theorem column_sourceLines {source : String} (hn : n ≤ source.toList.length) :
    n - (((sourceLines source)[(placeAt source.toList n).line - 1]?.map Line.offset).getD 0) + 1 =
      (placeAt source.toList n).column := by
  rw [placeAt_eq hn, ← List.getElem?_map, offsets_sourceLines, Nat.add_sub_cancel]

/-! ## Moving on in a text -/

theorem placeFrom_append (p : Place) (front back : List Char) (d : Nat) :
    placeFrom p (front ++ back) (front.length + d) =
      placeFrom (placeFrom p (front ++ back) front.length) back d := by
  induction front generalizing p with
  | nil => rw [List.length_nil, Nat.zero_add, placeFrom_zero]; rfl
  | cons c front ih =>
    rw [List.cons_append, List.length_cons, Nat.add_right_comm, placeFrom, placeFrom, ih]

theorem placeFrom_mono (p : Place) (h : d ≤ cs.length) :
    p.line < (placeFrom p cs d).line ∨ placeFrom p cs d = ⟨p.line, p.column + d⟩ := by
  induction cs generalizing p d with
  | nil =>
    obtain rfl : d = 0 := Nat.le_zero.1 h
    exact .inr rfl
  | cons c rest ih =>
    cases d with
    | zero => exact .inr rfl
    | succ d =>
      have hd := Nat.le_of_succ_le_succ h
      rw [placeFrom]
      cases endsLine c rest with
      | true =>
        refine .inl ?_
        rcases ih (p.next true) hd with hlt | heq
        · exact Nat.lt_of_succ_lt hlt
        · rw [heq]
          exact Nat.lt_succ_self p.line
      | false =>
        rcases ih (p.next false) hd with hlt | heq
        · exact .inl hlt
        · refine .inr (heq.trans ?_)
          rw [Place.next, if_neg Bool.false_ne_true, Nat.add_assoc, Nat.add_comm 1]

/-! ## Line feeds alone -/

/-- The place behind a text in which line feeds end the lines. -/
def placeBehind (cs : List Char) : Place :=
  ⟨cs.count '\n' + 1, (cs.reverse.takeWhile (· != '\n')).length + 1⟩

/-- The same as a counter that starts at the place `p`. -/
def feedFrom (p : Place) : List Char → Place
  | [] => p
  | c :: rest => feedFrom (p.next (c == '\n')) rest

theorem feedFrom_concat (p : Place) (cs : List Char) (c : Char) :
    feedFrom p (cs ++ [c]) = (feedFrom p cs).next (c == '\n') := by
  induction cs generalizing p with
  | nil => rfl
  | cons d cs ih => exact ih _

theorem placeBehind_eq (cs : List Char) : placeBehind cs = feedFrom ⟨1, 1⟩ cs := by
  induction cs using List.reverseRecOn with
  | nil => rfl
  | append_singleton cs c ih =>
    rw [feedFrom_concat, ← ih]
    by_cases hc : c = '\n' <;> simp [placeBehind, Place.next, hc]

/-- How many characters, in front of `after`, end a line and are no line feeds. -/
def strays (after : List Char) : List Char → Nat
  | [] => 0
  | c :: rest => (if endsLine c (rest ++ after) && c != '\n' then 1 else 0) + strays after rest

theorem followed_of_cons (hend : after = [] → (c :: before).getLast? ≠ some '\n') :
    (c = '\n' → endsLine c (before ++ after) = true) ∧
      (after = [] → before.getLast? ≠ some '\n') := by
  constructor
  · rintro rfl
    refine endsLine_feed fun hnil => ?_
    obtain ⟨rfl, hafter⟩ := List.append_eq_nil_iff.1 hnil
    exact hend hafter rfl
  · intro hafter hlast
    exact hend hafter (by rw [List.getLast?_cons, hlast, Option.getD_some])

theorem line_placeFrom (p q : Place) (hend : after = [] → before.getLast? ≠ some '\n') :
    (placeFrom p (before ++ after) before.length).line + q.line =
      (feedFrom q before).line + p.line + strays after before := by
  induction before generalizing p q with
  | nil =>
    rw [List.length_nil, placeFrom_zero, feedFrom, strays, Nat.add_zero, Nat.add_comm]
  | cons c before ih =>
    obtain ⟨hfeed, hrest⟩ := followed_of_cons hend
    have hnext := ih (p.next (endsLine c (before ++ after))) (q.next (c == '\n')) hrest
    rw [List.cons_append, List.length_cons, placeFrom, feedFrom, strays]
    by_cases hc : c = '\n'
    · subst hc
      simp only [hfeed rfl, beq_self_eq_true, bne_self_eq_false, Bool.and_false,
        Bool.false_eq_true, if_false, Place.next, if_true] at hnext ⊢
      omega
    · cases hends : endsLine c (before ++ after) <;>
        simp [hends, hc, Place.next] at hnext ⊢ <;> omega

theorem placeFrom_eq_feedFrom (p : Place) (hend : after = [] → before.getLast? ≠ some '\n')
    (h : strays after before = 0) :
    placeFrom p (before ++ after) before.length = feedFrom p before := by
  induction before generalizing p with
  | nil => exact placeFrom_zero p after
  | cons c before ih =>
    obtain ⟨hfeed, hrest⟩ := followed_of_cons hend
    obtain ⟨hc, hstrays⟩ := Nat.add_eq_zero_iff.1 h
    have hsame : endsLine c (before ++ after) = (c == '\n') := by
      by_cases hc' : c = '\n'
      · rw [hfeed hc', hc', beq_self_eq_true]
      · rw [beq_false_of_ne hc']
        simpa [hc'] using hc
    rw [List.cons_append, List.length_cons, placeFrom, feedFrom, hsame, ih _ hrest hstrays]

theorem placeAt_eq_placeBehind_iff (hend : after = [] → before.getLast? ≠ some '\n')
    (hd : d ≤ after.length) :
    placeAt (before ++ after) (before.length + d) = placeBehind before ↔
      d = 0 ∧ strays after before = 0 := by
  have hline := line_placeFrom ⟨1, 1⟩ ⟨1, 1⟩ hend
  rw [placeAt, placeFrom_append, placeBehind_eq]
  constructor
  · intro h
    rcases placeFrom_mono (placeFrom ⟨1, 1⟩ (before ++ after) before.length) hd with hlt | heq
    · rw [h] at hlt
      dsimp only at hline
      omega
    · rw [h] at heq
      have hlines := congrArg Place.line heq
      dsimp only at hline hlines
      have hstrays : strays after before = 0 := by omega
      rw [placeFrom_eq_feedFrom _ hend hstrays] at heq
      have hcolumns := congrArg Place.column heq
      dsimp only at hcolumns
      exact ⟨by omega, hstrays⟩
  · rintro ⟨rfl, hstrays⟩
    rw [placeFrom_zero, placeFrom_eq_feedFrom _ hend hstrays]

/-- Whether each line end of a text is a line feed, alone or behind a carriage return. -/
def OnlyFeeds (cs : List Char) : Prop :=
  ∀ front c back, cs = front ++ c :: back → isLineEnd c →
    c = '\n' ∨ (c = '\r' ∧ back.head? = some '\n')

theorem onlyFeeds_nil : OnlyFeeds [] := fun front c back h => absurd h (by simp)

theorem onlyFeeds_cons : OnlyFeeds (c :: cs) ↔
    (isLineEnd c → c = '\n' ∨ (c = '\r' ∧ cs.head? = some '\n')) ∧ OnlyFeeds cs := by
  constructor
  · intro h
    refine ⟨h [] c cs rfl, fun front d back hcs => h (c :: front) d back ?_⟩
    rw [hcs, List.cons_append]
  · rintro ⟨hhead, htail⟩ front d back hcs
    cases front with
    | nil =>
      obtain ⟨rfl, rfl⟩ := List.cons.inj hcs
      exact hhead
    | cons x front => exact htail front d back (List.cons.inj hcs).2

theorem endsLine_iff (hlast : after = [] → ∀ x ∈ (c :: before).getLast?, ¬ isLineEnd x)
    (hfirst : after.head? ≠ some '\n') :
    endsLine c (before ++ after) ↔ isLineEnd c ∧ ¬ (c = '\r' ∧ before.head? = some '\n') := by
  cases before with
  | nil =>
    cases after with
    | nil => simp [endsLine, hlast rfl c rfl]
    | cons d after =>
      have hd : d ≠ '\n' := fun hd => hfirst (hd ▸ rfl)
      simp [endsLine, hd]
  | cons d before =>
    simp only [endsLine, List.cons_append, List.isEmpty_cons, List.head?_cons, Bool.and_eq_true,
      Bool.not_false, and_true, Bool.not_eq_true', Bool.and_eq_false_iff, beq_eq_false_iff_ne,
      not_and_or]

theorem strays_eq_zero_iff (hlast : after = [] → ∀ x ∈ before.getLast?, ¬ isLineEnd x)
    (hfirst : after.head? ≠ some '\n') : strays after before = 0 ↔ OnlyFeeds before := by
  induction before with
  | nil => exact iff_of_true rfl onlyFeeds_nil
  | cons c before ih =>
    have hrest (hafter : after = []) : ∀ x ∈ before.getLast?, ¬ isLineEnd x := fun x hx =>
      hlast hafter x (by rw [List.getLast?_cons, Option.mem_def.1 hx]; rfl)
    have hends := endsLine_iff hlast hfirst
    rw [strays, Nat.add_eq_zero_iff, ih hrest, onlyFeeds_cons]
    refine and_congr_left fun _ => ?_
    simp only [ite_eq_right_iff, Nat.one_ne_zero, imp_false, Bool.and_eq_true, hends, bne_iff_ne,
      not_and, not_not, and_imp, or_iff_not_imp_right]

end Stencil.Source
