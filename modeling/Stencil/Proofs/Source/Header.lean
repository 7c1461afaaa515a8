import Stencil.Proofs.Source.Lines
import Stencil.Proofs.Source.Spans
import Stencil.Proofs.Source.Viability

/-! # The place that a report names

The header of a report names the place of a character, and takes for the number of the character
what the error gives as its start: the number of bytes in front of it. The two are the same in front
of the first character of more than one byte. Behind it the header names a place too far on, or, if
there are not that many characters, the report has no header at all.
-/
namespace Stencil.Source

variable {source file headline text : String} {label : Label} {e : ParseError}
  {place place' : Place} {c : Char} {cs before after : List Char}

/-! ## Headers -/

/-- The text is a report with a header, which shows the name of a file and a place. -/
def Shows (text headline file : String) (place : Place) : Prop :=
  ∃ width rest, text = paint .red "Error:" ++ " " ++ headline ++ "\n" ++ "".pushn ' ' width ++
    paint .margin "╭" ++ paint .margin "─" ++ paint .margin "[" ++ file ++ ":" ++
    toString place.line ++ ":" ++ toString place.column ++ paint .margin "]" ++ rest

theorem eq_of_append_cons {front front' back back' : List Char} (hfront : c ∉ front)
    (hfront' : c ∉ front') (h : front ++ c :: back = front' ++ c :: back') :
    front = front' ∧ back = back' := by
  rcases List.append_eq_append_iff.1 h with ⟨mid, rfl, hmid⟩ | ⟨mid, rfl, hmid⟩
  · cases mid with
    | nil => exact ⟨(List.append_nil _).symm, (List.cons.inj hmid).2⟩
    | cons x mid =>
      obtain ⟨rfl, _⟩ := List.cons.inj hmid
      exact absurd (List.mem_append_right front List.mem_cons_self) hfront'
  · cases mid with
    | nil => exact ⟨List.append_nil _, (List.cons.inj hmid).2.symm⟩
    | cons x mid =>
      obtain ⟨rfl, _⟩ := List.cons.inj hmid
      exact absurd (List.mem_append_right front' List.mem_cons_self) hfront

theorem toList_pushn (n : Nat) : ("".pushn ' ' n).toList = List.replicate n ' ' := by
  induction n with
  | zero => rfl
  | succ n ih =>
    have hpush : "".pushn ' ' (n + 1) = ("".pushn ' ' n).push ' ' := rfl
    rw [hpush, String.toList_push, ih, List.replicate_succ']

theorem not_mem_toString (hc : c.isDigit = false) (n : Nat) : c ∉ (toString n).toList := by
  intro hmem
  rw [Nat.toString_eq_repr, Nat.toList_repr] at hmem
  have hdigit := Nat.isDigit_of_mem_toDigits (by decide) (Nat.le_refl 10) hmem
  rw [hc] at hdigit
  cases hdigit

theorem exists_paint (ink : Ink) (text : String) :
    ∃ cs, (paint ink text).toList = '\x1b' :: cs := by
  refine ⟨'[' :: (ink.code ++ "m" ++ text ++ "\x1b[0m").toList, ?_⟩
  simp [paint]

/-- No text shows two places. -/
theorem Shows.unique (h : Shows text headline file place) (h' : Shows text headline file place') :
    place = place' := by
  obtain ⟨width, rest, htext⟩ := h
  obtain ⟨width', rest', htext'⟩ := h'
  obtain ⟨corner, hcorner⟩ := exists_paint .margin "╭"
  obtain ⟨close, hclose⟩ := exists_paint .margin "]"
  have hlist := congrArg String.toList (htext.symm.trans htext')
  simp only [String.toList_append, List.append_assoc, List.append_cancel_left_eq, toList_pushn,
    hcorner, hclose, List.cons_append] at hlist
  -- the blanks end at the first escape, the line at the colon and the column at the next escape
  have hblank (n : Nat) : '\x1b' ∉ List.replicate n ' ' := by
    intro hmem
    exact absurd (List.eq_of_mem_replicate hmem) (by decide)
  obtain ⟨_, hrest⟩ := eq_of_append_cons (hblank width) (hblank width') hlist
  simp only [List.append_cancel_left_eq] at hrest
  obtain ⟨hline, hrest⟩ := eq_of_append_cons (not_mem_toString (by decide) place.line)
    (not_mem_toString (by decide) place'.line) hrest
  obtain ⟨hcolumn, _⟩ := eq_of_append_cons (not_mem_toString (by decide) place.column)
    (not_mem_toString (by decide) place'.column) hrest
  have hinj {m n : Nat} (hmn : (toString m).toList = (toString n).toList) : m = n := by
    simp only [Nat.toString_eq_repr, Nat.toList_repr] at hmn
    have hread := congrArg (Nat.ofDigitChars 10 · 0) hmn
    simpa only [Nat.ofDigitChars_toDigits (Nat.one_lt_succ_succ 8) (Nat.le_refl 10)] using hread
  obtain ⟨line, column⟩ := place
  obtain ⟨line', column'⟩ := place'
  exact congrArg₂ Place.mk (hinj hline) (hinj hcolumn)

theorem Shows.append (h : Shows text headline file place) (more : String) :
    Shows (text ++ more) headline file place := by
  obtain ⟨width, rest, rfl⟩ := h
  exact ⟨width, rest ++ more, String.append_assoc ..⟩

theorem lineOf?_eq_some {n : Nat} (h : n ≤ source.toList.length) :
    lineOf? (sourceLines source) n = some ((placeAt source.toList n).line - 1) := by
  rw [lineOf?_sourceLines, if_pos h]

theorem lineOf?_eq_none {n : Nat} (h : ¬ n ≤ source.toList.length) :
    lineOf? (sourceLines source) n = none := by
  rw [lineOf?_sourceLines, if_neg h]

theorem shows_report (hlast : label.last ≤ source.toList.length) :
    Shows (report source file headline label) headline file
      (placeAt source.toList label.start) := by
  have hstart : label.start ≤ source.toList.length := Nat.le_trans (Nat.le_max_left ..) hlast
  have hline : (placeAt source.toList label.start).line - 1 + 1 =
      (placeAt source.toList label.start).line := by
    rw [placeAt_eq hstart, Nat.add_sub_cancel]
  rw [report]
  simp only [lineOf?_eq_some hstart, lineOf?_eq_some hlast, column_sourceLines hstart, hline]
  -- seven more pieces stand behind the header
  iterate 7 refine Shows.append ?_ _
  exact ⟨_, "", String.append_empty.symm⟩

theorem not_shows_report (hlast : ¬ label.last ≤ source.toList.length) (place : Place) :
    ¬ Shows (report source file headline label) headline file place := by
  have hreport : report source file headline label =
      paint .red "Error:" ++ " " ++ headline ++ "\n" := by
    rw [report, lineOf?_eq_none hlast]
    cases lineOf? (sourceLines source) label.start <;> rfl
  rintro ⟨width, rest, htext⟩
  have hlength := congrArg String.length (hreport.symm.trans htext)
  have hcolon : ":".length = 1 := rfl
  simp only [String.length_append, hcolon] at hlength
  omega

theorem shows_report_iff : Shows (report source file headline label) headline file place ↔
    label.last ≤ source.toList.length ∧ place = placeAt source.toList label.start := by
  by_cases hlast : label.last ≤ source.toList.length
  · have hshows : Shows (report source file headline label) headline file
        (placeAt source.toList label.start) := shows_report hlast
    exact ⟨fun h => ⟨hlast, h.unique hshows⟩, fun h => h.2 ▸ hshows⟩
  · exact ⟨fun h => absurd h (not_shows_report hlast place), fun h => absurd h.1 hlast⟩

/-! ## Where an error is -/

theorem length_le_bytes (cs : List Char) : cs.length ≤ bytes cs := by
  induction cs with
  | nil => exact Nat.le_refl 0
  | cons c cs ih =>
    have hc := Char.utf8Size_pos c
    rw [List.length_cons, bytes]
    omega

theorem bytes_eq_length_iff : bytes cs = cs.length ↔ ∀ c ∈ cs, c.utf8Size = 1 := by
  induction cs with
  | nil => exact iff_of_true rfl nofun
  | cons c cs ih =>
    have hc := Char.utf8Size_pos c
    have hle := length_le_bytes cs
    rw [List.forall_mem_cons, ← ih, bytes, List.length_cons]
    omega

theorem cut_unique {before' after' : List Char} (h : before ++ after = before' ++ after')
    (hbytes : bytes before = bytes before') : before = before' := by
  have hnil {front more : List Char} (hmore : bytes front = bytes (front ++ more)) : more = [] := by
    by_contra hne
    have hpos := bytes_pos hne
    rw [bytes_append] at hmore
    omega
  rcases List.append_eq_append_iff.1 h with ⟨more, rfl, _⟩ | ⟨more, rfl, _⟩
  · rw [hnil hbytes, List.append_nil]
  · rw [hnil hbytes.symm, List.append_nil]

theorem span_of_error (h : parse source = .error e) :
    ∃ l ∈ lex source, e.span = l.span ∨ e.span = ⟨source.utf8ByteSize, l.span.stop⟩ := by
  rcases hrun : State.start.run (lex source) with ⟨s, _ | ⟨lexeme, rest⟩⟩
  · cases hs : s.result? with
    | some declarations =>
      simp only [parse, hrun, hs] at h
      cases h
    | none =>
      cases hlast : (lex source).getLast? with
      | none =>
        rw [List.getLast?_eq_none_iff.1 hlast] at hrun
        cases hrun
        cases hs
      | some last =>
        rw [parse_of_unfinished hrun hs, hlast] at h
        cases h
        exact ⟨last, List.mem_of_getLast? hlast, .inr rfl⟩
  · have hmem : lexeme ∈ lex source := by
      obtain ⟨front, hlex, _⟩ := State.run_split hrun
      rw [hlex]
      exact List.mem_append_right front List.mem_cons_self
    rw [parse_of_refused hrun] at h
    cases h
    exact ⟨lexeme, hmem, .inl rfl⟩

theorem not_isLineEnd_of_visible (h : 33 ≤ c.toNat ∧ c.toNat ≤ 126) : ¬ isLineEnd c := by
  have hne {d : Char} (hd : ¬ (33 ≤ d.toNat ∧ d.toNat ≤ 126)) : c ≠ d := by
    rintro rfl
    exact hd h
  simp [isLineEnd, hne]

/-- The start of an error cuts the source between two characters. Behind it stands a token, or in
front of it if nothing follows the last one. -/
theorem exists_cut_of_error (h : parse source = .error e) :
    ∃ before after, source.toList = before ++ after ∧ bytes before = e.span.start ∧
      (∀ c ∈ after.head?, ¬ isLineEnd c) ∧
      (e.span.start ≤ e.span.stop → after = [] → ∀ c ∈ before.getLast?, ¬ isLineEnd c) := by
  obtain ⟨l, hl, hspan⟩ := span_of_error h
  obtain ⟨front, spelled, back, hcut, hpiece, hl⟩ := cutFrom_of_mem_lexFrom hl
  rw [hl, Nat.zero_add] at hspan
  have hne : spelled ≠ [] := hpiece.ne_nil
  obtain ⟨hfirst, hlast⟩ := hpiece.visible
  rcases hspan with hspan | hspan <;> rw [hspan]
  · refine ⟨front, spelled ++ back, hcut, rfl, fun c hc => ?_, fun _ hnil => ?_⟩
    · rw [List.head?_append_of_ne_nil spelled hne] at hc
      exact not_isLineEnd_of_visible (hfirst c hc)
    · exact absurd (List.append_eq_nil_iff.1 hnil).1 hne
  · refine ⟨source.toList, [], (List.append_nil _).symm, bytes_eq_utf8ByteSize source, nofun,
      fun hle _ c hc => ?_⟩
    -- nothing is left behind the last token, so the source ends with it
    have hback : bytes back = 0 := by
      rw [← bytes_eq_utf8ByteSize, hcut, bytes_append, bytes_append] at hle
      dsimp only at hle
      omega
    obtain rfl : back = [] := by
      by_contra hback'
      exact absurd (bytes_pos hback') (by omega)
    rw [hcut, List.append_nil, List.getLast?_append_of_ne_nil front hne] at hc
    exact not_isLineEnd_of_visible (hlast c hc)

/-- **The place of an error.** The text in front of an error ends between two characters. The report
shows the place behind that text exactly if each of its characters takes one byte, its lines end in
line feeds, and the label ends in the source when its bytes are counted as characters. -/
theorem shows_report_error_iff (h : parse source = .error e)
    (hspan : e.span.start ≤ e.span.stop) :
    ∃ before after, source.toList = before ++ after ∧ bytes before = e.span.start ∧
      (Shows (e.report source file) e.message file (placeBehind before) ↔
        (∀ c ∈ before, c.utf8Size = 1) ∧ OnlyFeeds before ∧
          e.span.stop ≤ source.toList.length + 1) := by
  obtain ⟨before, after, hcut, hbytes, hfirst, hlast⟩ := exists_cut_of_error h
  refine ⟨before, after, hcut, hbytes, ?_⟩
  have hfeed : after = [] → before.getLast? ≠ some '\n' := fun hnil hfeed =>
    hlast hspan hnil '\n' hfeed (by decide)
  have hfirst' : after.head? ≠ some '\n' := fun hfeed => hfirst '\n' hfeed (by decide)
  rw [ParseError.report, shows_report_iff, ← strays_eq_zero_iff (hlast hspan) hfirst',
    ← bytes_eq_length_iff, hcut, eq_comm (a := placeBehind before), Label.last, hbytes]
  obtain ⟨d, hd⟩ := Nat.exists_eq_add_of_le (hbytes ▸ length_le_bytes before)
  rw [hd, List.length_append, Nat.max_le]
  dsimp only
  constructor
  · rintro ⟨⟨hstart, hstop⟩, hplace⟩
    obtain ⟨rfl, hstrays⟩ := (placeAt_eq_placeBehind_iff hfeed (by omega)).1 hplace
    exact ⟨rfl, hstrays, by omega⟩
  · rintro ⟨hone, hstrays, hstop⟩
    obtain rfl : d = 0 := by omega
    exact ⟨⟨by omega, by omega⟩,
      (placeAt_eq_placeBehind_iff hfeed (Nat.zero_le _)).2 ⟨rfl, hstrays⟩⟩

/-- Two strings where a template has one root. -/
def pairSource : String := "template A \x7b\r\n  \"a\" \"é\"\n\x7d"

theorem parse_pair : parse pairSource =
    .error ⟨⟨20, 24⟩, some (.string "é"), [.token (.mark .braceClose)]⟩ := by
  with_unfolding_all rfl

theorem shows_report_error_iff_pair :
    parse pairSource = .error ⟨⟨20, 24⟩, some (.string "é"), [.token (.mark .braceClose)]⟩ ∧
      Shows (ParseError.report ⟨⟨20, 24⟩, some (.string "é"), [.token (.mark .braceClose)]⟩
        pairSource "page.slot") "Unexpected string \"é\"" "page.slot" ⟨2, 7⟩ := by
  refine ⟨parse_pair, ?_⟩
  obtain ⟨before, after, hcut, hbytes, hshows⟩ :=
    @shows_report_error_iff pairSource "page.slot" _ parse_pair (by decide)
  have hsource : pairSource.toList =
      "template A \x7b\r\n  \"a\" ".toList ++ "\"é\"\n\x7d".toList := by
    decide +kernel
  obtain rfl := cut_unique (hcut.symm.trans hsource) (hbytes.trans (by decide +kernel))
  have hplace : placeBehind "template A \x7b\r\n  \"a\" ".toList = ⟨2, 7⟩ := by decide +kernel
  rw [hplace] at hshows
  refine hshows.2 ⟨?_, ?_, ?_⟩
  · exact bytes_eq_length_iff.1 (by decide +kernel)
  · simp [onlyFeeds_cons, onlyFeeds_nil, isLineEnd]
  · decide

/-- Behind a character of two bytes the report names the column behind the right one. -/
theorem not_shows_report_accented :
    ¬ ∀ (source file : String) (e : ParseError) (before after : List Char),
      parse source = .error e → source.toList = before ++ after → bytes before = e.span.start →
      Shows (e.report source file) e.message file (placeBehind before) := by
  intro h
  have hparse : parse "template A \x7b \"é\" p \x7d" =
      .error ⟨⟨18, 19⟩, some (.word "p"), [.token (.mark .braceClose)]⟩ := by
    with_unfolding_all rfl
  have hplace := (shows_report_iff.1 (h _ "page.slot" _ "template A \x7b \"é\" ".toList
    "p \x7d".toList hparse (by decide +kernel) (by decide +kernel))).2
  revert hplace
  decide

end Stencil.Source
