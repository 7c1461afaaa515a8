import Stencil.Markup.Tag
import Stencil.Markup.Token

/-! # Reading what was written

Tags that were written with proper names and keys are read as tags again. Text without an opening
bracket is passed over, whatever references and line ends are in it.
-/
namespace Stencil.Markup
variable {p : Char → Bool} {c q : Char} {cs key value rest : List Char}

theorem takeWhile_stop (h : ∀ c ∈ cs, p c) (hc : p c = false) :
    (cs ++ c :: rest).takeWhile p = cs := by
  rw [List.takeWhile_append_of_pos h, List.takeWhile_cons, hc]
  simp

theorem dropWhile_stop (h : ∀ c ∈ cs, p c) (hc : p c = false) :
    (cs ++ c :: rest).dropWhile p = c :: rest := by
  rw [List.dropWhile_append_of_pos h, List.dropWhile_cons, hc]
  simp

/-! ## Line ends -/

theorem unifyLineEnds_cons (hc : c ≠ '\r') (rest : List Char) :
    unifyLineEnds (c :: rest) = c :: unifyLineEnds rest := by
  rw [unifyLineEnds]
  · rintro rest rfl
    exact absurd rfl hc
  · rintro rfl
    exact absurd rfl hc

theorem unifyLineEnds_append (h : '\r' ∉ cs) (rest : List Char) :
    unifyLineEnds (cs ++ rest) = cs ++ unifyLineEnds rest := by
  induction cs with
  | nil => rfl
  | cons c cs ih =>
    rw [List.mem_cons, not_or] at h
    rw [List.cons_append, unifyLineEnds_cons (Ne.symm h.1), ih h.2, List.cons_append]

theorem unifyLineEnds_return (h : rest.head? ≠ some '\n') :
    unifyLineEnds ('\r' :: rest) = '\n' :: unifyLineEnds rest := by
  rw [unifyLineEnds]
  rintro rest rfl
  exact h rfl

theorem unifyLineEnds_append_cons (hc : c ≠ '\n') (hc' : c ≠ '\r') (cs rest : List Char) :
    unifyLineEnds (cs ++ c :: rest) = unifyLineEnds cs ++ c :: unifyLineEnds rest := by
  fun_induction unifyLineEnds cs with
  | case1 cs ih =>
    rw [List.cons_append, List.cons_append, unifyLineEnds, ih, List.cons_append]
  | case2 cs hcs ih =>
    rw [List.cons_append, unifyLineEnds_return, ih, List.cons_append]
    cases cs with
    | nil => exact fun h => hc (Option.some.inj h)
    | cons d cs =>
      intro h
      obtain rfl := Option.some.inj h
      exact hcs cs rfl
  | case3 d cs _ hd ih =>
    rw [List.cons_append, unifyLineEnds_cons, ih, List.cons_append]
    rintro rfl
    exact hd rfl
  | case4 => exact unifyLineEnds_cons hc' rest

theorem mem_unifyLineEnds (h : c ∈ unifyLineEnds cs) : c ∈ cs ∨ c = '\n' := by
  fun_induction unifyLineEnds cs with
  | case1 cs ih =>
    rcases List.mem_cons.1 h with rfl | h
    · exact .inr rfl
    · exact (ih h).imp_left fun hm => List.mem_cons_of_mem _ (List.mem_cons_of_mem _ hm)
  | case2 cs _ ih =>
    rcases List.mem_cons.1 h with rfl | h
    · exact .inr rfl
    · exact (ih h).imp_left (List.mem_cons_of_mem _)
  | case3 d cs _ _ ih =>
    rcases List.mem_cons.1 h with rfl | h
    · exact .inl List.mem_cons_self
    · exact (ih h).imp_left (List.mem_cons_of_mem _)
  | case4 => cases h

theorem dropWhile_unifyLineEnds (cs : List Char) :
    (unifyLineEnds cs).dropWhile (· != '<') = unifyLineEnds (cs.dropWhile (· != '<')) := by
  fun_induction unifyLineEnds cs with
  | case1 cs ih => exact ih
  | case2 cs _ ih => exact ih
  | case3 d cs _ hd ih =>
    rw [List.dropWhile_cons, List.dropWhile_cons]
    split
    · exact ih
    · rw [unifyLineEnds_cons]
      rintro rfl
      exact hd rfl
  | case4 => rfl

/-! ## Attributes -/

/-- What a key may be: it is not empty and holds no blank, slash, bracket or equals sign. -/
def IsKey (key : String) : Prop := key ≠ "" ∧ ∀ c ∈ key.toList, isKeyPart c ∧ c ≠ '\r'

instance (key : String) : Decidable (IsKey key) := inferInstanceAs (Decidable (_ ∧ _))

theorem attributeValue_quoted (hq : q = '"' ∨ q = '\'') (hv : q ∉ value) (rest : List Char) :
    attributeValue (q :: (value ++ q :: rest)) = some (valueOf value, rest) := by
  have hstop : ∀ c ∈ value, (c != q) = true := fun c hc => by
    rw [bne_iff_ne]
    rintro rfl
    exact hv hc
  have hqq : (q != q) = false := bne_self_eq_false q
  have htake : (value ++ q :: rest).takeWhile (· != q) = value := takeWhile_stop hstop hqq
  have hdrop : (value ++ q :: rest).dropWhile (· != q) = q :: rest := dropWhile_stop hstop hqq
  unfold attributeValue
  rcases hq with rfl | rfl
  · rw [List.dropWhile_cons, if_neg (by decide)]
    simp only [htake, hdrop]
  · rw [List.dropWhile_cons, if_neg (by decide)]
    simp only [htake, hdrop]

theorem attributeFrom_written (hkey : ∀ c ∈ key, isKeyPart c) (hq : q = '"' ∨ q = '\'')
    (hv : q ∉ value) (c : Char) (rest : List Char) :
    attributeFrom c (key ++ '=' :: q :: (value ++ q :: rest)) =
      some (nameOf (c :: key), valueOf value, rest) := by
  have hstop : isKeyPart '=' = false := by decide
  unfold attributeFrom
  rw [takeWhile_stop hkey hstop, dropWhile_stop hkey hstop, List.dropWhile_cons,
    if_neg (by decide)]
  simp only [attributeValue_quoted hq hv, Option.map_some]

def written (q : Char) (entries : List (List Char × List Char)) : List Char :=
  entries.flatMap fun e => ' ' :: (e.1 ++ '=' :: q :: (e.2 ++ [q]))

theorem tagRest_blank (read : NameMap String) (rest : List Char) :
    tagRest read (' ' :: rest) = tagRest read rest := by
  rw [tagRest.eq_def]
  rfl

theorem tagRest_attribute (hc : isKeyPart c) {more : List Char} {k v : String}
    (h : attributeFrom c more = some (k, v, rest)) (read : NameMap String) :
    tagRest read (c :: more) =
      tagRest (if read.contains k then read else read.insert k v) rest := by
  have hclose : c ≠ '>' := by
    rintro rfl
    exact absurd hc (by decide)
  have hslash : c ≠ '/' := by
    rintro rfl
    exact absurd hc (by decide)
  have hblank : (isTagBlank c || c == '/') = false := by
    rw [Bool.or_eq_false_iff]
    simp only [isKeyPart, isTagNamePart, Bool.and_eq_true, Bool.not_eq_true',
      Bool.or_eq_false_iff] at hc
    exact ⟨hc.1.1.1, hc.1.1.2⟩
  rw [tagRest]
  · rw [hblank, if_neg Bool.false_ne_true]
    split
    · next h' =>
      rw [h] at h'
      cases h'
    · next h' =>
      rw [h] at h'
      cases h'
      rfl
  · exact hclose
  · exact fun _ h _ => hslash h

def tagEnd (closing : Bool) : List Char := if closing then ['/', '>'] else ['>']

theorem tagRest_tagEnd (read : NameMap String) (closing : Bool) (rest : List Char) :
    tagRest read (tagEnd closing ++ rest) = some (read, closing, rest) := by
  cases closing <;> simp [tagEnd, tagRest]

def keep (read : NameMap String) (e : String × String) : NameMap String :=
  if read.contains e.1 then read else read.insert e.1 e.2

theorem tagRest_written (hq : q = '"' ∨ q = '\'') {entries : List (List Char × List Char)}
    (hkeys : ∀ e ∈ entries, e.1 ≠ [] ∧ ∀ c ∈ e.1, isKeyPart c)
    (hvalues : ∀ e ∈ entries, q ∉ e.2) (closing : Bool) (read : NameMap String)
    (rest : List Char) :
    tagRest read (written q entries ++ (tagEnd closing ++ rest)) =
      some ((entries.map fun e => (nameOf e.1, valueOf e.2)).foldl keep read, closing, rest) := by
  induction entries generalizing read with
  | nil => exact tagRest_tagEnd read closing rest
  | cons e entries ih =>
    obtain ⟨key, value⟩ := e
    obtain ⟨hne, hkey⟩ := hkeys (key, value) List.mem_cons_self
    cases key with
    | nil => exact absurd rfl hne
    | cons c key =>
      have hc := hkey c List.mem_cons_self
      have hv := hvalues (c :: key, value) List.mem_cons_self
      have hfrom := attributeFrom_written (fun d hd => hkey d (List.mem_cons_of_mem c hd)) hq hv c
        (written q entries ++ (tagEnd closing ++ rest))
      have hlist : written q ((c :: key, value) :: entries) ++ (tagEnd closing ++ rest) =
          ' ' :: c :: (key ++ '=' :: q ::
            (value ++ q :: (written q entries ++ (tagEnd closing ++ rest)))) := by
        simp [written]
      rw [hlist, tagRest_blank, tagRest_attribute hc hfrom,
        ih (fun e he => hkeys e (List.mem_cons_of_mem _ he))
          fun e he => hvalues e (List.mem_cons_of_mem _ he)]
      rfl

theorem unifyLineEnds_written (hq : q = '"' ∨ q = '\'') {entries : List (List Char × List Char)}
    (hkeys : ∀ e ∈ entries, '\r' ∉ e.1) (rest : List Char) :
    unifyLineEnds (written q entries ++ rest) =
      written q (entries.map fun e => (e.1, unifyLineEnds e.2)) ++ unifyLineEnds rest := by
  have hfeed : q ≠ '\n' := by
    rcases hq with rfl | rfl <;> decide
  have hreturn : q ≠ '\r' := by
    rcases hq with rfl | rfl <;> decide
  induction entries with
  | nil => rfl
  | cons e entries ih =>
    have hlist : written q (e :: entries) ++ rest =
        ' ' :: (e.1 ++ '=' :: q :: (e.2 ++ q :: (written q entries ++ rest))) := by
      simp [written]
    rw [hlist, unifyLineEnds_cons (by decide), unifyLineEnds_append (hkeys e List.mem_cons_self),
      unifyLineEnds_cons (by decide), unifyLineEnds_cons hreturn,
      unifyLineEnds_append_cons hfeed hreturn,
      ih fun e he => hkeys e (List.mem_cons_of_mem _ he)]
    simp [written]

theorem unifyLineEnds_tagEnd (closing : Bool) (rest : List Char) :
    unifyLineEnds (tagEnd closing ++ rest) = tagEnd closing ++ unifyLineEnds rest :=
  unifyLineEnds_append (by cases closing <;> decide) rest

/-! ## Tags -/

/-- What a tag may be: a lower case ASCII letter with such letters, digits and hyphens behind it. -/
def IsWord (name : String) : Prop :=
  ∃ c cs, name.toList = c :: cs ∧ c.isLower ∧ ∀ d ∈ cs, d.isLower ∨ d.isDigit ∨ d = '-'

def isWordPart (c : Char) : Bool := c.isLower || c.isDigit || c == '-'

theorem IsWord.part {name : String} (h : IsWord name) : ∀ c ∈ name.toList, isWordPart c := by
  obtain ⟨c, cs, hname, hc, hcs⟩ := h
  intro d hd
  rw [hname] at hd
  unfold isWordPart
  rcases List.mem_cons.1 hd with rfl | hd
  · simp [hc]
  · rcases hcs d hd with h | h | h <;> simp [h]

theorem isWord_of_all {name : String} {cs : List Char} (hname : name.toList = c :: cs)
    (hc : c.isLower) (hcs : cs.all isWordPart) : IsWord name := by
  refine ⟨c, cs, hname, hc, fun d hd => ?_⟩
  have hpart := List.all_eq_true.1 hcs d hd
  simpa only [isWordPart, Bool.or_eq_true, beq_iff_eq, or_assoc] using hpart

theorem isTagNamePart_of_isWordPart (h : isWordPart c) : isTagNamePart c ∧ c ≠ '\r' := by
  constructor
  · refine Decidable.byContradiction fun hnot => ?_
    simp only [isTagNamePart, isTagBlank, Bool.not_eq_true', Bool.not_eq_false, Bool.or_eq_true,
      beq_iff_eq] at hnot
    rcases hnot with (((((rfl | rfl) | rfl) | rfl) | rfl) | rfl) <;> exact absurd h (by decide)
  · rintro rfl
    exact absurd h (by decide)

theorem isLower_eq (c : Char) :
    c.isLower = (decide (c.val ≥ 'a'.val) && decide (c.val ≤ 'z'.val)) := rfl

theorem isUpper_eq (c : Char) :
    c.isUpper = decide (c.val ≥ 'A'.val ∧ c.val ≤ 'Z'.val) := rfl

theorem isAlpha_of_isLower (h : c.isLower) : c.isAlpha = true :=
  show (c.isUpper || c.isLower) = true by rw [h, Bool.or_true]

theorem not_isUpper_of_isWordPart (h : isWordPart c) : ¬ c.isUpper := by
  intro hupper
  simp only [isWordPart, isLower_eq, Char.isDigit, Bool.or_eq_true, Bool.and_eq_true,
    decide_eq_true_iff, beq_iff_eq, ge_iff_le, UInt32.le_iff_toNat_le] at h
  simp only [isUpper_eq, decide_eq_true_iff, ge_iff_le, UInt32.le_iff_toNat_le] at hupper
  have hcodes : 'A'.val.toNat = 65 ∧ 'Z'.val.toNat = 90 ∧ 'a'.val.toNat = 97 ∧
      '0'.val.toNat = 48 ∧ '9'.val.toNat = 57 := by decide
  rcases h with (h | h) | rfl
  · omega
  · omega
  · exact absurd hupper.1 (by decide)

theorem toLower_of_not_isUpper (h : ¬ c.isUpper) : c.toLower = c := by
  rw [isUpper_eq, decide_eq_true_iff] at h
  exact dif_neg h

/-- A name that is read as it is written: it holds no NUL and no capital. -/
def IsLowered (name : String) : Prop := ∀ c ∈ name.toList, c ≠ '\x00' ∧ ¬ c.isUpper

instance (name : String) : Decidable (IsLowered name) :=
  inferInstanceAs (Decidable (∀ c ∈ name.toList, _))

theorem IsLowered.nameOf {name : String} (h : IsLowered name) : nameOf name.toList = name := by
  have hmap : name.toList.map (fun c => if c = '\x00' then replacement else c.toLower) =
      name.toList := by
    refine (List.map_congr_left fun c hc => ?_).trans (List.map_id _)
    rw [if_neg (h c hc).1, toLower_of_not_isUpper (h c hc).2]
    rfl
  rw [Markup.nameOf, hmap, String.ofList_toList]

theorem IsWord.isLowered {name : String} (h : IsWord name) : IsLowered name := by
  refine fun c hc => ⟨?_, not_isUpper_of_isWordPart (h.part c hc)⟩
  rintro rfl
  exact absurd (h.part _ hc) (by decide)

theorem nameOf_word {name : String} (h : IsWord name) : nameOf name.toList = name :=
  h.isLowered.nameOf

/-- What is read as a name of a tag: an ASCII letter, and no blank, slash or bracket behind it. -/
def IsTagName (name : String) : Prop :=
  ∃ c cs, name.toList = c :: cs ∧ c.isAlpha ∧ ∀ d ∈ c :: cs, isTagNamePart d ∧ d ≠ '\r'

theorem IsTagName.part {name : String} (h : IsTagName name) :
    ∀ c ∈ name.toList, isTagNamePart c ∧ c ≠ '\r' := by
  obtain ⟨c, cs, hname, _, hcs⟩ := h
  rwa [hname]

theorem IsWord.isTagName {name : String} (h : IsWord name) : IsTagName name := by
  have hpart := h.part
  obtain ⟨c, cs, hname, hc, _⟩ := h
  rw [hname] at hpart
  exact ⟨c, cs, hname, isAlpha_of_isLower hc, fun d hd => isTagNamePart_of_isWordPart (hpart d hd)⟩

theorem written_stop (q : Char) (entries : List (List Char × List Char)) (closing : Bool)
    (rest : List Char) :
    ∃ c more, written q entries ++ (tagEnd closing ++ rest) = c :: more ∧
      isTagNamePart c = false := by
  cases entries with
  | nil => cases closing <;> exact ⟨_, _, rfl, by decide⟩
  | cons e entries => exact ⟨' ', _, rfl, by decide⟩

theorem tag_written {name : String} (h : IsTagName name) (hq : q = '"' ∨ q = '\'')
    {entries : List (List Char × List Char)}
    (hkeys : ∀ e ∈ entries, e.1 ≠ [] ∧ ∀ c ∈ e.1, isKeyPart c)
    (hvalues : ∀ e ∈ entries, q ∉ e.2) (closing : Bool) (rest : List Char) :
    tag (name.toList ++ (written q entries ++ (tagEnd closing ++ rest))) =
      some (nameOf name.toList,
        Attributes.ofList ((entries.map fun e => (nameOf e.1, valueOf e.2)).foldl keep []),
        closing, rest) := by
  have hpart : ∀ c ∈ name.toList, isTagNamePart c := fun c hc => (h.part c hc).1
  have hread := tagRest_written hq hkeys hvalues closing [] rest
  obtain ⟨c, more, hmore, hc⟩ := written_stop q entries closing rest
  rw [hmore] at hread ⊢
  rw [tag, dropWhile_stop hpart hc, takeWhile_stop hpart hc, hread]
  rfl

theorem bracket_open {name found : String} (h : IsTagName name) {attributes : Attributes}
    {more : List Char} {closing : Bool}
    (ht : tag (name.toList ++ more) = some (found, attributes, closing, rest)) :
    bracket (name.toList ++ more) = ([.startTag found attributes closing], rest) := by
  obtain ⟨c, cs, hname, halpha, _⟩ := h
  rw [hname, List.cons_append] at ht ⊢
  have hne {d : Char} (hd : d.isAlpha = false) : c ≠ d := by
    rintro rfl
    rw [halpha] at hd
    cases hd
  rw [bracket]
  · rw [if_pos halpha, ht]
  · exact fun h _ => hne (by decide) h
  · exact fun _ h _ => hne (by decide) h
  · exact fun _ _ h _ => hne (by decide) h
  · exact fun _ h _ => hne (by decide) h
  · exact hne (by decide)
  · exact hne (by decide)

theorem bracket_close {name found : String} (h : IsTagName name) {attributes : Attributes}
    {more : List Char} {closing : Bool}
    (ht : tag (name.toList ++ more) = some (found, attributes, closing, rest)) :
    bracket ('/' :: (name.toList ++ more)) = ([.endTag found], rest) := by
  obtain ⟨c, cs, hname, halpha, _⟩ := h
  rw [hname, List.cons_append] at ht ⊢
  rw [bracket]
  · rw [if_pos halpha, ht]
  · rintro rfl
    cases halpha

/-! ## Written markup -/

theorem not_mem_escapedTextChar (c : Char) : '<' ∉ escapedTextChar c := by
  unfold escapedTextChar
  split
  · decide
  · decide
  · decide
  · next hopen _ =>
    rw [List.mem_singleton]
    rintro rfl
    exact hopen rfl

theorem not_mem_escapeText (text : String) : '<' ∉ (escapeText text).toList := by
  rw [escapeText, String.toList_ofList, List.mem_flatMap]
  rintro ⟨c, _, hc⟩
  exact not_mem_escapedTextChar c hc

theorem not_mem_escapedValueChar (quote : QuoteStyle) (c : Char) :
    quote.char ∉ escapedValueChar quote c := by
  unfold escapedValueChar
  split
  · cases quote <;> decide
  · cases quote <;> decide
  · decide
  · decide
  · next hdouble hsingle =>
    rw [List.mem_singleton]
    rintro rfl
    cases quote with
    | single => exact hsingle rfl rfl
    | double => exact hdouble rfl rfl

theorem not_mem_escapeValue (value : String) (quote : QuoteStyle) :
    quote.char ∉ (escapeValue value quote).toList := by
  rw [escapeValue, String.toList_ofList, List.mem_flatMap]
  rintro ⟨c, _, hc⟩
  exact not_mem_escapedValueChar quote c hc

theorem isQuote (quote : QuoteStyle) : quote.char = '"' ∨ quote.char = '\'' := by
  cases quote
  · exact .inr rfl
  · exact .inl rfl

/-- The keys and escaped values of attributes, as characters. -/
def entriesOf (attributes : Attributes) (quote : QuoteStyle) : List (List Char × List Char) :=
  attributes.entries.map fun e => (e.1.toList, (escapeValue e.2 quote).toList)

theorem toList_openTag (name : String) (attributes : Attributes) (quote : QuoteStyle)
    (closing : Bool) :
    (openTag name attributes quote closing).toList =
      '<' :: (name.toList ++ (written quote.char (entriesOf attributes quote) ++
        tagEnd closing)) := by
  have hattributes : (attributeText attributes quote).toList =
      written quote.char (entriesOf attributes quote) := by
    simp [attributeText, String.toList_join, written, entriesOf, List.flatMap_map]
  cases closing <;> simp [openTag, tagEnd, hattributes]

def HasKeys (attributes : Attributes) : Prop := ∀ e ∈ attributes.entries, IsKey e.1

theorem hasKeys_empty : HasKeys .empty := List.forall_mem_nil _

/-- The tokens of characters whose line ends are not yet unified. -/
def read (cs : List Char) : List Token := tokensOf (unifyLineEnds cs)

def readBack (attributes : Attributes) (quote : QuoteStyle) : Attributes :=
  .ofList ((attributes.entries.map fun e =>
    (nameOf e.1.toList, valueOf (unifyLineEnds (escapeValue e.2 quote).toList))).foldl keep [])

theorem read_openTag_eq {name : String} (h : IsTagName name) {attributes : Attributes}
    (hkeys : HasKeys attributes) (quote : QuoteStyle) (closing : Bool) (rest : List Char) :
    read ((openTag name attributes quote closing).toList ++ rest) =
      .startTag (nameOf name.toList) (readBack attributes quote) closing :: read rest := by
  have hreturn : '\r' ∉ name.toList := fun hr => (h.part '\r' hr).2 rfl
  have hentry : ∀ e ∈ entriesOf attributes quote,
      (e.1 ≠ [] ∧ ∀ c ∈ e.1, isKeyPart c ∧ c ≠ '\r') := by
    intro e he
    obtain ⟨a, ha, rfl⟩ := List.mem_map.1 he
    obtain ⟨hne, hchars⟩ := hkeys a ha
    exact ⟨fun hnil => hne (String.toList_eq_nil_iff.1 hnil), hchars⟩
  have hunifiedKeys : ∀ e ∈ (entriesOf attributes quote).map fun e => (e.1, unifyLineEnds e.2),
      e.1 ≠ [] ∧ ∀ c ∈ e.1, isKeyPart c := by
    intro e he
    obtain ⟨e', he', rfl⟩ := List.mem_map.1 he
    exact ⟨(hentry e' he').1, fun c hc => ((hentry e' he').2 c hc).1⟩
  have hunifiedValues : ∀ e ∈ (entriesOf attributes quote).map fun e => (e.1, unifyLineEnds e.2),
      quote.char ∉ e.2 := by
    intro e he hmem
    obtain ⟨e', he', rfl⟩ := List.mem_map.1 he
    obtain ⟨a, _, rfl⟩ := List.mem_map.1 he'
    rcases mem_unifyLineEnds hmem with hmem | hfeed
    · exact not_mem_escapeValue _ _ hmem
    · rcases isQuote quote with hq | hq <;> exact absurd (hq.symm.trans hfeed) (by decide)
  have htag := tag_written h (isQuote quote) hunifiedKeys hunifiedValues closing
    (unifyLineEnds rest)
  have hread : ((entriesOf attributes quote).map fun e => (e.1, unifyLineEnds e.2)).map
        (fun e => (nameOf e.1, valueOf e.2)) =
      attributes.entries.map fun e =>
        (nameOf e.1.toList, valueOf (unifyLineEnds (escapeValue e.2 quote).toList)) := by
    rw [entriesOf, List.map_map, List.map_map]
    rfl
  rw [hread] at htag
  have hunified := unifyLineEnds_written (isQuote quote)
    (fun e he hr => ((hentry e he).2 '\r' hr).2 rfl) (tagEnd closing ++ rest)
  rw [toList_openTag, read, List.cons_append, List.append_assoc, List.append_assoc,
    unifyLineEnds_cons (by decide), unifyLineEnds_append hreturn, hunified,
    unifyLineEnds_tagEnd, tokensOf, bracket_open h htag]
  rfl

theorem read_openTag {name : String} (h : IsWord name) {attributes : Attributes}
    (hkeys : HasKeys attributes) (quote : QuoteStyle) (closing : Bool) :
    ∃ found, ∀ rest, read ((openTag name attributes quote closing).toList ++ rest) =
      .startTag name found closing :: read rest := by
  refine ⟨readBack attributes quote, fun rest => ?_⟩
  rw [read_openTag_eq h.isTagName hkeys, nameOf_word h]

theorem read_closeTag_eq {name : String} (h : IsTagName name) (rest : List Char) :
    read ((closeTag name).toList ++ rest) = .endTag (nameOf name.toList) :: read rest := by
  have hreturn : '\r' ∉ name.toList := fun hr => (h.part '\r' hr).2 rfl
  have htag := tag_written h (.inl rfl) (show ∀ e ∈ [], _ from nofun) nofun false
    (unifyLineEnds rest)
  have hlist : (closeTag name).toList ++ rest = '<' :: '/' :: (name.toList ++ '>' :: rest) := by
    simp [closeTag]
  rw [hlist, read, unifyLineEnds_cons (by decide), unifyLineEnds_cons (by decide),
    unifyLineEnds_append hreturn, unifyLineEnds_cons (by decide), tokensOf]
  rw [show '>' :: unifyLineEnds rest = written '"' [] ++ (tagEnd false ++ unifyLineEnds rest) from
    rfl, bracket_close h htag]
  rfl

theorem read_closeTag {name : String} (h : IsWord name) (rest : List Char) :
    read ((closeTag name).toList ++ rest) = .endTag name :: read rest := by
  rw [read_closeTag_eq h.isTagName, nameOf_word h]

theorem unifyLineEnds_head (hc : c ≠ '<') (rest : List Char) :
    ∃ d more, unifyLineEnds (c :: rest) = d :: more ∧ d ≠ '<' := by
  by_cases hr : c = '\r'
  · subst hr
    by_cases hn : rest.head? = some '\n'
    · obtain ⟨rest, rfl⟩ := List.head?_eq_some_iff.1 hn
      exact ⟨'\n', _, rfl, by decide⟩
    · exact ⟨'\n', _, unifyLineEnds_return hn, by decide⟩
  · exact ⟨c, _, unifyLineEnds_cons hr rest, hc⟩

theorem read_text (hc : c ≠ '<') (rest : List Char) :
    ∃ s, read (c :: rest) = .text s :: read ((c :: rest).dropWhile (· != '<')) := by
  obtain ⟨d, more, hunified, hd⟩ := unifyLineEnds_head hc rest
  have hdrop := dropWhile_unifyLineEnds (c :: rest)
  rw [hunified, List.dropWhile_cons, if_pos (by simpa using hd)] at hdrop
  rw [read, read, hunified, tokensOf, hdrop]
  · exact ⟨_, rfl⟩
  · exact hd

/-- A run of text ends here: nothing follows it, or an opening bracket. -/
def EndsRun (rest : List Char) : Prop := rest = [] ∨ ∃ more, rest = '<' :: more

theorem unifyLineEnds_run (h : EndsRun rest) (cs : List Char) :
    unifyLineEnds (cs ++ rest) = unifyLineEnds cs ++ unifyLineEnds rest := by
  rcases h with rfl | ⟨more, rfl⟩
  · rw [List.append_nil, unifyLineEnds, List.append_nil]
  · rw [unifyLineEnds_append_cons (by decide) (by decide), unifyLineEnds_cons (by decide)]

/-- A run of text is read as the same token, whatever follows it. -/
theorem read_run (hne : cs ≠ []) (h : '<' ∉ cs) :
    ∃ s, ∀ rest, EndsRun rest → read (cs ++ rest) = .text s :: read rest := by
  have hopen {u : List Char} (hu : '<' ∉ u) : ∀ c ∈ u, (c != '<') = true := by
    intro c hc
    rw [bne_iff_ne]
    rintro rfl
    exact hu hc
  have hmem : '<' ∉ unifyLineEnds cs := by
    intro hmem
    rcases mem_unifyLineEnds hmem with hmem | hfeed
    · exact h hmem
    · exact absurd hfeed (by decide)
  obtain ⟨d, u, hu⟩ : ∃ d u, unifyLineEnds cs = d :: u := by
    obtain ⟨c, more, rfl⟩ := List.exists_cons_of_ne_nil hne
    rw [List.mem_cons, not_or] at h
    obtain ⟨d, u, hu, _⟩ := unifyLineEnds_head (Ne.symm h.1) more
    exact ⟨d, u, hu⟩
  rw [hu, List.mem_cons, not_or] at hmem
  refine ⟨String.ofList (decode false (d :: u)), fun rest hrest => ?_⟩
  have hspan : (u ++ unifyLineEnds rest).takeWhile (· != '<') = u ∧
      (u ++ unifyLineEnds rest).dropWhile (· != '<') = unifyLineEnds rest := by
    rcases hrest with rfl | ⟨more, rfl⟩
    · rw [List.takeWhile_append_of_pos (hopen hmem.2), List.dropWhile_append_of_pos (hopen hmem.2),
        unifyLineEnds]
      exact ⟨List.append_nil u, rfl⟩
    · rw [unifyLineEnds_cons (by decide)]
      exact ⟨takeWhile_stop (hopen hmem.2) rfl, dropWhile_stop (hopen hmem.2) rfl⟩
  rw [read, unifyLineEnds_run hrest, hu, List.cons_append, tokensOf, hspan.1, hspan.2, read]
  exact Ne.symm hmem.1

end Stencil.Markup
