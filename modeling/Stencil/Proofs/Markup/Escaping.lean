import Mathlib.Data.List.Basic
import Stencil.Proofs.Data.Record
import Stencil.Proofs.Markup.Reading

/-! # Escapes are undone

An escape is a reference that ends in a semicolon, and what follows the semicolon has no say in how
it is read. So texts and values are decoded to what was escaped, in front of whatever comes next.
-/
namespace Stencil.Markup
variable {c : Char} {cs rest word : List Char} {text : String}

/-- Text that survives being read: it holds no NUL and no carriage return. -/
def IsVerbatim (text : String) : Prop := ∀ c ∈ text.toList, c ≠ '\x00' ∧ c ≠ '\r'

instance (text : String) : Decidable (IsVerbatim text) :=
  inferInstanceAs (Decidable (∀ c ∈ text.toList, _))

/-! ## References -/

def escapeNames : List (List Char × Char) := [
  (['a', 'm', 'p'], '&'), (['l', 't'], '<'), (['g', 't'], '>'), (['q', 'u', 'o', 't'], '"')]

theorem not_mem_names : ∀ initial ∈ ['a', 'l', 'g', 'q'],
    ∀ entry ∈ openNames.startingWith initial ++ closedNames.startingWith initial,
      ';' ∉ entry.1.toList := by
  have hall : ['a', 'l', 'g', 'q'].all fun initial =>
      (openNames.startingWith initial ++ closedNames.startingWith initial).all
        fun entry => !entry.1.toList.contains ';' := by
    decide +kernel
  intro initial hinitial entry hentry
  have hgroup := List.all_eq_true.1 hall initial hinitial
  simpa using List.all_eq_true.1 hgroup entry hentry

theorem isPrefixOf_semicolon {name : List Char} (h : ';' ∉ name) (close : Bool)
    (word rest : List Char) :
    (name ++ if close then [';'] else []).isPrefixOf (word ++ ';' :: rest) =
      (name ++ if close then [';'] else []).isPrefixOf (word ++ [';']) := by
  induction name generalizing word with
  | nil =>
    cases close with
    | false => simp
    | true => cases word <;> simp [List.isPrefixOf]
  | cons d name ih =>
    rw [List.mem_cons, not_or] at h
    cases word with
    | nil =>
      have hd : (d == ';') = false := beq_false_of_ne (Ne.symm h.1)
      simp [List.isPrefixOf, hd]
    | cons c word => simp only [List.cons_append, List.isPrefixOf, ih h.2]

theorem namedReference?_semicolon {initial : Char} (h : initial ∈ ['a', 'l', 'g', 'q'])
    (word rest : List Char) :
    namedReference? (initial :: word ++ ';' :: rest) =
      namedReference? (initial :: word ++ [';']) := by
  have hname (close : Bool) :
      ∀ entry ∈ openNames.startingWith initial ++ closedNames.startingWith initial,
        withName (initial :: word ++ ';' :: rest) close entry =
          withName (initial :: word ++ [';']) close entry := by
    intro entry hentry
    simp only [withName, isPrefixOf_semicolon (not_mem_names initial h entry hentry)]
  have hopen : ∀ entry ∈ openNames.startingWith initial,
      withName (initial :: word ++ ';' :: rest) false entry =
        withName (initial :: word ++ [';']) false entry :=
    fun entry hentry => hname false entry (List.mem_append_left _ hentry)
  have hall := List.filterMap_congr (hname true)
  rw [List.cons_append, List.cons_append] at hall hopen ⊢
  simp only [namedReference?, namedReferences, hall, List.filterMap_congr hopen]

theorem namedReference?_escapeNames : ∀ e ∈ escapeNames,
    namedReference? (e.1 ++ ';' :: rest) = some ⟨[e.2], e.1.length + 1⟩ := by
  have htable : ∀ e ∈ escapeNames,
      namedReference? (e.1 ++ [';']) = some ⟨[e.2], e.1.length + 1⟩ := by
    decide +kernel
  have hinitials : ∀ e ∈ escapeNames, ∃ initial ∈ ['a', 'l', 'g', 'q'], ∃ word,
      e.1 = initial :: word := by
    simp [escapeNames]
  intro e he
  obtain ⟨initial, hinitial, word, hword⟩ := hinitials e he
  have hentry := htable e he
  rw [hword] at hentry ⊢
  rw [namedReference?_semicolon hinitial, hentry]

theorem decode_cons (hc : c ≠ '&') (inValue : Bool) (rest : List Char) :
    decode inValue (c :: rest) = c :: decode inValue rest := by
  rw [decode]
  exact hc

theorem decode_escape {e : List Char × Char} (he : e ∈ escapeNames) (inValue : Bool)
    (rest : List Char) :
    decode inValue ('&' :: (e.1 ++ ';' :: rest)) = e.2 :: decode inValue rest := by
  have hnamed : namedReference? (e.1 ++ ';' :: rest) = some ⟨[e.2], e.1.length + 1⟩ :=
    namedReference?_escapeNames e he
  have hends : continues (e.1 ++ ';' :: rest) (e.1.length + 1) = false := by
    simp [continues]
  have href : reference? inValue (e.1 ++ ';' :: rest) = some ⟨[e.2], e.1.length + 1⟩ := by
    rw [reference?, hnamed, Option.filter_some, hends, Bool.and_false]
    · rfl
    · intro more hmore
      have hhead : ∀ e ∈ escapeNames, e.1.head? ≠ some '#' ∧ e.1 ≠ [] := by decide
      obtain ⟨hne, hnil⟩ := hhead e he
      obtain ⟨d, word, hword⟩ := List.exists_cons_of_ne_nil hnil
      rw [hword] at hmore hne
      exact hne (congrArg some (List.cons.inj hmore).1)
  rw [decode, href]
  simp

theorem decode_apostrophe (inValue : Bool) (rest : List Char) :
    decode inValue ('&' :: '#' :: '3' :: '9' :: ';' :: rest) = '\'' :: decode inValue rest := by
  have href : reference? inValue ('#' :: '3' :: '9' :: ';' :: rest) = some ⟨['\''], 4⟩ := by
    rfl
  rw [decode, href]
  rfl

/-! ## Texts and values -/

theorem decode_escapedTextChar (inValue : Bool) (c : Char) (rest : List Char) :
    decode inValue (escapedTextChar c ++ rest) = c :: decode inValue rest := by
  unfold escapedTextChar
  split
  · exact decode_escape (e := (['a', 'm', 'p'], '&')) (by decide) inValue rest
  · exact decode_escape (e := (['l', 't'], '<')) (by decide) inValue rest
  · exact decode_escape (e := (['g', 't'], '>')) (by decide) inValue rest
  · next hamp _ _ => exact decode_cons hamp inValue rest

theorem decode_escapedValueChar (quote : QuoteStyle) (inValue : Bool) (c : Char)
    (rest : List Char) :
    decode inValue (escapedValueChar quote c ++ rest) = c :: decode inValue rest := by
  unfold escapedValueChar
  split
  · exact decode_escape (e := (['a', 'm', 'p'], '&')) (by decide) inValue rest
  · exact decode_escape (e := (['l', 't'], '<')) (by decide) inValue rest
  · exact decode_escape (e := (['q', 'u', 'o', 't'], '"')) (by decide) inValue rest
  · exact decode_apostrophe inValue rest
  · next hamp _ _ _ => exact decode_cons hamp inValue rest

theorem decode_flatMap {inValue : Bool} {escape : Char → List Char}
    (h : ∀ c rest, decode inValue (escape c ++ rest) = c :: decode inValue rest)
    (cs rest : List Char) :
    decode inValue (cs.flatMap escape ++ rest) = cs ++ decode inValue rest := by
  induction cs with
  | nil => rfl
  | cons c cs ih => rw [List.flatMap_cons, List.append_assoc, h, ih, List.cons_append]

theorem verbatim_escapedTextChar (hc : c ≠ '\x00' ∧ c ≠ '\r') :
    ∀ d ∈ escapedTextChar c, d ≠ '\x00' ∧ d ≠ '\r' := by
  unfold escapedTextChar
  split
  · simp
  · simp
  · simp
  · simpa using hc

theorem verbatim_escapedValueChar (quote : QuoteStyle) (hc : c ≠ '\x00' ∧ c ≠ '\r') :
    ∀ d ∈ escapedValueChar quote c, d ≠ '\x00' ∧ d ≠ '\r' := by
  unfold escapedValueChar
  split
  · simp
  · simp
  · simp
  · simp
  · simpa using hc

theorem valueOf_escapeValue (h : IsVerbatim text) (quote : QuoteStyle) :
    valueOf (unifyLineEnds (escapeValue text quote).toList) = text := by
  have hchars : ∀ d ∈ text.toList.flatMap (escapedValueChar quote), d ≠ '\x00' ∧ d ≠ '\r' := by
    intro d hd
    obtain ⟨c, hc, hd⟩ := List.mem_flatMap.1 hd
    exact verbatim_escapedValueChar quote (h c hc) d hd
  have hends : unifyLineEnds (text.toList.flatMap (escapedValueChar quote)) =
      text.toList.flatMap (escapedValueChar quote) := by
    have hunified := unifyLineEnds_append (fun hr => (hchars '\r' hr).2 rfl) []
    simpa [unifyLineEnds] using hunified
  have hnul : (text.toList.flatMap (escapedValueChar quote)).map
      (fun c => if c = '\x00' then replacement else c) =
        text.toList.flatMap (escapedValueChar quote) :=
    (List.map_congr_left fun d hd => if_neg (hchars d hd).1).trans (List.map_id _)
  have hdecode := decode_flatMap (decode_escapedValueChar quote true) text.toList []
  rw [List.append_nil, decode, List.append_nil] at hdecode
  rw [escapeValue, String.toList_ofList, hends, valueOf, hnul, hdecode, String.ofList_toList]

theorem tokensOf_run (hc : c ≠ '<') (cs : List Char) :
    tokensOf (c :: cs) = .text (String.ofList (decode false ((c :: cs).takeWhile (· != '<')))) ::
      tokensOf ((c :: cs).dropWhile (· != '<')) := by
  rw [tokensOf, List.takeWhile_cons, List.dropWhile_cons, if_pos (bne_iff_ne.2 hc),
    if_pos (bne_iff_ne.2 hc)]
  exact hc

/-- A text is read as what was escaped in it, and a text behind it continues it. -/
theorem read_escapeText (h : IsVerbatim text) (hne : text ≠ "") (rest : List Char) :
    ∃ s tokens, read ((escapeText text).toList ++ rest) = .text (text ++ s) :: tokens ∧
      (s = "" ∧ read rest = tokens ∨ read rest = .text s :: tokens) := by
  have hopen : ∀ d ∈ text.toList.flatMap escapedTextChar, (d != '<') = true := by
    intro d hd
    obtain ⟨c, _, hd⟩ := List.mem_flatMap.1 hd
    rw [bne_iff_ne]
    rintro rfl
    exact not_mem_escapedTextChar c hd
  have hreturn : '\r' ∉ text.toList.flatMap escapedTextChar := by
    intro hr
    obtain ⟨c, hc, hr⟩ := List.mem_flatMap.1 hr
    exact (verbatim_escapedTextChar (h c hc) '\r' hr).2 rfl
  obtain ⟨c, cs, hcs⟩ : ∃ c cs, text.toList.flatMap escapedTextChar = c :: cs := by
    refine List.exists_cons_of_ne_nil fun hnil => hne ?_
    have hdecode := decode_flatMap (decode_escapedTextChar false) text.toList []
    rw [hnil, List.append_nil, decode, List.append_nil] at hdecode
    exact String.toList_eq_nil_iff.1 hdecode.symm
  have hc : c ≠ '<' := bne_iff_ne.1 (hopen c (hcs ▸ List.mem_cons_self))
  have hread : read ((escapeText text).toList ++ rest) =
      .text (text ++ String.ofList (decode false ((unifyLineEnds rest).takeWhile (· != '<')))) ::
        tokensOf ((unifyLineEnds rest).dropWhile (· != '<')) := by
    rw [read, escapeText, String.toList_ofList, unifyLineEnds_append hreturn, hcs, List.cons_append,
      tokensOf_run hc, ← List.cons_append, ← hcs, List.takeWhile_append_of_pos hopen,
      List.dropWhile_append_of_pos hopen, decode_flatMap (decode_escapedTextChar false),
      String.ofList_append, String.ofList_toList]
  have hnone : String.ofList (decode false []) = "" := by
    rw [decode]
  refine ⟨_, _, hread, ?_⟩
  rw [read]
  cases hrest : unifyLineEnds rest with
  | nil => exact .inl ⟨hnone, rfl⟩
  | cons d more =>
    by_cases hd : d = '<'
    · subst hd
      exact .inl ⟨hnone, rfl⟩
    · exact .inr (tokensOf_run hd more)

/-! ## Attributes -/

theorem foldl_keep {entries : List (String × String)} (h : (entries.map (·.1)).Nodup) :
    entries.foldl keep [] = NameMap.ofList entries := by
  have run (m : NameMap String) (hnew : ∀ e ∈ entries, e.1 ∉ m.names) :
      entries.foldl keep m = entries.foldl (fun m e => m.insert e.1 e.2) m := by
    induction entries generalizing m with
    | nil => rfl
    | cons e entries ih =>
      obtain ⟨hfirst, hrest⟩ := List.forall_mem_cons.1 hnew
      obtain ⟨hother, hnodup⟩ := List.nodup_cons.1 h
      have hkeep : keep m e = m.insert e.1 e.2 :=
        if_neg fun hcontains => hfirst (NameMap.mem_names_of_contains hcontains)
      rw [List.foldl_cons, List.foldl_cons, hkeep]
      refine ih hnodup _ fun e' he' hmem => ?_
      rcases (NameMap.mem_names_insert ..).1 hmem with hname | hmem
      · exact hother (List.mem_map.2 ⟨e', he', hname⟩)
      · exact hrest e' he' hmem
  exact run [] fun _ _ => List.not_mem_nil

theorem readBack_eq {attributes : Attributes}
    (h : ∀ e ∈ attributes.entries, IsLowered e.1 ∧ IsVerbatim e.2) (quote : QuoteStyle) :
    readBack attributes quote = attributes.sorted := by
  have hsame : attributes.entries.map (fun e =>
      (nameOf e.1.toList, valueOf (unifyLineEnds (escapeValue e.2 quote).toList))) =
        attributes.entries := by
    refine (List.map_congr_left fun e he => ?_).trans (List.map_id _)
    rw [(h e he).1.nameOf, valueOf_escapeValue (h e he).2]
    rfl
  rw [readBack, hsame, foldl_keep attributes.keys_nodup, Attributes.ofList_nameMap]

/-! ## A whole element -/

/-- The tokens of a text: there is one, unless the text is empty. -/
def textTokens (text : String) : List Token := if text = "" then [] else [.text text]

theorem read_escapeText_closeTag {name : String} (htext : IsVerbatim text) (hname : IsTagName name)
    (rest : List Char) :
    read ((escapeText text).toList ++ ((closeTag name).toList ++ rest)) =
      textTokens text ++ .endTag (nameOf name.toList) :: read rest := by
  have hclose := read_closeTag_eq hname rest
  unfold textTokens
  split
  · next hnil =>
    rw [hnil]
    exact hclose
  · next hne =>
    obtain ⟨s, tokens, hread, ⟨rfl, htokens⟩ | hrun⟩ :=
      read_escapeText htext hne ((closeTag name).toList ++ rest)
    · rw [hread, ← htokens, hclose, String.append_empty]
      rfl
    · rw [hclose] at hrun
      cases hrun

/-- **Escapes hold.** An element that is written with any values and any text reads back as its
opening tag with these values, the characters of the text, and its closing tag, in either style of
quotation and in front of anything. -/
theorem tokens_element {name : String} {attributes : Attributes} (hname : IsWord name)
    (hattributes : ∀ e ∈ attributes.entries, IsKey e.1 ∧ IsLowered e.1 ∧ IsVerbatim e.2)
    (htext : IsVerbatim text) :
    ∃ found : Attributes, found.entries.Perm attributes.entries ∧
      (∀ key, found.get? key = attributes.get? key) ∧
      ∀ (quote : QuoteStyle) (closing : Bool) (rest : String),
        tokens (openTag name attributes quote closing ++ escapeText text ++ closeTag name ++ rest) =
          .startTag name found closing :: (textTokens text ++ .endTag name :: tokens rest) := by
  refine ⟨attributes.sorted, List.mergeSort_perm .., attributes.get?_sorted,
    fun quote closing rest => ?_⟩
  have hkeys : HasKeys attributes := fun e he => (hattributes e he).1
  have hback : readBack attributes quote = attributes.sorted :=
    readBack_eq (fun e he => (hattributes e he).2) quote
  calc tokens (openTag name attributes quote closing ++ escapeText text ++ closeTag name ++ rest)
    _ = read ((openTag name attributes quote closing).toList ++
          ((escapeText text).toList ++ ((closeTag name).toList ++ rest.toList))) := by
      simp [tokens, read]
    _ = .startTag name attributes.sorted closing ::
          read ((escapeText text).toList ++ ((closeTag name).toList ++ rest.toList)) := by
      rw [read_openTag_eq hname.isTagName hkeys, hback, nameOf_word hname]
    _ = .startTag name attributes.sorted closing ::
          (textTokens text ++ .endTag name :: tokens rest) := by
      rw [read_escapeText_closeTag htext hname.isTagName, nameOf_word hname]
      rfl

/-- Values and a text that try to get out of their places. -/
theorem tokens_element_link :
    let attributes := Attributes.ofList [("title", "'\"><b>&#39;"), ("href", "?a=1&amp&lt;")]
    IsWord "a-1" ∧ (∀ e ∈ attributes.entries, IsKey e.1 ∧ IsLowered e.1 ∧ IsVerbatim e.2) ∧
      IsVerbatim "</a-1><!--&lt;" ∧
      ∃ found : Attributes, found.get? "title" = some "'\"><b>&#39;" ∧
        found.get? "href" = some "?a=1&amp&lt;" ∧ ∀ quote,
          tokens (openTag "a-1" attributes quote true ++ escapeText "</a-1><!--&lt;" ++
              closeTag "a-1" ++ "") =
            [.startTag "a-1" found true, .text "</a-1><!--&lt;", .endTag "a-1"] := by
  intro attributes
  have hname : IsWord "a-1" := isWord_of_all rfl rfl rfl
  have hentries : attributes.entries =
      [("title", "'\"><b>&#39;"), ("href", "?a=1&amp&lt;")] := rfl
  have hattributes : ∀ e ∈ attributes.entries, IsKey e.1 ∧ IsLowered e.1 ∧ IsVerbatim e.2 := by
    rw [hentries]
    simp [IsKey, IsLowered, IsVerbatim, isKeyPart, isTagNamePart, isTagBlank]
  have htext : IsVerbatim "</a-1><!--&lt;" := by simp [IsVerbatim]
  obtain ⟨found, -, hvalues, hread⟩ := tokens_element hname hattributes htext
  refine ⟨hname, hattributes, htext, found, hvalues _, hvalues _, fun quote => ?_⟩
  have hnothing : tokens "" = [] := by
    rw [tokens, String.toList_empty, unifyLineEnds, tokensOf]
  rw [hread, hnothing]
  rfl

end Stencil.Markup
