import Stencil.Attributes
import Stencil.Markup.Reference
import Stencil.NameMap

/-! # Reading markup

Markup is split into tags and texts; comments, declarations and instructions are passed over. A
tag that is not closed swallows the rest. Names are taken in lower case. The attributes of a tag are
listed in the order of their names, and of several with one name the first counts.
-/
namespace Stencil.Markup

inductive Token
  | startTag (name : String) (attributes : Attributes) (selfClosing : Bool)
  | endTag (name : String)
  | text (text : String)
  deriving DecidableEq

def unifyLineEnds : List Char → List Char
  | '\r' :: '\n' :: rest => '\n' :: unifyLineEnds rest
  | '\r' :: rest => '\n' :: unifyLineEnds rest
  | c :: rest => c :: unifyLineEnds rest
  | [] => []

def isTagBlank (c : Char) : Bool := c == '\t' || c == '\n' || c == '\x0c' || c == ' '

def isTagNamePart (c : Char) : Bool := !(isTagBlank c || c == '/' || c == '>')

def isKeyPart (c : Char) : Bool := isTagNamePart c && c != '='

def isBarePart (c : Char) : Bool := !(isTagBlank c || c == '>')

/-- A name in lower case; a NUL shows as the replacement character. -/
def nameOf (cs : List Char) : String :=
  String.ofList (cs.map fun c => if c = '\x00' then replacement else c.toLower)

def valueOf (cs : List Char) : String :=
  String.ofList (decode true (cs.map fun c => if c = '\x00' then replacement else c))

theorem length_dropWhile_le (p : Char → Bool) (cs : List Char) :
    (cs.dropWhile p).length ≤ cs.length :=
  (List.dropWhile_sublist p).length_le

/-- The value behind an equals sign, and the rest; nothing if the markup ends in it. -/
def attributeValue (cs : List Char) : Option (String × List Char) :=
  let quotedBy (q : Char) (rest : List Char) : Option (String × List Char) :=
    match rest.dropWhile (· != q) with
    | [] => none
    | _ :: after => some (valueOf (rest.takeWhile (· != q)), after)
  match cs.dropWhile isTagBlank with
  | [] => none
  | '"' :: rest => quotedBy '"' rest
  | '\'' :: rest => quotedBy '\'' rest
  | bare => some (valueOf (bare.takeWhile isBarePart), bare.dropWhile isBarePart)

theorem length_attributeValue {cs rest : List Char} {v : String}
    (h : attributeValue cs = some (v, rest)) : rest.length ≤ cs.length := by
  have hb := length_dropWhile_le isTagBlank cs
  unfold attributeValue at h
  grind [length_dropWhile_le]

/-- The attribute whose name begins with `c`, and the rest; without an equals sign its value is
empty. -/
def attributeFrom (c : Char) (more : List Char) : Option (String × String × List Char) :=
  let key := nameOf (c :: more.takeWhile isKeyPart)
  match (more.dropWhile isKeyPart).dropWhile isTagBlank with
  | '=' :: rest => (attributeValue rest).map fun (value, after) => (key, value, after)
  | rest => some (key, "", rest)

theorem length_attributeFrom {c : Char} {more rest : List Char} {key value : String}
    (h : attributeFrom c more = some (key, value, rest)) : rest.length ≤ more.length := by
  have hb := length_dropWhile_le isTagBlank (more.dropWhile isKeyPart)
  have hk := length_dropWhile_le isKeyPart more
  unfold attributeFrom at h
  split at h
  · rename_i after heq
    obtain ⟨⟨v, r⟩, hv, he⟩ := Option.map_eq_some_iff.1 h
    have := length_attributeValue hv
    simp only [Prod.mk.injEq] at he
    rw [← he.2.2]
    simp only [heq, List.length_cons] at hb
    omega
  · simp only [Option.some.injEq, Prod.mk.injEq] at h
    rw [← h.2.2]
    omega

/-- What follows the name of a tag: its attributes by name, whether it closes itself, and the rest
of the markup. Nothing if the tag does not end. -/
def tagRest (read : NameMap String) : List Char → Option (NameMap String × Bool × List Char)
  | [] => none
  | '>' :: rest => some (read, false, rest)
  | '/' :: '>' :: rest => some (read, true, rest)
  | c :: more =>
    if isTagBlank c || c == '/' then tagRest read more
    else
      match h : attributeFrom c more with
      | none => none
      | some (key, value, rest) =>
        have := length_attributeFrom h
        tagRest (if read.contains key then read else read.insert key value) rest
termination_by cs => cs.length
decreasing_by all_goals simp_all; try omega

theorem length_tagRest {read found : NameMap String} {cs rest : List Char} {closing : Bool}
    (h : tagRest read cs = some (found, closing, rest)) : rest.length ≤ cs.length := by
  fun_induction tagRest read cs with
  | case1 => simp at h
  | case2 read after => simp_all
  | case3 read after => simp_all; omega
  | case4 read c more _ _ _ ih => have := ih h; simp; omega
  | case5 => simp at h
  | case6 read c more _ _ _ key value after _ _ ih => have := ih h; simp; omega

/-- A tag behind its opening bracket or slash: its name, attributes, whether it closes itself, and
the rest of the markup. -/
def tag (cs : List Char) : Option (String × Attributes × Bool × List Char) :=
  (tagRest [] (cs.dropWhile isTagNamePart)).map fun (attributes, closing, rest) =>
    (nameOf (cs.takeWhile isTagNamePart), Attributes.ofList attributes, closing, rest)

def pastBracket (cs : List Char) : List Char := (cs.dropWhile (· != '>')).drop 1

/-- Behind the end of a comment: `-->` or `--!>`. -/
def pastComment : List Char → List Char
  | [] => []
  | '-' :: '-' :: '>' :: rest => rest
  | '-' :: '-' :: '!' :: '>' :: rest => rest
  | _ :: rest => pastComment rest

/-- Behind a comment, of which `<!--` has been read. It may end at once. -/
def comment : List Char → List Char
  | '>' :: rest => rest
  | '-' :: '>' :: rest => rest
  | cs => pastComment cs

/-- What an opening bracket begins: tokens, and the rest of the markup behind them. -/
def bracket : List Char → List Token × List Char
  | [] => ([.text "<"], [])
  | '/' :: [] => ([.text "</"], [])
  | '/' :: '>' :: rest => ([], rest)
  | '/' :: c :: rest =>
    if c.isAlpha then
      match tag (c :: rest) with
      | some (name, _, _, rest) => ([.endTag name], rest)
      | none => ([], [])
    else ([], pastBracket (c :: rest))
  | '!' :: '-' :: '-' :: rest => ([], comment rest)
  | '!' :: rest => ([], pastBracket rest)
  | '?' :: rest => ([], pastBracket rest)
  | c :: rest =>
    if c.isAlpha then
      match tag (c :: rest) with
      | some (name, attributes, closing, rest) => ([.startTag name attributes closing], rest)
      | none => ([], [])
    else ([.text "<"], c :: rest)

theorem length_pastComment_le (cs : List Char) : (pastComment cs).length ≤ cs.length := by
  fun_induction pastComment cs <;> simp <;> omega

theorem length_comment_le (cs : List Char) : (comment cs).length ≤ cs.length := by
  unfold comment
  split
  · simp
  · simp; omega
  · exact length_pastComment_le cs

theorem length_pastBracket_le (cs : List Char) : (pastBracket cs).length ≤ cs.length := by
  have := length_dropWhile_le (· != '>') cs
  simp only [pastBracket, List.length_drop]
  omega

theorem length_tag {name : String} {attributes : Attributes} {closing : Bool}
    {cs rest : List Char} (h : tag cs = some (name, attributes, closing, rest)) :
    rest.length ≤ cs.length := by
  obtain ⟨⟨found, closed, after⟩, ht, he⟩ := Option.map_eq_some_iff.1 h
  have := length_tagRest ht
  have := length_dropWhile_le isTagNamePart cs
  simp only [Prod.mk.injEq] at he
  rw [← he.2.2.2]
  omega

theorem length_bracket (cs : List Char) : (bracket cs).2.length ≤ cs.length := by
  fun_cases bracket cs
  case case4 ht => have := length_tag ht; simp_all; omega
  case case10 ht => have := length_tag ht; simp_all
  all_goals grind [length_comment_le, length_pastBracket_le]

/-- The tokens of markup whose line ends are single line feeds. -/
def tokensOf : List Char → List Token
  | [] => []
  | '<' :: rest =>
    have := length_bracket rest
    (bracket rest).1 ++ tokensOf (bracket rest).2
  | c :: rest =>
    have := length_dropWhile_le (· != '<') rest
    .text (String.ofList (decode false (c :: rest.takeWhile (· != '<')))) ::
      tokensOf (rest.dropWhile (· != '<'))
termination_by cs => cs.length
decreasing_by all_goals simp; omega

def tokens (markup : String) : List Token := tokensOf (unifyLineEnds markup.toList)

end Stencil.Markup
