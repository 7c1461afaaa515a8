import Stencil.Json.Number
import Stencil.Text.Digits

/-! # Reading JSON

`Json.parse` reads one value with blanks around it. Arrays and objects nest at most 127 deep. Of
members with one name the last is kept. Each reading function leaves a shorter rest, which is what
the recursion descends on.
-/
namespace Stencil.Json
namespace Cursor

def hexQuad (c : Cursor) : Except SyntaxFault (Nat × Cursor) :=
  match c.rest.take 4 |>.mapM Text.hexDigit? with
  | some [x, y, z, w] => .ok (((x * 16 + y) * 16 + z) * 16 + w, c.skip 4)
  | _ =>
    let bytes := c.rest.foldl (fun n x => n + x.utf8Size) 0
    .error (c.faultAfter 4 (if bytes < 4 then .endInString else .invalidEscape))

/-- The next character of an escape, which has to be `expected`. -/
def escapePart (c : Cursor) (expected : Char) : Except SyntaxFault Cursor :=
  match c.rest with
  | [] => .error (c.fault .endInString)
  | x :: _ => if x = expected then .ok (c.skip 1) else .error (c.faultNext .brokenSurrogatePair)

def lowSurrogate (c : Cursor) : Except SyntaxFault (Nat × Cursor) := do
  let c ← c.escapePart '\\'
  let c ← c.escapePart 'u'
  let (low, c) ← c.hexQuad
  if 0xdc00 ≤ low && low ≤ 0xdfff then .ok (low, c) else .error (c.fault .loneSurrogate)

/-- The digits of a `\u` escape. A high surrogate needs a low one in a second escape. -/
def unicodeEscape (c : Cursor) : Except SyntaxFault (Char × Cursor) := do
  let (high, c) ← c.hexQuad
  if 0xdc00 ≤ high && high ≤ 0xdfff then .error (c.fault .loneSurrogate)
  else if high < 0xd800 || 0xdbff < high then .ok (Char.ofNat high, c)
  else
    let (low, c) ← c.lowSurrogate
    .ok (Char.ofNat (0x10000 + (high - 0xd800) * 0x400 + (low - 0xdc00)), c)

def escape (c : Cursor) : Except SyntaxFault (Char × Cursor) :=
  match c.rest with
  | [] => .error (c.fault .endInString)
  | '"' :: _ => .ok ('"', c.skip 1)
  | '\\' :: _ => .ok ('\\', c.skip 1)
  | '/' :: _ => .ok ('/', c.skip 1)
  | 'b' :: _ => .ok ('\x08', c.skip 1)
  | 'f' :: _ => .ok ('\x0c', c.skip 1)
  | 'n' :: _ => .ok ('\n', c.skip 1)
  | 'r' :: _ => .ok ('\r', c.skip 1)
  | 't' :: _ => .ok ('\t', c.skip 1)
  | 'u' :: _ => (c.skip 1).unicodeEscape
  | _ => .error (c.faultNext .invalidEscape)

/-- One character of a string, or nothing at its closing quote. -/
def stringChar (c : Cursor) : Except SyntaxFault (Option Char × Cursor) :=
  match c.rest with
  | [] => .error (c.fault .endInString)
  | '"' :: _ => .ok (none, c.skip 1)
  | '\\' :: _ => (c.skip 1).escape.map fun (x, c) => (some x, c)
  | x :: rest =>
    if x.toNat < 0x20 then .error (c.faultNext .controlCharacter) else .ok (some x, c.pass x rest)

theorem left_hexQuad {c d : Cursor} {n : Nat} (h : c.hexQuad = .ok (n, d)) : d.left ≤ c.left := by
  unfold hexQuad at h
  split at h
  · grind [left_skip]
  · simp at h

theorem left_escapePart {c d : Cursor} {x : Char} (h : c.escapePart x = .ok d) :
    d.left ≤ c.left := by
  unfold escapePart at h
  grind [left_skip]

theorem bind_eq_ok {α β : Type} {x : Except SyntaxFault α} {f : α → Except SyntaxFault β} {b : β}
    (h : (x >>= f) = .ok b) : ∃ a, x = .ok a ∧ f a = .ok b := by
  cases x with
  | error e => cases h
  | ok a => exact ⟨a, rfl, h⟩

theorem left_lowSurrogate {c d : Cursor} {n : Nat} (h : c.lowSurrogate = .ok (n, d)) :
    d.left ≤ c.left := by
  obtain ⟨c₁, h₁, h⟩ := bind_eq_ok h
  obtain ⟨c₂, h₂, h⟩ := bind_eq_ok h
  obtain ⟨⟨low, c₃⟩, h₃, h⟩ := bind_eq_ok h
  grind [→ left_hexQuad, → left_escapePart]

theorem left_unicodeEscape {c d : Cursor} {x : Char} (h : c.unicodeEscape = .ok (x, d)) :
    d.left ≤ c.left := by
  obtain ⟨⟨high, c₁⟩, h₁, h⟩ := bind_eq_ok h
  dsimp only at h
  split at h
  · cases h
  · split at h
    · simp only [Except.ok.injEq, Prod.mk.injEq] at h
      exact h.2 ▸ left_hexQuad h₁
    · obtain ⟨⟨low, c₂⟩, h₂, h⟩ := bind_eq_ok h
      simp only [Except.ok.injEq, Prod.mk.injEq] at h
      exact h.2 ▸ Nat.le_trans (left_lowSurrogate h₂) (left_hexQuad h₁)

theorem left_escape {c d : Cursor} {x : Char} (h : c.escape = .ok (x, d)) : d.left ≤ c.left := by
  unfold escape at h
  grind [→ left_unicodeEscape, left_skip]

theorem left_skip_lt {c : Cursor} {x : Char} {rest : List Char} (h : c.rest = x :: rest) :
    (c.skip 1).left < c.left := by
  simp [skip, left, h]

theorem left_stringChar {c d : Cursor} {x : Option Char} (h : c.stringChar = .ok (x, d)) :
    d.left < c.left := by
  unfold stringChar at h
  split at h
  · simp at h
  · next e => cases h; exact left_skip_lt e
  · next e =>
    cases he : (c.skip 1).escape with
    | error f => simp [he, Except.map] at h
    | ok r =>
      obtain ⟨y, d'⟩ := r
      simp only [he, Except.map, Except.ok.injEq, Prod.mk.injEq] at h
      exact h.2 ▸ Nat.lt_of_le_of_lt (left_escape he) (left_skip_lt e)
  · next e =>
    split at h
    · simp at h
    · simp only [Except.ok.injEq, Prod.mk.injEq] at h
      simp [← h.2, left, e, pass]
      split <;> simp

/-- What is read, with a place that leaves less of the text than `c` does. -/
abbrev Shorter (c : Cursor) (α : Type) := α × { d : Cursor // d.left < c.left }

/-- The characters up to the closing quote. -/
def stringBody (c : Cursor) (read : List Char) :
    Except SyntaxFault (Shorter c String) :=
  match h : c.stringChar with
  | .error e => .error e
  | .ok (none, d) => .ok (String.ofList read.reverse, ⟨d, left_stringChar h⟩)
  | .ok (some x, d) => do
    have hd := left_stringChar h
    let (s, ⟨e, he⟩) ← stringBody d (x :: read)
    return (s, ⟨e, Nat.lt_trans he hd⟩)
termination_by c.left

/-- The rest of one of the words `null`, `true` and `false`. -/
def word (c : Cursor) : List Char → Except SyntaxFault Cursor
  | [] => .ok c
  | x :: xs =>
    match c.rest with
    | [] => .error (c.fault .endInValue)
    | y :: _ => if x = y then (c.skip 1).word xs else .error (c.faultNext .expectedLiteral)

theorem left_word {c d : Cursor} {w : List Char} (h : c.word w = .ok d) : d.left ≤ c.left := by
  induction w generalizing c with
  | nil => simp [word] at h; simp [h]
  | cons x xs ih =>
    unfold word at h
    grind [left_skip]

/-- A colon between a name and its value. -/
def colon (c : Cursor) : Except SyntaxFault Cursor :=
  let c := c.blanks
  match c.rest with
  | [] => .error (c.faultNext .endInObject)
  | ':' :: _ => .ok (c.skip 1)
  | _ => .error (c.faultNext .expectedColon)

theorem left_colon {c d : Cursor} (h : c.colon = .ok d) : d.left < c.left := by
  have hb := left_blanks c
  unfold colon at h
  grind [left_skip_lt]

/-- What separates the parts of an array or object: its end, or a part that follows. -/
inductive Separator (c : Cursor)
  | close (d : Cursor) (shorter : d.left < c.left)
  | part (d : Cursor) (shorter : d.left ≤ c.left)

def nextItem (c : Cursor) (first : Bool) : Except SyntaxFault (Separator c) :=
  have hb := left_blanks c
  match h : c.blanks.rest with
  | [] => .error (c.blanks.faultNext .endInArray)
  | ']' :: _ => .ok (.close (c.blanks.skip 1) (Nat.lt_of_lt_of_le (left_skip_lt h) hb))
  | x :: _ =>
    if first then .ok (.part c.blanks hb)
    else if x = ',' then
      let d := (c.blanks.skip 1).blanks
      have hd : d.left ≤ c.left := Nat.le_trans (left_blanks _) (by grind [left_skip])
      match d.rest with
      | [] => .error (d.faultNext .endInValue)
      | ']' :: _ => .error (d.faultNext .trailingComma)
      | _ => .ok (.part d hd)
    else .error (c.blanks.faultNext .expectedCommaOrBracket)

/-- Looks for the next member of an object, up to the quote that opens its name. -/
def nextMember (c : Cursor) (first : Bool) : Except SyntaxFault (Separator c) :=
  have hb := left_blanks c
  match h : c.blanks.rest with
  | [] => .error (c.blanks.faultNext .endInObject)
  | '}' :: _ => .ok (.close (c.blanks.skip 1) (Nat.lt_of_lt_of_le (left_skip_lt h) hb))
  | x :: _ =>
    if first then
      if x = '"' then .ok (.part (c.blanks.skip 1) (by grind [left_skip]))
      else .error (c.blanks.faultNext .nameNotString)
    else if x = ',' then
      let d := (c.blanks.skip 1).blanks
      have hd : (d.skip 1).left ≤ c.left := by grind [left_skip, left_blanks]
      match d.rest with
      | [] => .error (d.faultNext .endInValue)
      | '"' :: _ => .ok (.part (d.skip 1) hd)
      | '}' :: _ => .error (d.faultNext .trailingComma)
      | _ => .error (d.faultNext .nameNotString)
    else .error (c.blanks.faultNext .expectedCommaOrBrace)

def keyword (c : Cursor) (letters : List Char) (value : Json) (h : (c.skip 1).left < c.left) :
    Except SyntaxFault (Shorter c Json) :=
  match hw : (c.skip 1).word letters with
  | .error e => .error e
  | .ok d => .ok (value, ⟨d, Nat.lt_of_le_of_lt (left_word hw) h⟩)

def numeral (c : Cursor) (isNegative : Bool) : Except SyntaxFault (Shorter c Json) :=
  match h : c.number isNegative with
  | .error e => .error e
  | .ok (v, d) => .ok (v, ⟨d, left_number h⟩)

mutual

/-- A value that starts at the cursor, with `depth` levels left for arrays and objects. -/
def value (depth : Nat) (c : Cursor) : Except SyntaxFault (Shorter c Json) :=
  match h : c.rest with
  | [] => .error (c.faultNext .endInValue)
  | 'n' :: _ => c.keyword ['u', 'l', 'l'] .null (left_skip_lt h)
  | 't' :: _ => c.keyword ['r', 'u', 'e'] (.bool true) (left_skip_lt h)
  | 'f' :: _ => c.keyword ['a', 'l', 's', 'e'] (.bool false) (left_skip_lt h)
  | '-' :: _ => do
    let (v, ⟨d, hd⟩) ← (c.skip 1).numeral true
    return (v, ⟨d, Nat.lt_trans hd (left_skip_lt h)⟩)
  | '"' :: _ => do
    let (s, ⟨d, hd⟩) ← (c.skip 1).stringBody []
    return (.string s, ⟨d, Nat.lt_trans hd (left_skip_lt h)⟩)
  | '[' :: _ =>
    have hc := left_skip_lt h
    match depth with
    | 0 => .error (c.faultNext .tooDeep)
    | depth + 1 => do
      let (items, ⟨d, hd⟩) ← items depth (c.skip 1) true
      return (.array items, ⟨d, Nat.lt_trans hd hc⟩)
  | '{' :: _ =>
    have hc := left_skip_lt h
    match depth with
    | 0 => .error (c.faultNext .tooDeep)
    | depth + 1 => do
      let (members, ⟨d, hd⟩) ← members depth (c.skip 1) true
      return (.object (NameMap.ofList members), ⟨d, Nat.lt_trans hd hc⟩)
  | x :: _ => if x.isDigit then c.numeral false else .error (c.faultNext .expectedValue)
termination_by 2 * c.left

/-- The items of an array up to its end; `first` says that none has been read. -/
def items (depth : Nat) (c : Cursor) (first : Bool) :
    Except SyntaxFault (Shorter c (List Json)) := do
  match ← c.nextItem first with
  | .close d hd => return ([], ⟨d, hd⟩)
  | .part d hd =>
    let (v, ⟨e, he⟩) ← value depth d
    let (vs, ⟨f, hf⟩) ← items depth e false
    return (v :: vs, ⟨f, by omega⟩)
termination_by 2 * c.left + 1

/-- The members of an object up to its end. -/
def members (depth : Nat) (c : Cursor) (first : Bool) :
    Except SyntaxFault (Shorter c (List (String × Json))) := do
  match ← c.nextMember first with
  | .close d hd => return ([], ⟨d, hd⟩)
  | .part d hd =>
    let (name, ⟨e, he⟩) ← d.stringBody []
    match hc : e.colon with
    | .error fault => .error fault
    | .ok f =>
      have hf := left_colon hc
      have hb := left_blanks f
      let (v, ⟨g, hg⟩) ← value depth f.blanks
      let (vs, ⟨h, hh⟩) ← members depth g false
      return ((name, v) :: vs, ⟨h, by omega⟩)
termination_by 2 * c.left + 1

end
end Cursor

/-- Levels of arrays and objects that a text may have. -/
def maxDepth : Nat := 127

def parse (text : String) : Except SyntaxFault Json := do
  let (v, ⟨c, _⟩) ← (Cursor.start text).blanks.value maxDepth
  if c.blanks.rest.isEmpty then return v else throw (c.blanks.faultNext .trailingCharacters)

end Stencil.Json
