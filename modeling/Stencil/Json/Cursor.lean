import Stencil.Json.Basic

/-! # Positions in a JSON text

A `Cursor` is what is left of a text together with the line it has reached and the bytes it has
passed on that line. A fault is reported either where the cursor stands, that is just behind what
has been read, or one byte further, at the character that was looked at and refused.
-/
namespace Stencil.Json

/-- Why a text is not JSON. -/
inductive Fault
  | endInValue
  | endInArray
  | endInObject
  | endInString
  | expectedColon
  | expectedCommaOrBracket
  | expectedCommaOrBrace
  | expectedLiteral
  | expectedValue
  | invalidEscape
  | invalidNumber
  | numberOutOfRange
  | controlCharacter
  | nameNotString
  | loneSurrogate
  | brokenSurrogatePair
  | trailingComma
  | trailingCharacters
  | tooDeep
  deriving DecidableEq

def Fault.message : Fault → String
  | endInValue => "EOF while parsing a value"
  | endInArray => "EOF while parsing a list"
  | endInObject => "EOF while parsing an object"
  | endInString => "EOF while parsing a string"
  | expectedColon => "expected `:`"
  | expectedCommaOrBracket => "expected `,` or `]`"
  | expectedCommaOrBrace => "expected `,` or `\x7d`"
  | expectedLiteral => "expected ident"
  | expectedValue => "expected value"
  | invalidEscape => "invalid escape"
  | invalidNumber => "invalid number"
  | numberOutOfRange => "number out of range"
  | controlCharacter => "control character (\\u0000-\\u001F) found while parsing a string"
  | nameNotString => "key must be a string"
  | loneSurrogate => "lone leading surrogate in hex escape"
  | brokenSurrogatePair => "unexpected end of hex escape"
  | trailingComma => "trailing comma"
  | trailingCharacters => "trailing characters"
  | tooDeep => "recursion limit exceeded"

/-- A fault with the line, counted from 1, and the byte column of its place. -/
structure SyntaxFault where
  fault : Fault
  line : Nat
  column : Nat
  deriving DecidableEq

def SyntaxFault.message (e : SyntaxFault) : String :=
  e.fault.message ++ " at line " ++ toString e.line ++ " column " ++ toString e.column

structure Cursor where
  rest : List Char
  line : Nat
  column : Nat

namespace Cursor

def start (text : String) : Cursor := ⟨text.toList, 1, 0⟩

def left (c : Cursor) : Nat := c.rest.length

/-- Passes over a character, with `rest` what follows it. -/
def pass (c : Cursor) (char : Char) (rest : List Char) : Cursor :=
  if char = '\n' then ⟨rest, c.line + 1, 0⟩ else ⟨rest, c.line, c.column + char.utf8Size⟩

@[simp] theorem left_pass (c : Cursor) (char : Char) (rest : List Char) :
    (c.pass char rest).left = rest.length := by
  unfold pass left; split <;> rfl

/-- Passes over characters that hold no line end and take one byte each. -/
def skip (c : Cursor) (n : Nat) : Cursor := ⟨c.rest.drop n, c.line, c.column + n⟩

theorem left_skip (c : Cursor) (n : Nat) : (c.skip n).left = c.left - n := by
  simp [skip, left]

/-- A fault just behind what has been read. -/
def fault (c : Cursor) (f : Fault) : SyntaxFault := ⟨f, c.line, c.column⟩

/-- A fault at the next character, or at the end of the text if nothing is left. -/
def faultNext (c : Cursor) (f : Fault) : SyntaxFault :=
  match c.rest with
  | [] => ⟨f, c.line, c.column⟩
  | '\n' :: _ => ⟨f, c.line + 1, 0⟩
  | _ => ⟨f, c.line, c.column + 1⟩

/-- A fault behind the next `n` bytes, which may end inside a character. -/
def faultAfter (c : Cursor) (n : Nat) (f : Fault) : SyntaxFault :=
  go n c.line c.column c.rest
where
  go (n line column : Nat) : List Char → SyntaxFault
    | [] => ⟨f, line, column⟩
    | char :: rest =>
      if n < char.utf8Size then ⟨f, line, column + n⟩
      else if char = '\n' then go (n - 1) (line + 1) 0 rest
      else go (n - char.utf8Size) line (column + char.utf8Size) rest

def blanks (c : Cursor) : Cursor :=
  go c c.rest
where
  go (c : Cursor) : List Char → Cursor
    | ' ' :: rest => go (c.pass ' ' rest) rest
    | '\t' :: rest => go (c.pass '\t' rest) rest
    | '\r' :: rest => go (c.pass '\r' rest) rest
    | '\n' :: rest => go (c.pass '\n' rest) rest
    | _ => c

theorem left_blanks (c : Cursor) : c.blanks.left ≤ c.left := by
  have go : ∀ (rest : List Char) (d : Cursor), d.left ≤ rest.length →
      (blanks.go d rest).left ≤ rest.length := by
    intro rest
    induction rest with
    | nil => intro d h; simpa [blanks.go] using h
    | cons x xs ih =>
      intro d h
      unfold blanks.go
      split
      all_goals first
        | (next e => cases e; exact Nat.le_succ_of_le (ih _ (by simp)))
        | exact h
  exact go c.rest c (Nat.le_refl _)

end Cursor
end Stencil.Json
