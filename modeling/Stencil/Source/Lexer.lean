import Stencil.Source.Token

/-! # Splitting source into tokens

The longest spelling at a place wins. Blanks and comments separate tokens, and whatever spells no
token is passed over silently: a character that starts none, a quotation that is never closed, and
a block comment that is never closed. In a block comment a star is taken together with the
character after it, so a star in front of the closing star hides it.
-/
namespace Stencil.Source

def isWordStart (c : Char) : Bool := c.isAlpha || c == '_'

def isWordPart (c : Char) : Bool := c.isAlphanum || c == '_' || c == '-'

def bytes : List Char → Nat
  | [] => 0
  | c :: cs => c.utf8Size + bytes cs

/-- The character that a backslash and `c` stand for. -/
def unescape : Char → Char
  | 'n' => '\n'
  | 't' => '\t'
  | c => c

/-- What is found where a quotation or a block comment has been opened: its contents with the
characters up to its end, or only the characters to pass over. -/
inductive Scan
  | closed (text : List Char) (length : Nat)
  | unclosed (length : Nat)

/-- Puts a character in front of what has been scanned; `taken` characters spell it. -/
def Scan.push (c : Char) (taken : Nat) : Scan → Scan
  | closed text length => closed (c :: text) (length + taken)
  | unclosed length => unclosed (length + taken)

/-- Scans a quotation behind its opening quote. A backslash in front of a line end breaks it off. -/
def scanString : List Char → Scan
  | [] => .unclosed 0
  | '"' :: _ => .closed [] 1
  | '\\' :: '\n' :: _ => .unclosed 0
  | '\\' :: c :: rest => (scanString rest).push (unescape c) 2
  | c :: rest => (scanString rest).push c 1

/-- Scans a block comment behind its opening. A star at the very end is left over. -/
def scanComment : List Char → Scan
  | [] => .unclosed 0
  | '*' :: '/' :: _ => .closed [] 2
  | ['*'] => .unclosed 0
  | '*' :: c :: rest => (scanComment rest).push c 2
  | c :: rest => (scanComment rest).push c 1

/-- What stands at the start of a text: a token or nothing, spelled by `length + 1` characters. -/
structure Piece where
  token : Option Token
  length : Nat

def piece (c : Char) (rest : List Char) : Piece :=
  if isWordStart c then
    let more := rest.takeWhile isWordPart
    ⟨some (.ofWord (String.ofList (c :: more))), more.length⟩
  else if c = '"' then
    match scanString rest with
    | .closed text length => ⟨some (.string (String.ofList text)), length⟩
    | .unclosed length => ⟨none, length⟩
  else if c = '/' then
    match rest with
    | '/' :: more => ⟨none, 1 + (more.takeWhile (· != '\n')).length⟩
    | '*' :: more =>
      match scanComment more with
      | .closed _ length => ⟨none, 1 + length⟩
      | .unclosed length => ⟨none, 1 + length⟩
    | _ => ⟨none, 0⟩
  else ⟨(Mark.ofChar? c).map .mark, 0⟩

/-- The lexemes of a text that starts at byte `start` of the source. -/
def lexFrom (start : Nat) : List Char → List Lexeme
  | [] => []
  | c :: rest =>
    let p := piece c rest
    let stop := start + c.utf8Size + bytes (rest.take p.length)
    let later := lexFrom stop (rest.drop p.length)
    match p.token with
    | none => later
    | some token => ⟨token, ⟨start, stop⟩⟩ :: later
termination_by cs => cs.length
decreasing_by simp only [List.length_drop, List.length_cons]; omega

def lex (source : String) : List Lexeme := lexFrom 0 source.toList

end Stencil.Source
