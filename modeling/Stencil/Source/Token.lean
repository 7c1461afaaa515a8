/-! # Tokens of template source

A token is a keyword, a mark, a word or a quoted string. A lexeme is a token with the bytes of the
source that spell it.
-/
namespace Stencil.Source

/-- Words with a meaning of their own: `template`, `use` and `export`. -/
inductive Keyword
  | template
  | reference
  | exported
  deriving DecidableEq

inductive Mark
  | hash
  | star
  | braceOpen
  | braceClose
  | bracketOpen
  | bracketClose
  | comma
  | colon
  deriving DecidableEq

inductive Token
  | keyword (keyword : Keyword)
  | mark (mark : Mark)
  | word (name : String)
  /-- A quoted string, given by what it stands for. -/
  | string (text : String)
  deriving DecidableEq, Inhabited

def Keyword.spelling : Keyword → String
  | template => "template"
  | reference => "use"
  | exported => "export"

def Mark.char : Mark → Char
  | hash => '#'
  | star => '*'
  | braceOpen => '{'
  | braceClose => '}'
  | bracketOpen => '['
  | bracketClose => ']'
  | comma => ','
  | colon => ':'

def Mark.ofChar? : Char → Option Mark
  | '#' => some .hash
  | '*' => some .star
  | '{' => some .braceOpen
  | '}' => some .braceClose
  | '[' => some .bracketOpen
  | ']' => some .bracketClose
  | ',' => some .comma
  | ':' => some .colon
  | _ => none

/-- A token in the words of an error message. -/
def Token.describe : Token → String
  | keyword k => "keyword '" ++ k.spelling ++ "'"
  | mark m => "'" ++ m.char.toString ++ "'"
  | word name => "identifier '" ++ name ++ "'"
  | string text => "string \"" ++ text ++ "\""

/-- Bytes of the source, from `start` up to and not including `stop`. -/
structure Span where
  start : Nat
  stop : Nat
  deriving DecidableEq, Inhabited

structure Lexeme where
  token : Token
  span : Span
  deriving DecidableEq, Inhabited

/-- A word is a keyword if it is spelled like one. -/
def Token.ofWord (name : String) : Token :=
  if name = "template" then .keyword .template
  else if name = "use" then .keyword .reference
  else if name = "export" then .keyword .exported
  else .word name

end Stencil.Source
