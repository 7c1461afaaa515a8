import Stencil.Source.Grammar
import Stencil.Source.Lexer

/-! # Parsing template source

Parsing reads the lexemes of a source from left to right. It fails at the first lexeme that no
source has at that place, or at the end if the source may not end there.
-/
namespace Stencil.Source

/-- Where a source goes wrong: the refused token with its span, or the end of the source, and what
could have stood there. The span of the end starts there and stops where the last token does. -/
structure ParseError where
  span : Span
  found : Option Token
  expected : List Expectation
  deriving DecidableEq

def ParseError.message (e : ParseError) : String :=
  match e.found with
  | some (.keyword k) =>
    "Cannot use " ++ (Token.keyword k).describe ++
      " as a name, quote it as text or pick another identifier"
  | some token => "Unexpected " ++ token.describe
  | none => "Unexpected end of input"

/-- The message with the bytes it is about. -/
def ParseError.text (e : ParseError) : String :=
  "Parse error at " ++ toString e.span.start ++ ".." ++ toString e.span.stop ++ ": " ++ e.message

def parse (source : String) : Except ParseError (List Declaration) :=
  let lexemes := lex source
  let (state, rest) := State.start.run lexemes
  match rest with
  | lexeme :: _ => .error ⟨lexeme.span, some lexeme.token, state.expected⟩
  | [] =>
    match state.result? with
    | some declarations => .ok declarations
    | none =>
      let size := source.utf8ByteSize
      let stop := (lexemes.getLast?.map (·.span.stop)).getD size
      .error ⟨⟨size, stop⟩, none, state.expected⟩

end Stencil.Source
