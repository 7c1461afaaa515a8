/-! # Markup settings

The quote character around attribute values, and the tags that are written as self-closing without
children. Tags are compared without regard to the case of ASCII letters.
-/
namespace Stencil

inductive QuoteStyle
  | single
  | double
  deriving DecidableEq, Inhabited

def QuoteStyle.char : QuoteStyle → Char
  | single => '\''
  | double => '"'

structure Settings where
  quote : QuoteStyle
  voidTags : List String
  deriving DecidableEq

namespace Settings

def default : Settings := ⟨.single, ["br"]⟩

instance : Inhabited Settings := ⟨default⟩

def withQuote (s : Settings) (quote : QuoteStyle) : Settings := { s with quote := quote }

def withVoidTag (s : Settings) (tag : String) : Settings :=
  { s with voidTags := s.voidTags ++ [tag] }

/-- A text with its ASCII letters in lower case. -/
def lower (text : String) : String := text.map Char.toLower

def isVoid (s : Settings) (tag : String) : Bool := s.voidTags.any fun t => lower t == lower tag

end Settings
end Stencil
