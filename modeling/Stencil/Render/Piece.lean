import Stencil.Markup.Tag

/-! # Rendered pieces

Rendering emits pieces, and writing them out is a second step. Each element, void element and
marker is one element of the markup; raw markup is passed through unread.
-/
namespace Stencil

inductive Piece
  | raw (markup : String)
  | element (tag : String) (attributes : Attributes) (content : List Piece)
  /-- An element that is written without content. -/
  | void (tag : String) (attributes : Attributes)
  /-- A notice of something that cannot be rendered. -/
  | marker (message : String)

namespace Piece

mutual

def write (quote : QuoteStyle) : Piece → String
  | raw markup => markup
  | element tag attributes content =>
    Markup.openTag tag attributes quote false ++ writeList quote content ++ Markup.closeTag tag
  | void tag attributes => Markup.openTag tag attributes quote true
  | marker message => "<error>" ++ Markup.escapeText message ++ "</error>"

def writeList (quote : QuoteStyle) : List Piece → String
  | [] => ""
  | piece :: rest => write quote piece ++ writeList quote rest

end

end Piece
end Stencil
