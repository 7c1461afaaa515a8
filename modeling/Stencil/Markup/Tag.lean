import Stencil.Attributes
import Stencil.Settings.Basic

/-! # Writing markup

Text is escaped so that it reads back as the same characters, an attribute value so that it cannot
end its quotation. Tags are written with their attributes in order.
-/
namespace Stencil.Markup

def escapedTextChar : Char → List Char
  | '&' => ['&', 'a', 'm', 'p', ';']
  | '<' => ['&', 'l', 't', ';']
  | '>' => ['&', 'g', 't', ';']
  | c => [c]

def escapeText (text : String) : String := String.ofList (text.toList.flatMap escapedTextChar)

def escapedValueChar (quote : QuoteStyle) (c : Char) : List Char :=
  match c, quote with
  | '&', _ => ['&', 'a', 'm', 'p', ';']
  | '<', _ => ['&', 'l', 't', ';']
  | '"', .double => ['&', 'q', 'u', 'o', 't', ';']
  | '\'', .single => ['&', '#', '3', '9', ';']
  | c, _ => [c]

def escapeValue (value : String) (quote : QuoteStyle) : String :=
  String.ofList (value.toList.flatMap (escapedValueChar quote))

def attributeText (attributes : Attributes) (quote : QuoteStyle) : String :=
  let q := quote.char.toString
  String.join (attributes.entries.map fun (key, value) =>
    " " ++ key ++ "=" ++ q ++ escapeValue value quote ++ q)

def openTag (tag : String) (attributes : Attributes) (quote : QuoteStyle) (selfClosing : Bool) :
    String :=
  "<" ++ tag ++ attributeText attributes quote ++ if selfClosing then "/>" else ">"

def closeTag (tag : String) : String := "</" ++ tag ++ ">"

end Stencil.Markup
