import Stencil.Markup.Tag

/-! # Markup trees

A fragment is a tree of live nodes apart from any document. It is written with double quotes; a
childless element that cannot have children closes itself.
-/
namespace Stencil.Live

inductive Fragment
  | text (text : String)
  | element (tag : String) (attributes : Attributes) (children : List Fragment)

/-- Tags of elements that never have children or a closing tag. -/
def childlessTags : List String := [
  "area", "base", "br", "col", "embed", "hr", "img", "input", "link", "meta", "source", "track",
  "wbr"]

def isChildless (tag : String) : Bool := childlessTags.contains tag

namespace Fragment

mutual

def markup : Fragment → String
  | text s => Markup.escapeText s
  | element tag attributes children =>
    let closed := children.isEmpty && isChildless tag
    Markup.openTag tag attributes .double closed ++
      if closed then "" else markupList children ++ Markup.closeTag tag

def markupList : List Fragment → String
  | [] => ""
  | child :: rest => markup child ++ markupList rest

end

mutual

/-- The text of all text nodes in document order. -/
def content : Fragment → String
  | text s => s
  | element _ _ children => contentList children

def contentList : List Fragment → String
  | [] => ""
  | child :: rest => content child ++ contentList rest

end

end Fragment
end Stencil.Live
