import Stencil.Live.Document
import Stencil.Markup.Token
import Stencil.Text.Quoted

/-! # From markup to live elements

Markup is built below a scratch element, and its first element is taken out. Table rows and cells
are built inside the table elements that they belong to. An end tag closes the innermost open
element of its name with all that is open inside it; one without such an element counts for nothing.
-/
namespace Stencil.Live

structure NoElement where
  markup : String
  deriving DecidableEq

def NoElement.message (e : NoElement) : String :=
  "markup contains no element: " ++ Text.quoted e.markup

/-- The tag that markup begins with, in lower case. -/
def leadingTag? (markup : String) : Option String :=
  match markup.toList.dropWhile Text.isBlank with
  | '<' :: rest =>
    let name := rest.takeWhile fun c => c.isAlphanum || c == '-'
    if name.isEmpty then none else some (Settings.lower (String.ofList name))
  | _ => none

/-- Tags of the elements that the first element of the markup has to stand in, outermost first. -/
def scaffold (markup : String) : List String :=
  match leadingTag? markup with
  | some "tr" => ["table", "tbody"]
  | some "td" | some "th" => ["table", "tbody", "tr"]
  | _ => []

def wrap (tags : List String) (markup : String) : String :=
  tags.foldr (fun tag inner => "<" ++ tag ++ ">" ++ inner ++ Markup.closeTag tag) markup

/-- Markup that is being read into a document: the open elements, the innermost first, below the
container that holds everything. -/
structure Builder where
  document : Document
  container : Handle
  opened : List Handle

namespace Builder

def parent (b : Builder) : Handle := b.opened.headD b.container

/-- Puts a node without a parent under the innermost open element. -/
def place (b : Builder) (id : Handle) : Builder :=
  { b with document := (b.document.append b.parent id).1 }

def startElement (b : Builder) (tag : String) (attributes : Attributes) (closed : Bool) :
    Builder :=
  let (id, document) := b.document.createElement tag attributes
  let b := { b with document := document }.place id
  if closed then b else { b with opened := id :: b.opened }

def endElement (b : Builder) (tag : String) : Builder :=
  match b.opened.dropWhile (b.document.tag? · != some tag) with
  | [] => b
  | _ :: outer => { b with opened := outer }

def addText (b : Builder) (text : String) : Builder :=
  let last := (b.document.children b.parent).getLast?
  match last.bind fun id => (b.document.get? id).map (id, ·) with
  | some (id, .text before) =>
    { b with document.contents := b.document.contents.setIfInBounds id (.text (before ++ text)) }
  | _ =>
    let (id, document) := b.document.createText text
    { b with document := document }.place id

def step (b : Builder) : Markup.Token → Builder
  | .startTag name attributes selfClosing =>
    b.startElement name attributes (selfClosing || isChildless name)
  | .endTag name => b.endElement name
  | .text text => b.addText text

end Builder

namespace Document

def build (d : Document) (container : Handle) (tokens : List Markup.Token) : Document :=
  (tokens.foldl Builder.step ⟨d, container, []⟩).document

/-- Follows first element children as many levels down. -/
def descend? (d : Document) : Nat → Handle → Option Handle
  | 0, id => some id
  | depth + 1, id => (d.elementChildren id).head?.bind (d.descend? depth)

/-- The first element of the markup as a live element without a parent. Whatever else the markup
builds is freed again. -/
def materialize (d : Document) (markup : String) : Except NoElement Handle × Document :=
  let tags := scaffold markup
  let (container, d) := d.createElement "div" Attributes.empty
  let d := d.build container (Markup.tokens (wrap tags markup))
  match d.descend? (tags.length + 1) container with
  | some element => (.ok element, (d.detach element).release container)
  | none => (.error ⟨markup⟩, d.release container)

end Document
end Stencil.Live
