/-! # The language reference

A summary of the template language, in sections.
-/
namespace Stencil.CommandLine

/-- A line underlined as long as it is. -/
def underlined (char : Char) (title : String) : List String :=
  [title, String.ofList (List.replicate title.length char)]

def templateSection : List String :=
  underlined '-' "TEMPLATES" ++
    ["template Name \x7b node \x7d             One root node per template"]

def nodeSection : List String :=
  underlined '-' "NODES" ++ [
    "\"text\"                              Literal markup, emitted unchanged",
    "tag #id [k: \"v\"] \x7b node* \x7d          Element; every part after the tag is optional",
    "use Name #id [k: \"v\"] \x7b slot* \x7d     Reference to another template"]

def pointSection : List String :=
  underlined '-' "POINTS" ++ [
    "#id          Single point: data replaces the content or opens a scope",
    "#id*         Multiple point: repeated once per item of a sequence",
    "export       Marks the point as public (tooling only)"]

def slotSection : List String :=
  underlined '-' "SLOTS" ++
    ["point #id [k: \"v\"] \x7b node* \x7d        Override a point of the referenced template"]

def dataSection : List String :=
  underlined '-' "DATA (JSON)" ++ [
    "\"id\": \"markup\"        Replace the point's content",
    "\"id\": \x7b ... \x7d         Render the point with a nested scope",
    "\"id\": [ ... ]         Repeat a multiple point per item",
    "\"@id\": \x7b \"k\": \"v\" \x7d   Override the point's attributes",
    "\"_root\", \"@_root\"     Bind the rendered root itself"]

def commentSection : List String :=
  underlined '-' "COMMENTS" ++ ["// line comment", "/* block comment */"]

def referenceText : String :=
  "\n".intercalate (List.intercalate [""] [
    underlined '=' "SLOTMARK TEMPLATE LANGUAGE", templateSection, nodeSection, pointSection,
    slotSection, dataSection, commentSection])

end Stencil.CommandLine
