import Stencil.Toml.Scalar

/-! # Reading TOML

`Toml.parse` reads a document line by line. Brackets nest at most 79 deep, and a key has at most 79
parts. A text that is no document gives nothing.
-/
namespace Stencil.Toml

def maxDepth : Nat := 79

/-- Behind blanks, comments and line ends. -/
def filler : List Char → List Char
  | '\r' :: '\n' :: rest => filler rest
  | '#' :: rest =>
    have := (rest.dropWhile_sublist isPlain).length_le
    filler (rest.dropWhile isPlain)
  | c :: rest => if c == '\n' || isSpace c then filler rest else c :: rest
  | [] => []
termination_by cs => cs.length
decreasing_by all_goals simp; try omega

/-- Behind the end of the line, with blanks and a comment before it. -/
def pastLine? (cs : List Char) : Option (List Char) :=
  let cs := cs.dropWhile isSpace
  let cs :=
    match cs with
    | '#' :: rest => rest.dropWhile isPlain
    | cs => cs
  if cs.isEmpty then some [] else lineEnd? cs

def isBareKeyPart (c : Char) : Bool := c.isAlphanum || c == '_' || c == '-'

def simpleKey? (cs : List Char) : Option (String × List Char) :=
  match cs with
  | '"' :: _ | '\'' :: _ => quoted? cs
  | cs =>
    let key := cs.takeWhile isBareKeyPart
    if key.isEmpty then none else some (String.ofList key, cs.dropWhile isBareKeyPart)

/-- The parts of a dotted key, of which there are at most so many. -/
def key? : Nat → List Char → Option (List String × List Char)
  | 0, _ => none
  | parts + 1, cs => do
    let (part, cs) ← simpleKey? (cs.dropWhile isSpace)
    match cs.dropWhile isSpace with
    | '.' :: cs =>
      let (more, cs) ← key? parts cs
      return (part :: more, cs)
    | cs => return ([part], cs)

def keyValue? (value? : List Char → Option (Toml × List Char)) (cs : List Char) :
    Option ((List String × Toml) × List Char) := do
  let (key, cs) ← key? maxDepth cs
  let (value, cs) ← value? ((← sign? '=' cs).dropWhile isSpace)
  return ((key, value), cs)

/-- The rest of an array from an item or the closing bracket on, with at most so many items. -/
def items? (value? : List Char → Option (Toml × List Char)) :
    Nat → List Char → Option (List Toml × List Char)
  | 0, _ => none
  | steps + 1, cs => do
    match filler cs with
    | ']' :: rest => return ([], rest)
    | cs =>
      let (item, cs) ← value? cs
      match filler cs with
      | ']' :: rest => return ([item], rest)
      | ',' :: rest =>
        let (more, rest) ← items? value? steps rest
        return (item :: more, rest)
      | _ => none

/-- The rest of a table in braces from an entry on, with at most so many entries. -/
def members? (value? : List Char → Option (Toml × List Char)) (read : Entries) :
    Nat → List Char → Option (Entries × List Char)
  | 0, _ => none
  | steps + 1, cs => do
    let ((key, value), cs) ← keyValue? value? cs
    let read ← read.addDotted? value key
    match cs.dropWhile isSpace with
    | '}' :: rest => return (read, rest)
    | ',' :: rest => members? value? read steps rest
    | _ => none

/-- A value with at most so many brackets around its innermost parts. -/
def value? : Nat → List Char → Option (Toml × List Char)
  | 0, cs => scalar? cs
  | depth + 1, cs =>
    match cs with
    | '[' :: rest =>
      (items? (value? depth) (rest.length + 1) rest).map fun (items, rest) => (.array items, rest)
    | '{' :: rest =>
      match rest.dropWhile isSpace with
      | '}' :: rest => some (.table .braces [], rest)
      | rest =>
        (members? (value? depth) [] (rest.length + 1) rest).map fun (entries, rest) =>
          (.table .braces entries, rest)
    | cs => scalar? cs

/-- What has been read, and the header that the next keys belong under. -/
structure Draft where
  root : Entries
  header : List String

namespace Draft

def openHeader? (d : Draft) (path : List String) (change : Entries → String → Option Entries) :
    Option Draft := do
  let key ← path.getLast?
  let root ← d.root.atHeader? (change · key) path.dropLast
  return ⟨root, path⟩

def add? (d : Draft) (key : List String) (value : Toml) : Option Draft := do
  let root ← d.root.atHeader? (·.addDotted? value key) d.header
  return { d with root := root }

/-- Reads a line that is not blank, and gives what follows it. -/
def line? (d : Draft) (cs : List Char) : Option (Draft × List Char) := do
  match cs with
  | '#' :: _ => return (d, ← pastLine? cs)
  | '[' :: '[' :: cs =>
    let (path, cs) ← key? maxDepth cs
    let d ← d.openHeader? path Entries.openRow?
    return (d, ← pastLine? (← sign? ']' (← sign? ']' cs)))
  | '[' :: cs =>
    let (path, cs) ← key? maxDepth cs
    let d ← d.openHeader? path Entries.openTable?
    return (d, ← pastLine? (← sign? ']' cs))
  | cs =>
    let ((key, value), cs) ← keyValue? (value? maxDepth) cs
    return (← d.add? key value, ← pastLine? cs)

def lines? (d : Draft) : Nat → List Char → Option Entries
  | 0, _ => none
  | steps + 1, cs => do
    let cs := cs.dropWhile isSpace
    if cs.isEmpty then return d.root
    match lineEnd? cs with
    | some rest => lines? d steps rest
    | none =>
      let (d, rest) ← d.line? cs
      lines? d steps rest

end Draft

/-- The entries of a document. A byte order mark may stand in front. -/
def parse (text : String) : Option Entries :=
  let cs :=
    match text.toList with
    | '\ufeff' :: rest => rest
    | cs => cs
  Draft.lines? ⟨[], []⟩ (cs.length + 1) cs

end Stencil.Toml
