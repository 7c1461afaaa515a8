import Stencil.Source.Parse
import Stencil.Text.Classes

/-! # Reports of parse errors

A report shows the lines of a source that an error is about, for a terminal with colours: a header
with the place, the lines with the label in red, and an arrow from the label to its message. The
offsets of a label are counted in characters of the source; where a label ends beyond the source,
only the message is given.
-/
namespace Stencil.Source

inductive Ink
  | red
  | margin
  | gap
  | plain

def Ink.code : Ink → String
  | red => "31"
  | margin => "38;5;246"
  | gap => "38;5;240"
  | plain => "38;5;249"

def paint (ink : Ink) (text : String) : String := "\x1b[" ++ ink.code ++ "m" ++ text ++ "\x1b[0m"

/-- A line of the source, with its terminator, behind `offset` characters. -/
structure Line where
  offset : Nat
  chars : List Char

namespace Line

def stop (l : Line) : Nat := l.offset + l.chars.length

def holds (l : Line) (offset : Nat) : Bool := l.offset ≤ offset && offset < l.stop

def visible (l : Line) : List Char := (l.chars.reverse.dropWhile Text.isBlank).reverse

end Line

def isLineEnd (c : Char) : Bool :=
  c == '\r' || c == '\n' || c == '\x0b' || c == '\x0c' || c == '\u0085' || c == '\u2028' ||
    c == '\u2029'

/-- Splits behind every line end, `current` being the line so far from its end backwards. A carriage
return and a line feed end one line. -/
def splitLines (current : List Char) : List Char → List (List Char)
  | [] => if current.isEmpty then [] else [current.reverse]
  | '\r' :: '\n' :: rest => ('\n' :: '\r' :: current).reverse :: splitLines [] rest
  | c :: rest =>
    if isLineEnd c then (c :: current).reverse :: splitLines [] rest
    else splitLines (c :: current) rest

/-- Lines with their offsets, the first of which is `offset`. -/
def placeLines (offset : Nat) : List (List Char) → List Line
  | [] => []
  | chars :: rest => ⟨offset, chars⟩ :: placeLines (offset + chars.length) rest

def sourceLines (source : String) : List Line :=
  match splitLines [] source.toList with
  | [] => [⟨0, []⟩]
  | lines => placeLines 0 lines

/-- The number of the line that holds an offset. The end of the source belongs to the last line. -/
def lineOf? (lines : List Line) (offset : Nat) : Option Nat :=
  let size := (lines.getLast?.map Line.stop).getD 0
  if offset ≤ size then some (lines.countP (·.offset ≤ offset) - 1) else none

/-- How a character is drawn at column `column`: a blank as a space and a tab up to the next
multiple of four columns. -/
def drawn (c : Char) (column : Nat) : Char × Nat :=
  if c == '\t' then (' ', (column / 4 + 1) * 4 - column)
  else if Text.isBlank c then (' ', 1)
  else (c, Text.columns c)

structure Label where
  start : Nat
  stop : Nat
  message : String

namespace Label

def covers (l : Label) (offset : Nat) : Bool := l.start ≤ offset && offset < l.stop

/-- The last offset of a label; an empty one ends where it starts. -/
def last (l : Label) : Nat := max l.start (l.stop - 1)

end Label

def lineText (label : Label) (line : Line) : String :=
  String.join (line.visible.mapIdx fun column c =>
    let (shown, width) := drawn c column
    let ink := if label.covers (line.offset + column) then Ink.red else .plain
    let cell := paint ink shown.toString
    if Text.isBlank c then String.join (List.replicate width cell) else cell)

/-- A row under a line: for each column up to `size` one sign, repeated by another one where the
character above takes several columns. -/
def signRow (line : Line) (size : Nat) (sign : Nat → String × String) : String :=
  String.join ((List.range size).map fun column =>
    let width := (line.visible[column]?.map fun c => (drawn c column).2).getD 1
    let (head, tail) := sign column
    match width with
    | 0 => ""
    | more + 1 => head ++ String.join (List.replicate more tail))

/-- The margin of a row: the number of its line, or a bar. -/
def margin (width : Nat) : Option Nat → String
  | some number =>
    let text := toString number
    " " ++ paint .margin ("".pushn ' ' (width - text.length) ++ text ++ " │") ++ " "
  | none => " " ++ paint .gap ("".pushn ' ' (width + 1) ++ "│") ++ " "

/-- A label inside one line: the line, an underline, and an arrow to the message. -/
def inlineRows (width number : Nat) (label : Label) (line : Line) : String :=
  let column := (label.start + label.stop) / 2 - line.offset
  let size := label.stop - line.offset + 2
  let bar :=
    if label.start < label.stop then (paint .red "┬", paint .red "─")
    else (paint .red "│", paint .red " ")
  let under := signRow line size fun c =>
    if c = column then bar
    else if label.covers (line.offset + c) then (paint .red "─", paint .red "─")
    else (" ", " ")
  let arrow := signRow line size fun c =>
    if c = column then (paint .red "╰", paint .red "─")
    else if column < c then (paint .red "─", paint .red "─")
    else (" ", " ")
  margin width (some number) ++ lineText label line ++ "\n" ++
    margin width none ++ under ++ "\n" ++
    margin width none ++ arrow ++ " " ++ label.message ++ "\n"

def firstRow (width number : Nat) (label : Label) (line : Line) : String :=
  margin width (some number) ++ paint .red "╭" ++ paint .red "─" ++ paint .red "▶" ++
    paint .red " " ++ lineText label line ++ "\n"

/-- The last line of a label over several lines, and the message. -/
def lastRows (width number : Nat) (label : Label) (line : Line) : String :=
  let size := line.chars.length + 2
  let dash := paint .red "─"
  margin width (some number) ++ paint .red "├" ++ dash ++ paint .red "▶" ++ paint .red " " ++
    lineText label line ++ "\n" ++
    margin width none ++ paint .red "│" ++ "   " ++ signRow line size (fun _ => (" ", " ")) ++
    "\n" ++
    margin width none ++ paint .red "╰" ++ dash ++ dash ++ dash ++
    signRow line size (fun _ => (dash, dash)) ++ " " ++ label.message ++ "\n"

/-- The lines between the first and the last one stand for a single row of gaps. -/
def gapRow (width : Nat) : String :=
  " " ++ paint .gap ("".pushn ' ' (width + 1) ++ "┆") ++ " " ++ paint .red "┆" ++ "   \n"

/-- The rows of a label over several lines; `gap` says that a row of gaps precedes. -/
def spreadRows (width : Nat) (label : Label) (gap : Bool) : Nat → List Line → String
  | _, [] => ""
  | number, line :: rest =>
    if line.holds label.start then
      firstRow width number label line ++ spreadRows width label false (number + 1) rest
    else if line.holds label.last then
      lastRows width number label line ++ spreadRows width label false (number + 1) rest
    else (if gap then "" else gapRow width) ++ spreadRows width label true (number + 1) rest

def report (source file headline : String) (label : Label) : String :=
  let lines := sourceLines source
  let first := paint .red "Error:" ++ " " ++ headline ++ "\n"
  match lineOf? lines label.start, lineOf? lines label.last with
  | some top, some bottom =>
    let width := (toString (bottom + 1)).length
    let column := label.start - ((lines[top]?.map Line.offset).getD 0) + 1
    let indent := "".pushn ' ' (width + 2)
    let shown := (lines.drop top).take (bottom + 1 - top)
    first ++ indent ++ paint .margin "╭" ++ paint .margin "─" ++ paint .margin "[" ++ file ++ ":" ++
      toString (top + 1) ++ ":" ++ toString column ++ paint .margin "]" ++ "\n" ++
      indent ++ paint .margin "│" ++ "\n" ++
      (if top = bottom then
        String.join (shown.map fun line =>
          if label.stop ≤ line.stop then inlineRows width (top + 1) label line
          else margin width none ++ "\n")
      else spreadRows width label false (top + 1) shown) ++
      paint .margin ("".pushn '─' (width + 2) ++ "╯") ++ "\n"
  | _, _ => first

/-- The report of a parse error. What was expected is listed below the message. -/
def ParseError.report (e : ParseError) (source file : String) : String :=
  let expected :=
    if e.expected.isEmpty then ""
    else "\nExpected: " ++ ", ".intercalate (e.expected.map Expectation.describe)
  Source.report source file e.message ⟨e.span.start, e.span.stop, e.message ++ expected⟩

end Stencil.Source
