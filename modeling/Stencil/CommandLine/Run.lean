import Stencil.CommandLine.Arguments
import Stencil.CommandLine.Reference
import Stencil.Data.Ingest
import Stencil.Live.Materialize
import Stencil.Render.Template
import Stencil.Settings.Reader
import Stencil.Source.Report

/-! # Running the command line

A run reads settings, a template source and data, and prints what the arguments ask for: rendered
markup, the tree of its elements, or the points of a template. The first failure ends the run. A run
that renders without an end leaves nothing behind.
-/
namespace Stencil.CommandLine

/-- What a run leaves behind. -/
structure Outcome where
  exitCode : Nat
  output : String
  complaints : String
  deriving DecidableEq

namespace Outcome

def success (output : String) : Outcome := ⟨0, output, ""⟩

def failure (complaints : String) : Outcome := ⟨1, "", complaints⟩

/-- The program stops in the middle of a sum. -/
def panic (overflow : Overflow) : Outcome := ⟨101, "", overflow.message ++ "\n"⟩

end Outcome

inductive Unreadable
  | missing
  | denied
  /-- A file stands where the path needs a directory. -/
  | notDirectory
  | directory
  | nameTooLong
  | notText
  | failed (reason : String)
  deriving DecidableEq

/-- The system's text for an error with its number. -/
def Unreadable.message : Unreadable → String
  | missing => "No such file or directory (os error 2)"
  | denied => "Permission denied (os error 13)"
  | notDirectory => "Not a directory (os error 20)"
  | directory => "Is a directory (os error 21)"
  | nameTooLong => "File name too long (os error 36)"
  | notText => "stream did not contain valid UTF-8"
  | failed reason => reason

/-- Where texts come from: standard input, and files by their paths. -/
structure Sources where
  input : Except Unreadable String
  file : String → Except Unreadable String

def failLine {α : Type} (message : String) : Except Outcome α := .error (.failure (message ++ "\n"))

def errorLine {α : Type} (message : String) : Except Outcome α := failLine ("Error: " ++ message)

def settings (a : Arguments) (s : Sources) : Except Outcome Settings :=
  match a.value? .config with
  | none => .ok .default
  | some path =>
    let failing := "Error loading config '" ++ path ++ "': "
    match s.file path with
    | .error reason => failLine (failing ++ "Failed to read config file: " ++ reason.message)
    | .ok text =>
      match Settings.parse text with
      | .ok settings => .ok settings
      | .error fault =>
        let reason := fault.message?.getD "invalid document"
        failLine (failing ++ "Failed to parse config TOML: " ++ reason)

/-- The source with the name it goes by in reports. -/
def templateSource (a : Arguments) (s : Sources) : Except Outcome (String × String) :=
  match a.file with
  | some path =>
    match s.file path with
    | .ok text => .ok (text, path)
    | .error reason => failLine ("Error reading file '" ++ path ++ "': " ++ reason.message)
  | none =>
    match s.input with
    | .ok text => .ok (text, "<stdin>")
    | .error reason => failLine ("Error reading from stdin: " ++ reason.message)

def register (r : Registry) (source file : String) : Except Outcome (Registry × List String) :=
  match r.registerSource source with
  | (r, .ok order) => .ok (r, order)
  | (_, .error (.malformed error)) => .error (.failure (error.report source file))
  | (_, .error error) => errorLine error.message

def record (a : Arguments) (s : Sources) : Except Outcome Record :=
  match a.value? .data with
  | none => .ok []
  | some path =>
    let failing := "Error reading data '" ++ path ++ "': "
    match s.file path with
    | .error reason => failLine (failing ++ reason.message)
    | .ok text =>
      match Record.parse text with
      | .ok record => .ok record
      | .error error => failLine (failing ++ error.message)

/-- A text in a column of a given width. -/
def column (width : Nat) (text : String) : String :=
  text ++ String.ofList (List.replicate (width - text.length) ' ')

/-- Where a point stands in the template that has it. -/
def place (r : Registry) (entry : PointEntry) : String :=
  match r.get? entry.owner with
  | some owner => " > ".intercalate (owner.tree.labels entry.node)
  | none => ""

def cardinalityName : Cardinality → String
  | .single => "Single"
  | .multiple => "Multiple"

def pointLine (r : Registry) (name : String) (entry : PointEntry) : Checked String :=
  return column 20 name ++ " " ++ column 16 (← Path.text entry.path) ++ " " ++
    cardinalityName entry.cardinality ++ " (" ++ entry.owner ++ ": " ++ place r entry ++ ")\n"

/-- The points of a template, a line each, with warnings about its issues. -/
def listing (r : Registry) (d : Descriptor) : Except Outcome Outcome :=
  match d.table.points.mapM fun (name, entry) => pointLine r name entry with
  | .error overflow => .error (.panic overflow)
  | .ok lines =>
    .ok ⟨0,
      String.join lines ++
        String.join (d.table.ambiguous.names.map fun name => column 20 name ++ " ambiguous\n"),
      String.join (d.table.issues.map fun issue => "warning: " ++ issue.message ++ "\n")⟩

def indent (depth : Nat) : String := String.ofList (List.replicate (2 * depth) ' ')

def tagLine (tag : String) (attributes : Attributes) : String :=
  "<" ++ tag ++
    String.join (attributes.entries.map fun (key, value) =>
      " " ++ key ++ "=\"" ++ value ++ "\"") ++ ">\n"

mutual

/-- A tree with a line for each element and each text that is not blank. -/
def outline (depth : Nat) : Live.Fragment → String
  | .text text =>
    if text.toList.all Text.isBlank then "" else indent depth ++ Text.quoted text ++ "\n"
  | .element tag attributes children =>
    indent depth ++ tagLine tag attributes ++ outlineList (depth + 1) children

def outlineList (depth : Nat) : List Live.Fragment → String
  | [] => ""
  | child :: rest => outline depth child ++ outlineList depth rest

end

def rendered (a : Arguments) (r : Registry) (name : String) (data : Record) :
    Option (Except Outcome String) :=
  let result :=
    match a.value? .point with
    | some point => r.renderPoint name point data
    | none => r.render name data
  result.map fun
    | .ok markup => .ok markup
    | .error error => errorLine error.message

def shown (a : Arguments) (markup : String) : Except Outcome Outcome :=
  if a.has .tree then
    match Live.Document.empty.materialize markup with
    | (.ok root, d) => .ok (.success (outline 0 (d.fragment root)))
    | (.error error, _) => errorLine error.message
  else .ok (.success (markup ++ "\n"))

/-- The registered templates, and the one that the run is about. -/
def prepare (a : Arguments) (s : Sources) : Except Outcome (Registry × String) := do
  let settings ← settings a s
  let (source, file) ← templateSource a s
  let (r, order) ← register (.withSettings settings) source file
  let some name := (a.value? .template).or order.getLast? | errorLine "no templates declared"
  return (r, name)

def showPoints (r : Registry) (name : String) : Except Outcome Outcome :=
  match r.get? name with
  | some d => listing r d
  | none => errorLine (TemplateError.notFound name).message

def showMarkup (a : Arguments) (s : Sources) (r : Registry) (name : String) :
    Option (Except Outcome Outcome) :=
  match record a s with
  | .error outcome => some (.error outcome)
  | .ok data => (rendered a r name data).map (·.bind (shown a))

def perform (a : Arguments) (s : Sources) : Option (Except Outcome Outcome) :=
  if a.has .grammar then some (.ok (.success (referenceText ++ "\n")))
  else
    match prepare a s with
    | .error outcome => some (.error outcome)
    | .ok (r, name) =>
      if a.has .points then some (showPoints r name) else showMarkup a s r name

def usage : String := "Usage: [OPTIONS] [FILE]\n"

/-- Runs the command line. Refused arguments give exit code 2, any other failure 1. -/
def run (arguments : List String) (s : Sources) : Option Outcome :=
  match Arguments.parse arguments with
  | .error fault => some ⟨2, "", "error: " ++ fault.message ++ "\n" ++ usage⟩
  | .ok .help => some (.success usage)
  | .ok (.run a) =>
    (perform a s).map fun
      | .ok outcome | .error outcome => outcome

end Stencil.CommandLine
