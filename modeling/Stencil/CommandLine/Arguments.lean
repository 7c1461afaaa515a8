/-! # Command line arguments

An option is written with two hyphens and its name, or with one hyphen and its letter. Letters may
be run together; one that takes a value takes the rest of its argument, or else the next argument. A
value may follow an equals sign. At most one argument is no option, the file to read. Behind two
hyphens nothing is an option.
-/
namespace Stencil.CommandLine

inductive Switch
  | template
  | data
  | point
  | config
  | points
  | tree
  | grammar
  | verbose
  | help
  deriving DecidableEq

namespace Switch

def all : List Switch := [template, data, point, config, points, tree, grammar, verbose, help]

def name : Switch → String
  | template => "template"
  | data => "data"
  | point => "point"
  | config => "config"
  | points => "points"
  | tree => "tree"
  | grammar => "grammar"
  | verbose => "verbose"
  | help => "help"

def letter? : Switch → Option Char
  | template => some 't'
  | data => some 'd'
  | point => some 'p'
  | config => some 'c'
  | grammar => some 'g'
  | verbose => some 'v'
  | help => some 'h'
  | points | tree => none

def takesValue : Switch → Bool
  | template | data | point | config => true
  | _ => false

/-- Whether the value is a path, which may not be empty. -/
def takesPath : Switch → Bool
  | data | config => true
  | _ => false

def ofName? (name : String) : Option Switch := all.find? (·.name == name)

def ofLetter? (letter : Char) : Option Switch := all.find? (·.letter? == some letter)

end Switch

inductive UsageFault
  | unknown (argument : String)
  | missingValue (s : Switch)
  | unexpectedValue (s : Switch)
  | repeated (s : Switch)
  | secondFile (argument : String)
  | emptyPath

def UsageFault.message : UsageFault → String
  | unknown argument => "unknown option " ++ argument
  | missingValue s => "option " ++ s.name ++ " needs a value"
  | unexpectedValue s => "option " ++ s.name ++ " takes no value"
  | repeated s => "option " ++ s.name ++ " is given twice"
  | secondFile argument => "only one file can be read, not also " ++ argument
  | emptyPath => "a path is empty"

/-- The file to read, and the options given with their values. -/
structure Arguments where
  file : Option String
  given : List (Switch × String)

inductive Invocation
  | help
  | run (arguments : Arguments)

namespace Arguments

def empty : Arguments := ⟨none, []⟩

def value? (a : Arguments) (s : Switch) : Option String := a.given.lookup s

def has (a : Arguments) (s : Switch) : Bool := (a.value? s).isSome

def give (a : Arguments) (s : Switch) (value : String) : Except UsageFault Arguments :=
  if a.has s then .error (.repeated s)
  else if s.takesPath && value.isEmpty then .error .emptyPath
  else .ok { a with given := a.given ++ [(s, value)] }

def giveFile (a : Arguments) (path : String) : Except UsageFault Arguments :=
  if a.file.isSome then .error (.secondFile path)
  else if path.isEmpty then .error .emptyPath
  else .ok { a with file := some path }

def isOperand (argument : String) : Bool :=
  match argument.toList with
  | ['-'] => true
  | '-' :: _ => false
  | _ => true

/-- What is to be done about an option once its value is known. -/
inductive Pending
  | done (a : Arguments)
  | awaiting (a : Arguments) (s : Switch)
  | help

/-- Letters run together behind one hyphen. -/
def readLetters (a : Arguments) : List Char → Except UsageFault Pending
  | [] => .ok (.done a)
  | letter :: more =>
    match Switch.ofLetter? letter with
    | none => .error (.unknown letter.toString)
    | some .help => .ok .help
    | some s =>
      if s.takesValue then
        match more with
        | [] => .ok (.awaiting a s)
        | '=' :: value => (a.give s (String.ofList value)).map .done
        | value => (a.give s (String.ofList value)).map .done
      else (a.give s "").bind fun a => readLetters a more

def readName (a : Arguments) (argument : List Char) : Except UsageFault Pending :=
  let name := String.ofList (argument.takeWhile (· != '='))
  let value? :=
    match argument.dropWhile (· != '=') with
    | _ :: value => some (String.ofList value)
    | [] => none
  match Switch.ofName? name with
  | none => .error (.unknown name)
  | some s =>
    match s.takesValue, value? with
    | true, some value => (a.give s value).map .done
    | true, none => .ok (.awaiting a s)
    | false, some _ => .error (.unexpectedValue s)
    | false, none => if s = .help then .ok .help else (a.give s "").map .done

def readOption (a : Arguments) (argument : String) : Except UsageFault Pending :=
  match argument.toList with
  | '-' :: '-' :: name => a.readName name
  | '-' :: letters => a.readLetters letters
  | _ => .error (.unknown argument)

def readFrom (a : Arguments) : List String → Except UsageFault Invocation
  | [] => .ok (.run a)
  | argument :: rest =>
    if argument.toList = ['-', '-'] then (rest.foldlM giveFile a).map .run
    else if isOperand argument then (a.giveFile argument).bind fun a => readFrom a rest
    else
      match a.readOption argument with
      | .error fault => .error fault
      | .ok .help => .ok .help
      | .ok (.done a) => readFrom a rest
      | .ok (.awaiting a s) =>
        match rest with
        | [] => .error (.missingValue s)
        | value :: rest =>
          if isOperand value then (a.give s value).bind fun a => readFrom a rest
          else .error (.missingValue s)

def parse (arguments : List String) : Except UsageFault Invocation := empty.readFrom arguments

end Arguments
end Stencil.CommandLine
