import Stencil.Settings.Basic
import Stencil.Text.Quoted
import Stencil.Toml.Reader

/-! # Settings from a TOML document

The section `markup` of a document may set the quote style and the self-closing tags; other keys
count for nothing. The section may also be an array of the two in this order. A style is a name, or
a table whose one key is the name and holds nothing. The first unsuitable value is the fault.
-/
namespace Stencil.Settings

/-- What a value should have been. -/
inductive Wanted
  | text
  | list
  | settings
  deriving DecidableEq

inductive Fault
  | notToml
  /-- A quote style that is neither a name nor a table with one key. -/
  | notStyle
  /-- A name of a style that holds something. -/
  | heldByStyle
  /-- An array without a place for both settings. -/
  | tooShort
  | unknownStyle (name : String)
  | wrongType (found : Toml) (wanted : Wanted)

def Wanted.phrase : Wanted → String
  | text => "a string"
  | list => "a sequence"
  | settings => "struct TomlMarkup"

/-- Finite floats in messages are positional and have a point. -/
def floatLayout : Decimal.Layout := ⟨-400, 400, "inf", "NaN"⟩

def foundText : Toml → String
  | .string text => "string " ++ Text.quoted text
  | .integer value => "integer `" ++ toString value ++ "`"
  | .float value => "floating point `" ++ floatLayout.write value ++ "`"
  | .boolean value => "boolean `" ++ toString value ++ "`"
  | .dateTime | .table .. => "map"
  | .array _ | .tables _ => "sequence"

/-- The message of a fault that has one of its own. -/
def Fault.message? : Fault → Option String
  | unknownStyle name => some ("unknown variant `" ++ name ++ "`, expected `single` or `double`")
  | wrongType found wanted =>
    some ("invalid type: " ++ foundText found ++ ", expected " ++ wanted.phrase)
  | _ => none

def readStyleName (name : String) : Except Fault QuoteStyle :=
  if name = "single" then .ok .single
  else if name = "double" then .ok .double
  else .error (.unknownStyle name)

def readStyle : Toml → Except Fault QuoteStyle
  | .string name => readStyleName name
  | .table _ [(name, held)] =>
    (readStyleName name).bind fun style =>
      match held with
      | .array [] | .table _ [] => .ok style
      | _ => .error .heldByStyle
  | _ => .error .notStyle

def readTag : Toml → Except Fault String
  | .string tag => .ok tag
  | value => .error (.wrongType value .text)

def readTags : Toml → Except Fault (List String)
  | .array items => items.mapM readTag
  | .tables rows => (rows.map (Toml.table .header)).mapM readTag
  | value => .error (.wrongType value .list)

def readEntry (s : Settings) (entry : String × Toml) : Except Fault Settings :=
  if entry.1 = "quote" then (readStyle entry.2).map fun quote => { s with quote := quote }
  else if entry.1 = "void_tags" then
    (readTags entry.2).map fun tags => { s with voidTags := tags }
  else .ok s

/-- Settings listed by place; what follows the second is ignored. -/
def readItems : List Toml → Except Fault Settings
  | [] => .error .tooShort
  | style :: more =>
    (readStyle style).bind fun quote =>
      match more with
      | [] => .error .tooShort
      | tags :: _ => (readTags tags).map fun tags => ⟨quote, tags⟩

def readSection : Toml → Except Fault Settings
  | .table _ entries => entries.foldlM readEntry default
  | .array items => readItems items
  | .tables rows => readItems (rows.map (Toml.table .header))
  | .dateTime => .ok default
  | value => .error (.wrongType value .settings)

/-- The settings that a document makes; what it does not set keeps its default. -/
def parse (text : String) : Except Fault Settings :=
  match Toml.parse text with
  | none => .error .notToml
  | some entries =>
    match entries.lookup "markup" with
    | none => .ok default
    | some value => readSection value

end Stencil.Settings
