import Stencil.Point.Survey
import Stencil.Registry.Order
import Stencil.Settings.Basic
import Stencil.Source.Parse

/-! # The registry of templates

A registry holds compiled templates by name, and the settings they are rendered with. The first
registration of a name stays; later ones change nothing. A source is registered as a whole or not
at all, its templates in an order in which references come first.
-/
namespace Stencil

inductive TemplateError
  | notFound (name : String)
  | unknownPoint (template point : String)
  | ambiguousPoint (template point : String)
  | duplicate (name : String)
  /-- Names from a template back to itself, each of which references the next. -/
  | circularReference (chain : List String)
  | malformed (error : Source.ParseError)
  deriving DecidableEq

def TemplateError.message : TemplateError → String
  | notFound name => "template not found: " ++ name
  | unknownPoint template point => "template " ++ template ++ " has no point " ++ point
  | ambiguousPoint template point =>
    "point " ++ point ++ " of template " ++ template ++ " is ambiguous"
  | duplicate name => "duplicate template definition: " ++ name
  | circularReference chain =>
    "circular template reference detected: " ++ " -> ".intercalate chain
  | malformed _ => "template source has 1 parse error(s)"

structure Registry where
  settings : Settings
  templates : NameMap Descriptor

/-- A template to register on first use, behind the ones it depends on. -/
inductive Request
  | make (name : String) (root : Node) (dependencies : List Request)

namespace Registry

def withSettings (settings : Settings) : Registry := ⟨settings, []⟩

def empty : Registry := withSettings .default

instance : Inhabited Registry := ⟨empty⟩

def get? (r : Registry) (name : String) : Option Descriptor := r.templates.find? name

def contains (r : Registry) (name : String) : Bool := r.templates.contains name

def names (r : Registry) : List String := r.templates.names

/-- Compiles and stores a template, unless its name is taken. -/
def register (r : Registry) (name : String) (root : Node) : Registry :=
  if r.contains name then r
  else { r with templates := r.templates.insert name (.compile r.get? name root) }

mutual

/-- Registers a template unless its name is taken, and what it depends on first. The names that had
to be built are listed in the order in which building them began. -/
def ensure (r : Registry) : Request → Registry × List String
  | .make name root dependencies =>
    if r.contains name then (r, [])
    else
      let (r, built) := r.ensureAll dependencies
      (r.register name root, name :: built)

def ensureAll (r : Registry) : List Request → Registry × List String
  | [] => (r, [])
  | request :: rest =>
    let (r, built) := r.ensure request
    let (r, later) := r.ensureAll rest
    (r, built ++ later)

end

def firstRepeated (seen : List String) : List String → Option String
  | [] => none
  | name :: rest => if name ∈ seen then some name else firstRepeated (name :: seen) rest

/-- The declared trees by name, and the order in which they have to be compiled. -/
def arrange (declarations : List Source.Declaration) :
    Except TemplateError (NameMap Node × List String) :=
  let order := declarations.map (·.name)
  match firstRepeated [] order with
  | some name => .error (.duplicate name)
  | none =>
    let declared := NameMap.ofList (declarations.map fun d => (d.name, d.root))
    match Declarations.sort declared order with
    | .error chain => .error (.circularReference chain)
    | .ok sorted => .ok (declared, sorted)

/-- Registers the templates named, as they are declared. -/
def registerAll (r : Registry) (declared : NameMap Node) (names : List String) : Registry :=
  names.foldl (fun r name =>
    match declared.find? name with
    | some root => r.register name root
    | none => r) r

/-- Registers every template of a source, and lists their names in the order of compilation. -/
def registerSource (r : Registry) (source : String) :
    Registry × Except TemplateError (List String) :=
  match Source.parse source with
  | .error e => (r, .error (.malformed e))
  | .ok declarations =>
    match arrange declarations with
    | .error e => (r, .error e)
    | .ok (declared, sorted) => (r.registerAll declared sorted, .ok sorted)

end Registry
end Stencil
