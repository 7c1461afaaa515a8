import Stencil.Attributes
import Stencil.Json.Number

/-! # Data bound to points

A value is replacement markup, a nested record, or a sequence of repetition items. A record maps
point names to values in the order of the names; the attribute overrides of a point stand under the
point's name behind an at sign. `Record.ofJson` takes a JSON object: null members are left out,
while a null item becomes an empty record so that the items behind it keep their positions.
-/
namespace Stencil

inductive Value
  | scalar (markup : String)
  | item (fields : List (String × Value))
  | sequence (items : List Value)

/-- A scope of data: its fields in the order of their names. -/
abbrev Record := NameMap Value

/-- Key that binds the root of a template, or of the part that is rendered. -/
def rootKey : String := "_root"

def attributeKey (point : String) : String := "@" ++ point

namespace Value

instance : Inhabited Value := ⟨.scalar ""⟩

def asScalar? : Value → Option String
  | scalar markup => some markup
  | _ => none

def asItem? : Value → Option Record
  | item fields => some fields
  | _ => none

/-- A scalar is shown as it is, anything else by its kind. -/
def text : Value → String
  | scalar markup => markup
  | item _ => "<item>"
  | sequence _ => "<sequence>"

end Value

/-- The scalar fields of a record as attributes, in the order of their names. -/
def Record.scalarAttributes (record : Record) : Attributes :=
  Attributes.ofList (record.filterMap fun (key, value) => value.asScalar?.map (key, ·))

/-- A value read as attribute overrides: an item gives its scalar fields; a sequence gives the entry
at `index` if that is an item, and nothing without an index. -/
def Value.attributesAt (value : Value) (index : Option Nat) : Option Attributes :=
  match value with
  | scalar _ => none
  | item fields => some (Record.scalarAttributes fields)
  | sequence items =>
    match index.bind (items[·]?) with
    | some (item fields) => some (Record.scalarAttributes fields)
    | _ => none

namespace Record

def ofAttributes (attributes : Attributes) : Record :=
  NameMap.ofList (attributes.entries.map fun (key, value) => (key, .scalar value))

def setAttributes (record : Record) (point : String) (attributes : Attributes) : Record :=
  record.insert (attributeKey point) (.item (ofAttributes attributes))

/-- Sets overrides for the repetitions of a point, one map for each. -/
def setAttributesEach (record : Record) (point : String) (each : List Attributes) : Record :=
  record.insert (attributeKey point) (.sequence (each.map fun a => .item (ofAttributes a)))

end Record

namespace Value

mutual

/-- The value a JSON value stands for; null stands for none. -/
def ofJson? : Json → Option Value
  | .null => none
  | .bool true => some (.scalar "true")
  | .bool false => some (.scalar "false")
  | .natural n => some (.scalar (Json.numberText (.natural n)))
  | .negative n => some (.scalar (Json.numberText (.negative n)))
  | .double x => some (.scalar (Json.numberText (.double x)))
  | .string s => some (.scalar s)
  | .array items => some (.sequence (ofItems items))
  | .object members => some (.item (ofMembers members))

def ofItems : List Json → List Value
  | [] => []
  | json :: rest => (ofJson? json).getD (.item []) :: ofItems rest

def ofMembers : List (String × Json) → List (String × Value)
  | [] => []
  | (name, json) :: rest =>
    match ofJson? json with
    | none => ofMembers rest
    | some value => (name, value) :: ofMembers rest

end

end Value
end Stencil
