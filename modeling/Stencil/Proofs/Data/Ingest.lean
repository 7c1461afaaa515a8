import Stencil.Data.Ingest
import Stencil.Proofs.NameMap

/-! # Data that comes from JSON

A null member of an object is left out, and a null entry of an array keeps its place. So a name is
looked up in a record as it is in the object, and an index leads to the same entry in a sequence as
in the array.
-/
namespace Stencil
variable {json : Json} {text : String} {members : List (String × Json)}

namespace Json

def text? : Json → Option String
  | string text => some text
  | bool value => some (toString value)
  | natural n => some (numberText (.natural n))
  | negative n => some (numberText (.negative n))
  | double x => some (numberText (.double x))
  | _ => none

/-- The members of an object that are not null, each with the value it stands for. -/
def present (members : List (String × Json)) : Record :=
  members.filterMap fun e => (Value.ofJson? e.2).map (e.1, ·)

/-- The members of an object that have a text, as attributes. -/
def textMembers (members : List (String × Json)) : Attributes :=
  .ofList (members.filterMap fun e => e.2.text?.map (e.1, ·))

/-- What overrides lay over the entry at an index: an object holds for all entries, and of an array
the object with the same index. -/
def overridesOf (overrides : Option Json) (index : Nat) : Attributes :=
  match overrides with
  | some (.object members) => textMembers members
  | some (.array entries) =>
    match entries[index]? with
    | some (.object members) => textMembers members
    | _ => .empty
  | _ => .empty

end Json

namespace Value

theorem ofJson?_of_text (h : json.text? = some text) : ofJson? json = some (.scalar text) := by
  cases json with
  | bool value => cases value <;> cases h <;> rfl
  | string | natural | negative | double => cases h; rfl
  | null | array | object => cases h

theorem asScalar?_ofJson? (json : Json) : (ofJson? json).bind asScalar? = json.text? := by
  cases json with
  | bool value => cases value <;> rfl
  | _ => rfl

theorem ofItems_eq_map (entries : List Json) :
    ofItems entries = entries.map fun json => (ofJson? json).getD (.item []) := by
  induction entries with
  | nil => rfl
  | cons json rest ih => rw [ofItems, ih, List.map_cons]

theorem ofMembers_eq_present (members : List (String × Json)) :
    ofMembers members = Json.present members := by
  induction members with
  | nil => rfl
  | cons e rest ih =>
    obtain ⟨name, json⟩ := e
    unfold Json.present at ih ⊢
    rw [ofMembers, List.filterMap_cons]
    cases ofJson? json with
    | none => exact ih
    | some value => exact congrArg _ ih

theorem find?_ofMembers (h : NameMap.Sorted members) (key : String) :
    NameMap.find? (ofMembers members) key = (NameMap.find? members key).bind ofJson? := by
  have hname (e : String × Json) (e' : String × Value)
      (he : (ofJson? e.2).map (e.1, ·) = some e') : e'.1 = e.1 := by
    obtain ⟨value, _, rfl⟩ := Option.map_eq_some_iff.1 he
    rfl
  rw [ofMembers_eq_present, Json.present, NameMap.find?_filterMap hname h]
  congr 1
  funext json
  cases ofJson? json <;> rfl

theorem scalarAttributes_ofMembers (members : List (String × Json)) :
    Record.scalarAttributes (ofMembers members) = Json.textMembers members := by
  rw [ofMembers_eq_present, Record.scalarAttributes, Json.present, List.filterMap_filterMap,
    Json.textMembers]
  congr 2
  funext e
  rw [← asScalar?_ofJson?]
  cases ofJson? e.2 <;> rfl

end Value

end Stencil
