import Stencil.Data.Value
import Stencil.Json.Reader

/-! # Taking in data

Data arrives as JSON text whose outermost value is an object.
-/
namespace Stencil

inductive DataError
  | notAnObject (found : String)
  | malformed (fault : Json.SyntaxFault)

def DataError.message : DataError → String
  | notAnObject found => "data must be a JSON object, found " ++ found
  | malformed fault => "invalid JSON data: " ++ fault.message

namespace Record

def ofJson : Json → Except DataError Record
  | .object members => .ok (Value.ofMembers members)
  | json => .error (.notAnObject json.kind)

def parse (text : String) : Except DataError Record :=
  match Json.parse text with
  | .ok json => ofJson json
  | .error fault => .error (.malformed fault)

end Record
end Stencil
