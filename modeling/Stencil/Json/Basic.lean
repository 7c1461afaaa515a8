import Stencil.Decimal.Layout
import Stencil.NameMap

/-! # JSON values

A number is kept as a natural number below 2 ^ 64, as a negative integer down to -2 ^ 63, or as a
double. The members of an object are in the order of their names.
-/
namespace Stencil

inductive Json
  | null
  | bool (value : Bool)
  | natural (value : Nat)
  /-- The number `-value`. -/
  | negative (value : Nat)
  | double (value : Float)
  | string (value : String)
  | array (items : List Json)
  | object (members : List (String × Json))

namespace Json

/-- Doubles are positional from 0.00001 up to sixteen digits before the point; there are no
spellings of infinities, because none is ever read. -/
def doubleLayout : Decimal.Layout := ⟨-5, 15, "null", "null"⟩

/-- What a value is, in words. -/
def kind : Json → String
  | null => "null"
  | bool _ => "a boolean"
  | natural _ | negative _ | double _ => "a number"
  | string _ => "a string"
  | array _ => "an array"
  | object _ => "an object"

end Json
end Stencil
