/-! # Paths to points

A path leads from the root element of rendered markup to the element of a point, one segment per
level. Positions count the element children of the parent; text is passed over. `resolve` finds the
child that a segment leads to, `capture` asks whether a given child is one that it leads to.

Positions are machine words. A sum of two of them that is not a machine word stops the program, so
whatever forms such a sum may have no answer.
-/
namespace Stencil

/-- How many machine words there are, 2 ^ 64. -/
abbrev wordSize : Nat := 0x10000000000000000

/-- A sum of machine words that is none. -/
structure Overflow where
  deriving DecidableEq

def Overflow.message (_ : Overflow) : String := "attempt to add with overflow"

/-- An answer, unless some sum on the way to it overflows. -/
abbrev Checked (α : Type) := Except Overflow α

def wordAdd (a b : Nat) : Checked Nat := if a + b < wordSize then .ok (a + b) else .error {}

inductive Segment
  /-- A fixed position. -/
  | index (position : Nat)
  /-- A fixed position counted from the last child backwards, for what follows a repetition. -/
  | fromEnd (offset : Nat)
  /-- A repetition of the point `key`, chosen when the path is followed. The repetitions start at
  `base`, and `trailing` fixed siblings follow them. -/
  | repeated (key : String) (base trailing : Nat)
  deriving DecidableEq, Inhabited

namespace Segment

/-- Position of a child `offset` places before the last of `count`, if there are that many. -/
def backwards (offset count : Nat) : Checked (Option Nat) := do
  let k ← wordAdd offset 1
  return if k ≤ count then some (count - k) else none

/-- Position of a repetition, if it and the siblings that follow are among `count` children. -/
def forwards (base trailing index count : Nat) : Checked (Option Nat) := do
  let position ← wordAdd base index
  let last ← wordAdd position trailing
  return if last < count then some position else none

/-- Where the segment leads to among `count` element children, be there such a child or not. Only a
repeated segment uses the `index`. -/
def target (s : Segment) (index : Option Nat) (count : Nat) : Checked (Option Nat) :=
  match s, index with
  | .index position, _ => return some position
  | .fromEnd offset, _ => backwards offset count
  | .repeated _ base trailing, some index => forwards base trailing index count
  | .repeated .., none => return none

def resolve (s : Segment) (index : Option Nat) (count : Nat) : Checked (Option Nat) :=
  return (← s.target index count).filter (· < count)

/-- Whether the segment leads to child `actual` of `count`; for a repeated segment also with which
repetition index. -/
def capture (s : Segment) (actual count : Nat) : Checked (Option (Option Nat)) :=
  match s with
  | .index position => return if position = actual then some none else none
  | .fromEnd offset => return if (← backwards offset count) = some actual then some none else none
  | .repeated _ base trailing =>
    if base ≤ actual then
      return if (← wordAdd actual trailing) < count then some (some (actual - base)) else none
    else return none

def key? : Segment → Option String
  | .repeated key _ _ => some key
  | _ => none

def text : Segment → Checked String
  | .index position => return toString position
  | .fromEnd offset => return "-" ++ toString (← wordAdd offset 1)
  | .repeated key 0 0 => return key
  | .repeated key base trailing =>
    return key ++ "[" ++ toString base ++ "..-" ++ toString trailing ++ "]"

end Segment

abbrev Path := List Segment

def Path.text (path : Path) : Checked String :=
  return "[" ++ ", ".intercalate (← path.mapM Segment.text) ++ "]"

end Stencil
