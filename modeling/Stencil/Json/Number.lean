import Stencil.Json.Cursor

/-! # JSON numbers

A number without a fraction and an exponent is an integer where one of 64 bits can hold it, except
that `-0` is a double. Every other number is a double: the leading digits that fit in 64 bits,
scaled by one multiplication or division with a power of ten, so the result need not be the double
nearest to the text.
-/
namespace Stencil.Json

/-- How many numbers 64 bits can hold. -/
abbrev wordSize : Nat := 0x10000000000000000

def digitValue (c : Char) : Nat := c.toNat - '0'.toNat

/-- Appends digits while the number stays below 2 ^ 64, and counts the digits left out. -/
def keepWhole (significand : Nat) : List Char → Nat × Nat
  | [] => (significand, 0)
  | d :: rest =>
    let next := 10 * significand + digitValue d
    if next < wordSize then keepWhole next rest else (significand, rest.length + 1)

/-- Appends digits behind the point while the number stays below 2 ^ 64; the exponent follows. -/
def keepFraction (significand : Nat) (exponent : Int) : List Char → Nat × Int
  | [] => (significand, exponent)
  | d :: rest =>
    let next := 10 * significand + digitValue d
    if next < wordSize then keepFraction next (exponent - 1) rest else (significand, exponent)

/-- The number that the digits of an exponent write, or how many of them leave 32 bits. -/
def exponentValue (value read : Nat) : List Char → Except Nat Nat
  | [] => .ok value
  | d :: rest =>
    let next := 10 * value + digitValue d
    if next < 0x80000000 then exponentValue next (read + 1) rest else .error (read + 1)

def powerOfTen (n : Nat) : Float := Float.ofScientific 1 false n

/-- `significand * 10 ^ exponent` as a double, or nothing if it is too large. -/
def scale (significand : Nat) (exponent : Int) : Option Float :=
  let x := Float.ofNat significand
  if exponent < -616 then some 0
  else if exponent < -308 then
    some (x / powerOfTen 308 / powerOfTen (-(exponent + 308)).toNat)
  else if exponent < 0 then some (x / powerOfTen (-exponent).toNat)
  else if exponent ≤ 308 then
    let y := x * powerOfTen exponent.toNat
    if y.isInf then none else some y
  else if significand = 0 then some 0
  else none

def ofInteger (isNegative : Bool) (significand : Nat) : Json :=
  if !isNegative then .natural significand
  else if significand = 0 || wordSize / 2 < significand then .double (-Float.ofNat significand)
  else .negative significand

def numberText : Json → String
  | natural n => toString n
  | negative n => "-" ++ toString n
  | double x => doubleLayout.write x
  | _ => ""

namespace Cursor

def digits (c : Cursor) : List Char := c.rest.takeWhile Char.isDigit

def signed (isNegative : Bool) (x : Float) : Json := .double (if isNegative then -x else x)

/-- The double `significand * 10 ^ exponent`, read up to the cursor. -/
def double (c : Cursor) (isNegative : Bool) (significand : Nat) (exponent : Int) :
    Except SyntaxFault (Json × Cursor) :=
  match scale significand exponent with
  | some x => .ok (signed isNegative x, c)
  | none => .error (c.fault .numberOutOfRange)

def exponent (c : Cursor) (isNegative : Bool) (significand : Nat) (shift : Int) :
    Except SyntaxFault (Json × Cursor) :=
  if c.rest.head? = some 'e' || c.rest.head? = some 'E' then
    let c := c.skip 1
    let below := c.rest.head? = some '-'
    let c := if below || c.rest.head? = some '+' then c.skip 1 else c
    match c.digits with
    | [] => .error (c.faultNext (if c.rest.isEmpty then .endInValue else .invalidNumber))
    | d :: ds =>
      match exponentValue 0 0 (d :: ds) with
      | .error read =>
        if significand ≠ 0 && !below then .error ((c.skip read).fault .numberOutOfRange)
        else .ok (signed isNegative 0, c.skip (ds.length + 1))
      | .ok e =>
        let exponent := if below then shift - e else shift + e
        (c.skip (ds.length + 1)).double isNegative significand exponent
  else c.double isNegative significand shift

def number (c : Cursor) (isNegative : Bool) : Except SyntaxFault (Json × Cursor) :=
  let whole := c.digits
  match whole with
  | [] => .error (c.faultNext (if c.rest.isEmpty then .endInValue else .invalidNumber))
  | '0' :: _ :: _ => .error ((c.skip 1).faultNext .invalidNumber)
  | _ =>
    let (significand, dropped) := keepWhole 0 whole
    let c := c.skip whole.length
    match c.rest with
    | '.' :: _ =>
      let c := c.skip 1
      match c.digits with
      | [] => .error (c.faultNext (if c.rest.isEmpty then .endInValue else .invalidNumber))
      | fraction =>
        let (significand, shift) := keepFraction significand dropped fraction
        (c.skip fraction.length).exponent isNegative significand shift
    | 'e' :: _ | 'E' :: _ => c.exponent isNegative significand dropped
    | _ =>
      if dropped = 0 then .ok (ofInteger isNegative significand, c)
      else c.double isNegative significand dropped

theorem left_double {c d : Cursor} {n : Bool} {s : Nat} {e : Int} {v : Json}
    (h : c.double n s e = .ok (v, d)) : d = c := by
  unfold double at h
  split at h <;> simp_all

theorem left_exponent {c d : Cursor} {n : Bool} {s : Nat} {e : Int} {v : Json}
    (h : c.exponent n s e = .ok (v, d)) : d.left ≤ c.left := by
  unfold exponent at h
  grind [left_double, left_skip]

theorem length_digits (c : Cursor) : c.digits.length ≤ c.left :=
  (List.takeWhile_sublist _).length_le

theorem left_number {c d : Cursor} {n : Bool} {v : Json}
    (h : c.number n = .ok (v, d)) : d.left < c.left := by
  have hd := length_digits c
  have hp : c.digits ≠ [] → 0 < c.digits.length := List.length_pos_iff.mpr
  unfold number at h
  grind [→ left_double, → left_exponent, left_skip]

end Cursor
end Stencil.Json
