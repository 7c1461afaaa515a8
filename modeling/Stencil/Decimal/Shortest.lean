/-! # Shortest decimal digits

A finite double stands for every real number that rounds to it. `Binary.shortest` picks, among the
decimals in that interval, one with the fewest digits, and among those the nearest to the double;
of two equally near ones it takes the even one. All arithmetic is on natural numbers.
-/
namespace Stencil.Decimal

/-- The magnitude `mantissa * 2 ^ exponent`. Where `narrow` holds, the next smaller double is only
half as far away as the next larger one. -/
structure Binary where
  mantissa : Nat
  exponent : Int
  narrow : Bool

structure Digits where
  digits : Nat
  exponent : Int

/-- The bit above the fraction of a double. -/
abbrev hidden : Nat := 0x10000000000000

/-- The fields of a double: its sign and, if it is finite, its magnitude. -/
def ofFloat (x : Float) : Bool × Option Binary :=
  let bits : Nat := x.toBits.toNat
  let negative := bits / 0x8000000000000000 == 1
  let biased : Nat := bits / hidden % 2048
  let fraction : Nat := bits % hidden
  if biased == 2047 then (negative, none)
  else if biased == 0 then (negative, some ⟨fraction, -1074, false⟩)
  else (negative, some ⟨hidden + fraction, (biased : Int) - 1075, fraction == 0 && 1 < biased⟩)

def digitCount (n : Nat) : Nat := (Nat.toDigits 10 n).length

/-- `num / den = 10 ^ e * t` with `1 ≤ t < 10`, for a positive fraction. -/
def leadingExponent (num den : Nat) : Int :=
  if den ≤ num then (digitCount (num / den) : Int) - 1
  else
    let k := digitCount (den / num)
    if den ≤ num * Nat.pow 10 (k - 1) then 1 - (k : Int) else -(k : Int)

namespace Binary

/-- The value as a fraction, over a denominator that also suits the ends of its interval. -/
def fraction (b : Binary) : Nat × Nat :=
  (4 * b.mantissa * Nat.pow 2 (b.exponent - 2).toNat, Nat.pow 2 (2 - b.exponent).toNat)

/-- The ends of the interval of numbers that round to `b`, over the same denominator. -/
def ends (b : Binary) : Nat × Nat :=
  let unit := Nat.pow 2 (b.exponent - 2).toNat
  ((4 * b.mantissa - if b.narrow then 1 else 2) * unit, (4 * b.mantissa + 2) * unit)

/-- Whether the fraction `num / den` rounds to `b`. The ends count if the mantissa is even. -/
def accepts (b : Binary) (num den : Nat) : Bool :=
  let (low, high) := b.ends
  let d := b.fraction.2
  if b.mantissa % 2 == 0 then low * den ≤ num * d && num * d ≤ high * den
  else low * den < num * d && num * d < high * den

/-- The accepted point of the grid of multiples of `10 ^ exponent` that is nearest to `b`. -/
def onGrid (b : Binary) (exponent : Int) : Option Digits :=
  let (num, den) := b.fraction
  let up := Nat.pow 10 exponent.toNat
  let down := Nat.pow 10 (-exponent).toNat
  let below := num * down / (den * up)
  let rest := num * down % (den * up)
  let lower := b.accepts (below * up) down
  let upper := b.accepts ((below + 1) * up) down
  let upperNearer := den * up < 2 * rest || (2 * rest == den * up && below % 2 == 1)
  if lower && !(upper && upperNearer) then some ⟨below, exponent⟩
  else if upper then some ⟨below + 1, exponent⟩
  else none

/-- The first grid with an accepted point, from one digit up to seventeen. -/
def shortest (b : Binary) : Digits :=
  if b.mantissa = 0 then ⟨0, 0⟩
  else
    let (num, den) := b.fraction
    let lead := leadingExponent num den
    ((List.range 17).findSome? fun (n : Nat) => b.onGrid (lead - n)).getD ⟨0, 0⟩

end Binary
end Stencil.Decimal
