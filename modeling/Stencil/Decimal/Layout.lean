import Stencil.Decimal.Shortest

/-! # Writing decimals

How the digits of a number become text: where positional notation ends, and what an exponent looks
like. Trailing zeros of the digits are dropped first, so equal magnitudes have equal texts.
-/
namespace Stencil.Decimal

/-- Numbers whose leading digit stands for `10 ^ e` with `e` between `from` and `to` are written
positionally, the others with an exponent. -/
structure Layout where
  positionalFrom : Int
  positionalTo : Int
  infinity : String
  nan : String

/-- Digits without trailing zeros; zero keeps its one digit. -/
def Digits.trim (d : Digits) : Digits :=
  let text := (Nat.toDigits 10 d.digits).reverse
  let zeros := (text.takeWhile (· == '0')).length
  if d.digits = 0 then ⟨0, 0⟩ else ⟨d.digits / Nat.pow 10 zeros, d.exponent + zeros⟩

def Digits.leading (d : Digits) : Int := (digitCount d.digits : Int) - 1 + d.exponent

def zeros (n : Int) : List Char := List.replicate n.toNat '0'

/-- Digits with a point, and at least one digit on each side of it. -/
def Digits.positional (d : Digits) : List Char :=
  let text := Nat.toDigits 10 d.digits
  if 0 ≤ d.exponent then text ++ zeros d.exponent ++ ['.', '0']
  else if 0 ≤ d.leading then
    let whole := d.leading.toNat + 1
    text.take whole ++ '.' :: text.drop whole
  else '0' :: '.' :: zeros (-d.leading - 1) ++ text

/-- One digit, a point and the other digits if there are any, and the signed exponent. -/
def Digits.scientific (d : Digits) : List Char :=
  let text := Nat.toDigits 10 d.digits
  let fraction := if text.length ≤ 1 then [] else '.' :: text.drop 1
  let sign := if d.leading < 0 then '-' else '+'
  text.take 1 ++ fraction ++ 'e' :: sign :: Nat.toDigits 10 d.leading.natAbs

def Layout.digits (l : Layout) (d : Digits) : List Char :=
  let d := d.trim
  if l.positionalFrom ≤ d.leading && d.leading ≤ l.positionalTo then d.positional
  else d.scientific

/-- The text of a double in a layout: the fewest digits that read back as the same double. -/
def Layout.write (l : Layout) (x : Float) : String :=
  match ofFloat x with
  | (negative, some b) =>
    String.ofList ((if negative then ['-'] else []) ++ l.digits b.shortest)
  | (negative, none) =>
    if x.isNaN then l.nan else if negative then "-" ++ l.infinity else l.infinity

end Stencil.Decimal
