import Stencil.Decimal.Layout
import Stencil.Text.Digits
import Stencil.Toml.Basic

/-! # TOML strings, numbers and times

Each reader takes the characters from the first one of a value and hands on what follows the value.
It gives nothing if there is no such value.
-/
namespace Stencil.Toml
open Text (hexDigit? numberOf)

def isSpace (c : Char) : Bool := c == ' ' || c == '\t'

/-- Characters that may stand in a comment or, quotes and backslashes apart, in a string. -/
def isPlain (c : Char) : Bool := c == '\t' || (' ' ≤ c && c != '\x7f')

def lineEnd? : List Char → Option (List Char)
  | '\n' :: rest => some rest
  | '\r' :: '\n' :: rest => some rest
  | _ => none

def charOfHex? (n : Nat) (cs : List Char) : Option Char :=
  let digits := cs.take n
  let code := numberOf 16 digits
  if digits.length = n ∧ digits.all (hexDigit? · |>.isSome) ∧ code.isValidChar then
    some (Char.ofNat code)
  else none

def escape? : List Char → Option (Char × Nat)
  | 'b' :: _ => some ('\x08', 1)
  | 't' :: _ => some ('\t', 1)
  | 'n' :: _ => some ('\n', 1)
  | 'f' :: _ => some ('\x0c', 1)
  | 'r' :: _ => some ('\r', 1)
  | '"' :: _ => some ('"', 1)
  | '\\' :: _ => some ('\\', 1)
  | 'u' :: rest => (charOfHex? 4 rest).map (·, 5)
  | 'U' :: rest => (charOfHex? 8 rest).map (·, 9)
  | _ => none

def prepend (c : Char) : Option (List Char × List Char) → Option (List Char × List Char)
  | some (text, rest) => some (c :: text, rest)
  | none => none

def basic? : List Char → Option (List Char × List Char)
  | [] => none
  | '"' :: rest => some ([], rest)
  | '\\' :: rest =>
    match escape? rest with
    | none => none
    | some (c, n) => prepend c (basic? (rest.drop n))
  | c :: rest => if isPlain c then prepend c (basic? rest) else none
termination_by cs => cs.length
decreasing_by all_goals simp; try omega

def literal? : List Char → Option (List Char × List Char)
  | [] => none
  | '\'' :: rest => some ([], rest)
  | c :: rest => if isPlain c then prepend c (literal? rest) else none

/-- Behind the blanks and line ends that a backslash at the end of a line removes. -/
def pastFold : List Char → List Char
  | '\r' :: '\n' :: rest => pastFold rest
  | c :: rest => if c == '\n' || isSpace c then pastFold rest else c :: rest
  | [] => []

theorem length_pastFold_le (cs : List Char) : (pastFold cs).length ≤ cs.length := by
  fun_induction pastFold cs <;> simp <;> omega

theorem length_lineEnd {cs rest : List Char} (h : lineEnd? cs = some rest) :
    rest.length < cs.length := by
  unfold lineEnd? at h
  split at h
  · cases h
    exact Nat.lt_succ_self _
  · cases h
    exact Nat.lt_succ_of_lt (Nat.lt_succ_self _)
  · cases h

/-- A string behind three double quotes. Up to two quotes may stand before the closing three. -/
def multilineBasic? : List Char → Option (List Char × List Char)
  | [] => none
  | '"' :: '"' :: '"' :: '"' :: '"' :: rest => some (['"', '"'], rest)
  | '"' :: '"' :: '"' :: '"' :: rest => some (['"'], rest)
  | '"' :: '"' :: '"' :: rest => some ([], rest)
  | '\\' :: rest =>
    match escape? rest with
    | some (c, n) => prepend c (multilineBasic? (rest.drop n))
    | none =>
      match h : lineEnd? (rest.dropWhile isSpace) with
      | none => none
      | some after =>
        have := length_lineEnd h
        have := (rest.dropWhile_sublist isSpace).length_le
        have := length_pastFold_le after
        multilineBasic? (pastFold after)
  | '\r' :: '\n' :: rest => prepend '\n' (multilineBasic? rest)
  | c :: rest => if isPlain c || c == '\n' then prepend c (multilineBasic? rest) else none
termination_by cs => cs.length
decreasing_by all_goals simp_all; try omega

/-- A string behind three single quotes. Up to two quotes may stand before the closing three. -/
def multilineLiteral? : List Char → Option (List Char × List Char)
  | [] => none
  | '\'' :: '\'' :: '\'' :: '\'' :: '\'' :: rest => some (['\'', '\''], rest)
  | '\'' :: '\'' :: '\'' :: '\'' :: rest => some (['\''], rest)
  | '\'' :: '\'' :: '\'' :: rest => some ([], rest)
  | '\r' :: '\n' :: rest => prepend '\n' (multilineLiteral? rest)
  | c :: rest => if isPlain c || c == '\n' then prepend c (multilineLiteral? rest) else none

/-- A line end right behind the opening quotes does not count. -/
def pastFirstLineEnd (cs : List Char) : List Char := (lineEnd? cs).getD cs

def quoted? : List Char → Option (String × List Char)
  | '"' :: rest => (basic? rest).map fun (text, rest) => (String.ofList text, rest)
  | '\'' :: rest => (literal? rest).map fun (text, rest) => (String.ofList text, rest)
  | _ => none

def string? : List Char → Option (String × List Char)
  | '"' :: '"' :: '"' :: rest =>
    (multilineBasic? (pastFirstLineEnd rest)).map fun (text, rest) => (String.ofList text, rest)
  | '\'' :: '\'' :: '\'' :: rest =>
    (multilineLiteral? (pastFirstLineEnd rest)).map fun (text, rest) => (String.ofList text, rest)
  | cs => quoted? cs

/-- Exactly `n` digits that write a number in a range. -/
def field? (n low high : Nat) (cs : List Char) : Option (Nat × List Char) :=
  let digits := cs.take n
  let value := numberOf 10 digits
  if digits.length = n ∧ digits.all Char.isDigit ∧ low ≤ value ∧ value ≤ high then
    some (value, cs.drop n)
  else none

def sign? (c : Char) : List Char → Option (List Char)
  | x :: rest => if x = c then some rest else none
  | [] => none

def daysOf (year month : Nat) : Nat :=
  let leap := year % 4 == 0 && (year % 100 != 0 || year % 400 == 0)
  if month = 2 then if leap then 29 else 28
  else if month ∈ [4, 6, 9, 11] then 30
  else 31

def date? (cs : List Char) : Option (List Char) := do
  let (year, cs) ← field? 4 0 9999 cs
  let (month, cs) ← field? 2 1 12 (← sign? '-' cs)
  let (_, cs) ← field? 2 1 (daysOf year month) (← sign? '-' cs)
  return cs

/-- Behind a time of day, with a fraction of the second if there is one. -/
def time? (cs : List Char) : Option (List Char) := do
  let (_, cs) ← field? 2 0 23 cs
  let (_, cs) ← field? 2 0 59 (← sign? ':' cs)
  let (_, cs) ← field? 2 0 60 (← sign? ':' cs)
  match cs with
  | '.' :: d :: rest => return if d.isDigit then rest.dropWhile Char.isDigit else cs
  | cs => return cs

def offset? : List Char → Option (List Char)
  | c :: cs =>
    if c == 'Z' || c == 'z' then some cs
    else if c == '+' || c == '-' then do
      let (_, cs) ← field? 2 0 23 cs
      let (_, cs) ← field? 2 0 59 (← sign? ':' cs)
      return cs
    else none
  | [] => none

def dateTime? (cs : List Char) : Option (List Char) :=
  match date? cs with
  | none => time? cs
  | some rest =>
    match rest with
    | c :: more =>
      if c == 'T' || c == 't' || c == ' ' then
        match time? more with
        | some rest => some ((offset? rest).getD rest)
        | none => some rest
      else some rest
    | [] => some rest

/-- Digits with single underscores between them: the digits, and what follows. -/
def digitRun (isDigit : Char → Bool) : List Char → List Char × List Char
  | '_' :: c :: rest =>
    if isDigit c then
      let (digits, rest) := digitRun isDigit rest
      (c :: digits, rest)
    else ([], '_' :: c :: rest)
  | c :: rest =>
    if isDigit c then
      let (digits, rest) := digitRun isDigit rest
      (c :: digits, rest)
    else ([], c :: rest)
  | [] => ([], [])

def digits? (isDigit : Char → Bool) (cs : List Char) : Option (List Char × List Char) :=
  match cs with
  | c :: _ => if isDigit c then some (digitRun isDigit cs) else none
  | [] => none

def whole? (cs : List Char) : Option (List Char × List Char) :=
  match cs with
  | '0' :: rest => some (['0'], rest)
  | cs => digits? Char.isDigit cs

/-- An integer has to fit in 64 bits. -/
def integer? (value : Int) (rest : List Char) : Option (Toml × List Char) :=
  if -0x8000000000000000 ≤ value ∧ value < 0x8000000000000000 then some (.integer value, rest)
  else none

def nearest (digits : Nat) (exponent : Int) : Float :=
  let leading := (Decimal.digitCount digits : Int) + exponent
  if digits = 0 ∨ leading < -400 then 0
  else if 400 < leading then 1 / 0
  else Float.ofScientific digits (decide (exponent < 0)) exponent.natAbs

/-- A float that is too large is refused unless it is negative. -/
def float? (isNegative : Bool) (digits : Nat) (exponent : Int) (rest : List Char) :
    Option (Toml × List Char) :=
  let x := nearest digits exponent
  if isNegative then some (.float (-x), rest)
  else if x.isInf then none
  else some (.float x, rest)

def exponent? (cs : List Char) : Option (Int × List Char) :=
  match cs with
  | '-' :: cs => (digits? Char.isDigit cs).map fun (ds, rest) => (-(numberOf 10 ds : Int), rest)
  | '+' :: cs => (digits? Char.isDigit cs).map fun (ds, rest) => ((numberOf 10 ds : Int), rest)
  | cs => (digits? Char.isDigit cs).map fun (ds, rest) => ((numberOf 10 ds : Int), rest)

def scaled? (isNegative : Bool) (ds fraction rest : List Char) : Option (Toml × List Char) := do
  let digits := numberOf 10 (ds ++ fraction)
  match rest with
  | c :: more =>
    if c == 'e' || c == 'E' then
      let (e, rest) ← exponent? more
      float? isNegative digits (e - fraction.length) rest
    else float? isNegative digits (-fraction.length) rest
  | [] => float? isNegative digits (-fraction.length) []

def decimal? (isNegative : Bool) (cs : List Char) : Option (Toml × List Char) := do
  match cs with
  | 'i' :: 'n' :: 'f' :: rest => return (.float (if isNegative then -1 / 0 else 1 / 0), rest)
  | 'n' :: 'a' :: 'n' :: rest => return (.float (0 / 0), rest)
  | cs =>
    let (ds, rest) ← whole? cs
    match rest with
    | '.' :: more =>
      let (fraction, rest) ← digits? Char.isDigit more
      scaled? isNegative ds fraction rest
    | 'e' :: _ | 'E' :: _ => scaled? isNegative ds [] rest
    | rest =>
      let n : Int := numberOf 10 ds
      integer? (if isNegative then -n else n) rest

/-- An integer to base 16, 8 or 2 behind the letter that says so. -/
def based? (base : Nat) (cs : List Char) : Option (Toml × List Char) := do
  let (ds, rest) ← digits? (fun c => (hexDigit? c).any (· < base)) cs
  integer? (numberOf base ds) rest

def number? : List Char → Option (Toml × List Char)
  | '+' :: cs => decimal? false cs
  | '-' :: cs => decimal? true cs
  | '0' :: 'x' :: cs => based? 16 cs
  | '0' :: 'o' :: cs => based? 8 cs
  | '0' :: 'b' :: cs => based? 2 cs
  | cs => decimal? false cs

def scalar? (cs : List Char) : Option (Toml × List Char) :=
  match cs with
  | '"' :: _ | '\'' :: _ => (string? cs).map fun (text, rest) => (.string text, rest)
  | 't' :: 'r' :: 'u' :: 'e' :: rest => some (.boolean true, rest)
  | 'f' :: 'a' :: 'l' :: 's' :: 'e' :: rest => some (.boolean false, rest)
  | cs =>
    match dateTime? cs with
    | some rest => some (.dateTime, rest)
    | none => number? cs

end Stencil.Toml
