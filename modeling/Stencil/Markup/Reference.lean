import Stencil.Markup.CharacterNames
import Stencil.Text.Digits

/-! # Character references

A reference names a character by its code point, or one or two characters by a name. Some names may
be written without their semicolon; in an attribute value that only counts where no letter, digit or
equals sign follows. The longest name wins, and what is no reference stays as it is written.
-/
namespace Stencil.Markup
open Text (hexDigit? numberOf)

/-- What the code points 0x80 to 0x9f stand for; nothing where they stand for themselves. -/
def controlMeaning : Nat → Nat
  | 0x80 => 0x20ac | 0x82 => 0x201a | 0x83 => 0x0192 | 0x84 => 0x201e | 0x85 => 0x2026
  | 0x86 => 0x2020 | 0x87 => 0x2021 | 0x88 => 0x02c6 | 0x89 => 0x2030 | 0x8a => 0x0160
  | 0x8b => 0x2039 | 0x8c => 0x0152 | 0x8e => 0x017d | 0x91 => 0x2018 | 0x92 => 0x2019
  | 0x93 => 0x201c | 0x94 => 0x201d | 0x95 => 0x2022 | 0x96 => 0x2013 | 0x97 => 0x2014
  | 0x98 => 0x02dc | 0x99 => 0x2122 | 0x9a => 0x0161 | 0x9b => 0x203a | 0x9c => 0x0153
  | 0x9e => 0x017e | 0x9f => 0x0178
  | n => n

def replacement : Char := '\ufffd'

/-- The character with a code point; zero, surrogates and numbers that are too large give the
replacement character. -/
def charOfCode (n : Nat) : Char :=
  if n = 0 then replacement
  else
    let n := controlMeaning n
    if n.isValidChar then Char.ofNat n else replacement

/-- What a reference stands for, and how many characters write it behind the ampersand. -/
structure Reference where
  chars : List Char
  length : Nat
  deriving DecidableEq

def numericReference? (cs : List Char) : Option Reference :=
  let (base, mark, digits) :=
    match cs with
    | 'x' :: rest | 'X' :: rest => (16, 2, rest.takeWhile fun c => (hexDigit? c).isSome)
    | _ => (10, 1, cs.takeWhile Char.isDigit)
  if digits.isEmpty then none
  else
    let size := mark + digits.length
    let closed := (cs.drop (size - 1)).head? = some ';'
    some ⟨[charOfCode (numberOf base digits)], if closed then size + 1 else size⟩

/-- A reference by a name of the table, with or without the semicolon. -/
def withName (cs : List Char) (close : Bool) (entry : String × List Nat) : Option Reference :=
  let name := entry.1.toList ++ if close then [';'] else []
  if name.isPrefixOf cs then some ⟨entry.2.map Char.ofNat, name.length⟩ else none

/-- The references by name that begin as some characters do. -/
def namedReferences (cs : List Char) : List Reference :=
  match cs with
  | [] => []
  | initial :: _ =>
    let opened := openNames.startingWith initial
    (opened ++ closedNames.startingWith initial).filterMap (withName cs true) ++
      opened.filterMap (withName cs false)

def namedReference? (cs : List Char) : Option Reference :=
  (namedReferences cs).foldl (fun best r =>
    match best with
    | none => some r
    | some b => if b.length < r.length then some r else some b) none

/-- Whether what follows a name without semicolon makes it part of a longer word in a value. -/
def continues (cs : List Char) (length : Nat) : Bool :=
  (cs.drop (length - 1)).head? != some ';' &&
    match (cs.drop length).head? with
    | some c => c == '=' || c.isAlphanum
    | none => false

def reference? (inValue : Bool) : List Char → Option Reference
  | '#' :: rest => numericReference? rest
  | cs => (namedReference? cs).filter fun r => !(inValue && continues cs r.length)

def decode (inValue : Bool) : List Char → List Char
  | [] => []
  | '&' :: rest =>
    match reference? inValue rest with
    | some r => r.chars ++ decode inValue (rest.drop r.length)
    | none => '&' :: decode inValue rest
  | c :: rest => c :: decode inValue rest
termination_by cs => cs.length
decreasing_by all_goals simp; try omega

end Stencil.Markup
