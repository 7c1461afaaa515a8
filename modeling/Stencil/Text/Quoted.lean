import Stencil.Text.Classes

/-! # Quoted text

A quotation shows a text between double quotes so that every character of it can be seen: line
ends, tabs and NUL have short escapes, quotes and backslashes are escaped, and a hidden character
is given by its code point.
-/
namespace Stencil.Text

def quotedChar (c : Char) : List Char :=
  match c with
  | '\x00' => ['\\', '0']
  | '\t' => ['\\', 't']
  | '\r' => ['\\', 'r']
  | '\n' => ['\\', 'n']
  | '\\' => ['\\', '\\']
  | '"' => ['\\', '"']
  | c => if isHidden c then '\\' :: 'u' :: '{' :: Nat.toDigits 16 c.toNat ++ ['}'] else [c]

def quoted (text : String) : String :=
  String.ofList ('"' :: text.toList.flatMap quotedChar ++ ['"'])

end Stencil.Text
