import TagLint.Text.Hidden

/-!
# Quoted text

Messages show paths and strings between double quotes. A quote, a backslash and the common controls
are written with a backslash, and every other character without a visible form is written by its
number in hexadecimal.
-/

namespace TagLint.Text

/-- The digits of a number in base sixteen, with small letters. -/
def hexDigits (n : Nat) : List Char :=
  Nat.toDigits 16 n

/-- How one character is written between quotes. -/
def quoteChar (c : Char) : List Char :=
  match c with
  | '"' => ['\\', '"']
  | '\\' => ['\\', '\\']
  | '\n' => ['\\', 'n']
  | '\r' => ['\\', 'r']
  | '\t' => ['\\', 't']
  | '\x00' => ['\\', '0']
  | c => if isHidden c then ['\\', 'u', '\x7b'] ++ hexDigits c.toNat ++ ['\x7d'] else [c]

/-- A text between double quotes. -/
def quoted (text : String) : String :=
  String.ofList ('"' :: text.toList.flatMap quoteChar ++ ['"'])

end TagLint.Text
