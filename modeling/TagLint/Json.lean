import TagLint.Text.Quoted

/-!
# JSON text

A value whose objects keep their fields in order, and two ways to write it: `Json.compact` without
any space and `Json.pretty` with one field or element a line, indented by two spaces.
-/

namespace TagLint

/-- A JSON value. Fields are written in the order in which they are listed. -/
inductive Json
  | bool (b : Bool)
  | nat (n : Nat)
  | str (s : String)
  | arr (elements : List Json)
  | obj (fields : List (String × Json))
deriving Inhabited

namespace Json

/-- How one character is written in a string. Quotes, backslashes and controls are escaped, all else
stands for itself. -/
def escapeChar (c : Char) : List Char :=
  match c with
  | '"' => ['\\', '"']
  | '\\' => ['\\', '\\']
  | '\x08' => ['\\', 'b']
  | '\x0c' => ['\\', 'f']
  | '\n' => ['\\', 'n']
  | '\r' => ['\\', 'r']
  | '\t' => ['\\', 't']
  | c =>
    if c.toNat < 0x10 then ['\\', 'u', '0', '0', '0'] ++ Text.hexDigits c.toNat
    else if c.toNat < 0x20 then ['\\', 'u', '0', '0'] ++ Text.hexDigits c.toNat
    else [c]

/-- A string with its quotes. -/
def string (s : String) : String :=
  String.ofList ('"' :: s.toList.flatMap escapeChar ++ ['"'])

/-! ## Without space -/

mutual

/-- The text of a value, without space. -/
def compact : Json → String
  | .bool b => if b then "true" else "false"
  | .nat n => toString n
  | .str s => string s
  | .arr elements => "[" ++ ",".intercalate (compactElements elements) ++ "]"
  | .obj fields => "\x7b" ++ ",".intercalate (compactFields fields) ++ "\x7d"

/-- The texts of the elements of an array. -/
def compactElements : List Json → List String
  | [] => []
  | v :: vs => compact v :: compactElements vs

/-- The texts of the fields of an object. -/
def compactFields : List (String × Json) → List String
  | [] => []
  | (key, v) :: rest => (string key ++ ":" ++ compact v) :: compactFields rest

end

/-! ## Indented -/

/-- A new line, indented to a depth. -/
def newline (depth : Nat) : String :=
  String.ofList ('\n' :: List.replicate (2 * depth) ' ')

/-- Entries between brackets, one a line. Nothing stands between the brackets if there are none. -/
def block (depth : Nat) (opening closing : String) (entries : List String) : String :=
  if entries.isEmpty then opening ++ closing
  else
    opening ++ newline (depth + 1) ++ ("," ++ newline (depth + 1)).intercalate entries
      ++ newline depth ++ closing

mutual

/-- The text of a value that stands at a depth, with one entry a line. -/
def prettyAt (depth : Nat) : Json → String
  | .bool b => if b then "true" else "false"
  | .nat n => toString n
  | .str s => string s
  | .arr elements => block depth "[" "]" (prettyElements (depth + 1) elements)
  | .obj fields => block depth "\x7b" "\x7d" (prettyFields (depth + 1) fields)

/-- The texts of the elements of an array. -/
def prettyElements (depth : Nat) : List Json → List String
  | [] => []
  | v :: vs => prettyAt depth v :: prettyElements depth vs

/-- The texts of the fields of an object. -/
def prettyFields (depth : Nat) : List (String × Json) → List String
  | [] => []
  | (key, v) :: rest => (string key ++ ": " ++ prettyAt depth v) :: prettyFields depth rest

end

/-- The indented text of a value. -/
def pretty (v : Json) : String :=
  prettyAt 0 v

end Json

end TagLint
