import TagLint.Settings.Toml

/-!
# Environment variables as settings

A variable whose name starts with `KT_` gives one value: the rest of its name is the path of keys to
the value, and its text is read by a small grammar of truth values, numbers, strings, lists and
tables. A text that does not fit the grammar is a string.

* `Variables.keyPath?`: the path of keys that a name stands for.
* `Variables.value`: the value that a text stands for.
* `Variables.table`: all variables together.
-/

namespace TagLint.Settings.Variables

/-! ## Names -/

/-- What the names of variables for this program start with, in any case. -/
def mark : List Char := ['K', 'T', '_']

/-- The name of a key that has an underscore of its own, as a variable spells it. It is only known
in capitals. -/
def underscoredName : List Char := "KPHPTAGS.MIN.SEVERITY".toList

/-- The path of `underscoredName`. -/
def underscoredPath : List Char := "KPHPTAGS.MIN_SEVERITY".toList

/-- The rest of a name after the mark. -/
def afterMark? (name : List Char) : Option (List Char) :=
  if (name.take mark.length).map Char.toUpper == mark then some (name.drop mark.length) else none

/-- The path of keys that the name of a variable stands for: its words between underscores, in small
letters. Nothing if the mark is missing or a word is empty. Blanks around the name and those after
the mark do not count, but `underscoredName` follows the mark directly. -/
def keyPath? (name : String) : Option (List String) := do
  let rest ← afterMark? (Text.trim name.toList)
  let dotted := rest.map fun c => if c == '_' then '.' else c
  let dotted := if dotted == underscoredName then underscoredPath else dotted
  let keys := Text.splitOn '.' ((Text.trim dotted).map Char.toLower)
  if keys.any List.isEmpty then none else some (keys.map String.ofList)

/-! ## Words -/

/-- Whether a character separates values. -/
def isSeparator (c : Char) : Bool :=
  c == ',' || c == '[' || c == ']' || c == '\x7b' || c == '\x7d'

/-- Whether a character is an ASCII blank, which may stand around values. -/
def isSpace (c : Char) : Bool :=
  c == ' ' || c == '\t' || c == '\n' || c == '\x0c' || c == '\r'

/-- Drops ASCII blanks. -/
def skipSpaces (cs : List Char) : List Char :=
  cs.dropWhile isSpace

/-- The number that decimal digits make; there must be some. -/
def natural? (digits : List Char) : Option Nat :=
  if digits.isEmpty then none else Toml.number? 10 digits

/-- The greatest number without a sign. -/
def maxUnsigned : Nat := Nat.pow 2 64 - 1

/-- The greatest number with a sign. -/
def maxSigned : Nat := Nat.pow 2 63 - 1

/-- A whole number that is not negative. A plus sign may come first. -/
def unsigned? (word : List Char) : Option Nat :=
  let digits := match word with
    | '+' :: rest => rest
    | word => word
  (natural? digits).filter (· ≤ maxUnsigned)

/-- A whole number after a minus sign. -/
def negative? : List Char → Option Int
  | '-' :: digits => ((natural? digits).filter (· ≤ maxSigned + 1)).map fun n => -(n : Int)
  | _ => none

/-- The exponent at the end of a number, zero if there is none. -/
def exponent? (cs : List Char) : Option Int :=
  match cs with
  | [] => some 0
  | c :: rest =>
    if c == 'e' || c == 'E' then
      let (negative, digits) := Toml.splitSign rest
      (natural? digits).map fun n => if negative then -(n : Int) else n
    else none

/-- A number with a point. Digits may be missing before the point or after it, but not both. -/
def decimal? (word : List Char) : Option Binary64 := do
  let (negative, cs) := Toml.splitSign word
  let whole := cs.takeWhile Char.isDigit
  match cs.drop whole.length with
  | '.' :: rest =>
    let fraction := rest.takeWhile Char.isDigit
    let exponent ← exponent? (rest.drop fraction.length)
    let digits ← natural? (whole ++ fraction)
    some (Binary64.ofDecimal negative digits (exponent - fraction.length))
  | _ => none

/-- The value of a word: a number if it is one, else a string. -/
def wordValue (word : List Char) : Value :=
  match decimal? word, unsigned? word, negative? word with
  | some x, _, _ => .float x
  | none, some n, _ => .unsigned n
  | none, none, some n => .signed n
  | none, none, none => .string (String.ofList word)

/-! ## Values -/

/-- As many characters from the start of a text as fit into so many bytes. -/
def takeBytes (width : Nat) : List Char → List Char
  | [] => []
  | c :: cs => if c.utf8Size ≤ width then c :: takeBytes (width - c.utf8Size) cs else []

/-- A string up to its closing quote. If it has an escape, the text before the first one is cut to as
many bytes as it has characters, so that only plain ASCII is kept whole there. -/
def quoted? (cs : List Char) : Option (List Char × List Char) :=
  let plain := cs.takeWhile fun c => c != '"' && c != '\\'
  (Toml.basicString? (cs.length + 1) cs).map fun (text, rest) =>
    if (cs.drop plain.length).head? == some '\\' then
      (takeBytes plain.length plain ++ text.drop plain.length, rest)
    else (text, rest)

/-- A key of a table: a word or a string. -/
def key? (cs : List Char) : Option (String × List Char) :=
  match cs with
  | '"' :: rest => (quoted? rest).map fun k => (String.ofList k.1, k.2)
  | cs =>
    let word := cs.takeWhile Toml.isBareKeyChar
    if word.isEmpty then none else some (String.ofList word, cs.drop word.length)

/-- A string between double quotes, or one character between single ones. -/
def string? : List Char → Option (Value × List Char)
  | '"' :: rest => (quoted? rest).map fun s => (.string (String.ofList s.1), s.2)
  | '\'' :: c :: '\'' :: rest => some (.character c, rest)
  | _ => none

mutual

/-- A value with the ASCII blanks around it. -/
def value? : (fuel : Nat) → List Char → Option (Value × List Char)
  | 0, _ => none
  | fuel + 1, cs => do
    let (v, rest) ←
      match skipSpaces cs with
      | 't' :: 'r' :: 'u' :: 'e' :: rest => some (Value.bool true, rest)
      | 'f' :: 'a' :: 'l' :: 's' :: 'e' :: rest => some (Value.bool false, rest)
      | '\x7b' :: rest => (pairs? fuel rest).map fun fields => (Value.table fields.1, fields.2)
      | '[' :: rest => (elements? fuel rest).map fun vs => (Value.list vs.1, vs.2)
      | '"' :: rest => string? ('"' :: rest)
      | '\'' :: rest => string? ('\'' :: rest)
      | cs =>
        let word := cs.takeWhile (!isSeparator ·)
        some (wordValue (Text.trim word), cs.drop word.length)
    some (v, skipSpaces rest)

/-- The elements of a list up to its closing bracket. A comma may follow the last one. -/
def elements? : (fuel : Nat) → List Char → Option (List Value × List Char)
  | 0, _ => none
  | _, ']' :: rest => some ([], rest)
  | fuel + 1, cs => do
    let (v, rest) ← value? fuel cs
    match rest with
    | ',' :: rest =>
      let (vs, rest) ← elements? fuel rest
      some (v :: vs, rest)
    | ']' :: rest => some ([v], rest)
    | _ => none

/-- The pairs of a table up to its closing brace. Of two pairs with one key the later one counts, and
a comma may follow the last one. -/
def pairs? : (fuel : Nat) → List Char → Option (Table × List Char)
  | 0, _ => none
  | _, '\x7d' :: rest => some ([], rest)
  | fuel + 1, cs => do
    let (key, rest) ← key? (skipSpaces cs)
    let rest ← Toml.expect? '=' (skipSpaces rest)
    let (v, rest) ← value? fuel rest
    match rest with
    | ',' :: rest =>
      let (fields, rest) ← pairs? fuel rest
      some (if (fields.lookup key).isSome then fields else Table.insert key v fields, rest)
    | '\x7d' :: rest => some (Table.single key v, rest)
    | _ => none

end

/-- The value that the text of a variable stands for. Blanks around a text that is only a string for
want of another reading belong to it. -/
def value (text : String) : Value :=
  let cs := text.toList
  match value? (2 * cs.length + 2) cs with
  | some (v, []) => v
  | _ => .string text

/-! ## All variables -/

/-- The table that one variable makes. -/
def single? (name text : String) : Option Value :=
  (keyPath? name).map fun path => Value.nested path (value text)

/-- The table that all variables make, each laid over those before it. -/
def table (environment : List (String × String)) : Value :=
  (environment.filterMap fun (name, text) => single? name text).foldl (Value.overlay .replace) (.table [])

end TagLint.Settings.Variables
