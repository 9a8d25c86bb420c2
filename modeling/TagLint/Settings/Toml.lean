import TagLint.Settings.Value
import TagLint.Text.Blank
import TagLint.Text.Split

/-!
# Configuration files

Reads the text of a configuration file in the TOML format, version 1.0. Scanners take a text and give
what they read with the rest of the text, or nothing if the text does not fit. `Toml.parse?` reads a
whole file into a table.

The sections are: characters, strings, numbers, dates, values, keys, and the tables of a file with
the rules that forbid defining anything twice.
-/

namespace TagLint.Settings.Toml

/-! ## Characters -/

/-- Whether a character may stand in comments and, but for quotes and backslashes, in strings. -/
def isPlain (c : Char) : Bool :=
  c == '\t' || (0x20 ≤ c.toNat && c.toNat != 0x7f)

/-- Whether a character may stand in a key without quotes. -/
def isBareKeyChar (c : Char) : Bool :=
  c.isAlphanum || c == '_' || c == '-'

/-- Drops spaces and tabs. -/
def skipSpace (cs : List Char) : List Char :=
  cs.dropWhile Text.isSpaceOrTab

/-- Drops a comment, if one starts here. It may not hold controls. -/
def skipComment? (cs : List Char) : Option (List Char) :=
  match cs with
  | '#' :: rest =>
    match rest.dropWhile isPlain with
    | [] => some []
    | '\n' :: rest => some ('\n' :: rest)
    | '\r' :: '\n' :: rest => some ('\r' :: '\n' :: rest)
    | _ => none
  | cs => some cs

/-- Drops the end of a line, if one stands here. -/
def newline? : List Char → Option (List Char)
  | '\n' :: cs => some cs
  | '\r' :: '\n' :: cs => some cs
  | _ => none

/-- Drops spaces, comments and line ends. -/
def skipBlankLines? : (fuel : Nat) → List Char → Option (List Char)
  | 0, _ => none
  | fuel + 1, cs => do
    let rest ← skipComment? (skipSpace cs)
    match newline? rest with
    | some rest => skipBlankLines? fuel rest
    | none => some rest

/-! ## Strings -/

/-- The value of a digit in a base. -/
def digitValue? (base : Nat) (c : Char) : Option Nat :=
  let value :=
    if c.isDigit then some (c.toNat - '0'.toNat)
    else if 'a' ≤ c ∧ c ≤ 'f' then some (c.toNat - 'a'.toNat + 10)
    else if 'A' ≤ c ∧ c ≤ 'F' then some (c.toNat - 'A'.toNat + 10)
    else none
  value.filter (· < base)

/-- The number that digits in a base make. -/
def number? (base : Nat) (digits : List Char) : Option Nat :=
  digits.foldlM (fun n c => (digitValue? base c).map (base * n + ·)) 0

/-- The character with a code point in so many hexadecimal digits. -/
def codePoint? (count : Nat) (cs : List Char) : Option (Char × List Char) :=
  if cs.length < count then none
  else do
    let n ← number? 16 (cs.take count)
    if n.isValidChar then some (Char.ofNat n, cs.drop count) else none

/-- The character that an escape stands for, after its backslash. -/
def escape? : List Char → Option (Char × List Char)
  | 'b' :: cs => some ('\x08', cs)
  | 't' :: cs => some ('\t', cs)
  | 'n' :: cs => some ('\n', cs)
  | 'f' :: cs => some ('\x0c', cs)
  | 'r' :: cs => some ('\r', cs)
  | '"' :: cs => some ('"', cs)
  | '\\' :: cs => some ('\\', cs)
  | 'u' :: cs => codePoint? 4 cs
  | 'U' :: cs => codePoint? 8 cs
  | _ => none

/-- A string up to its closing quote, with escapes. -/
def basicString? : (fuel : Nat) → List Char → Option (List Char × List Char)
  | 0, _ => none
  | _, [] => none
  | _, '"' :: cs => some ([], cs)
  | fuel + 1, '\\' :: cs => do
    let (c, rest) ← escape? cs
    let (text, rest) ← basicString? fuel rest
    some (c :: text, rest)
  | fuel + 1, c :: cs => do
    if !isPlain c then none
    let (text, rest) ← basicString? fuel cs
    some (c :: text, rest)

/-- A string up to its closing apostrophe, without escapes. -/
def literalString? (cs : List Char) : Option (List Char × List Char) :=
  let text := cs.takeWhile fun c => isPlain c && c != '\''
  match cs.drop text.length with
  | '\'' :: rest => some (text, rest)
  | _ => none

/-- A run of the closing quotes of a string of several lines: three end it, and up to two before
those belong to it. Fewer than three are text. -/
def closingRun? (quote : Char) (cs : List Char) : Option (List Char × List Char) :=
  let run := min (cs.takeWhile (· == quote)).length 5
  if run < 3 then none else some (List.replicate (run - 3) quote, cs.drop run)

/-- Drops spaces, tabs and line ends. -/
def skipSpaceLines : List Char → List Char
  | '\r' :: '\n' :: cs => skipSpaceLines cs
  | c :: cs => if Text.isSpaceOrTab c || c == '\n' then skipSpaceLines cs else c :: cs
  | [] => []

/-- Drops the blanks and line ends after a backslash at the end of a line. -/
def lineEndingBackslash? (cs : List Char) : Option (List Char) :=
  (newline? (skipSpace cs)).map skipSpaceLines

/-- A string of several lines up to its closing quotes, with or without escapes. -/
def multilineString? (quote : Char) (escapes : Bool) : (fuel : Nat) → List Char → Option (List Char × List Char)
  | 0, _ => none
  | _, [] => none
  | fuel + 1, c :: cs =>
    match closingRun? quote (c :: cs) with
    | some close => some close
    | none => do
      let (taken, rest) ←
        match newline? (c :: cs) with
        | some rest => some (['\n'], rest)
        | none =>
          if c == '\\' && escapes then
            match lineEndingBackslash? cs with
            | some rest => some ([], rest)
            | none => (escape? cs).map fun e => ([e.1], e.2)
          else if isPlain c then some ([c], cs)
          else none
      let (text, rest) ← multilineString? quote escapes fuel rest
      some (taken ++ text, rest)

/-- Drops the line end right after the opening quotes of a string of several lines. -/
def skipFirstNewline (cs : List Char) : List Char :=
  (newline? cs).getD cs

/-- Any string. -/
def string? (cs : List Char) : Option (List Char × List Char) :=
  match cs with
  | '"' :: '"' :: '"' :: rest =>
    multilineString? '"' true (rest.length + 1) (skipFirstNewline rest)
  | '\'' :: '\'' :: '\'' :: rest =>
    multilineString? '\'' false (rest.length + 1) (skipFirstNewline rest)
  | '"' :: rest => basicString? (rest.length + 1) rest
  | '\'' :: rest => literalString? rest
  | _ => none

/-! ## Numbers -/

/-- Digits of a base, with single underscores between them. -/
def digits? (base : Nat) (cs : List Char) : Option (List Char × List Char) :=
  let run := cs.takeWhile fun c => (digitValue? base c).isSome || c == '_'
  let groups := Text.splitOn '_' run
  if groups.any List.isEmpty then none else some (groups.flatten, cs.drop run.length)

/-- Reads a sign: whether the number is negative, and the text after the sign. -/
def splitSign : List Char → Bool × List Char
  | '-' :: cs => (true, cs)
  | '+' :: cs => (false, cs)
  | cs => (false, cs)

/-- The greatest whole number. -/
def maxInteger : Nat := Nat.pow 2 63 - 1

/-- A whole number without a sign in a base other than ten, after its mark. -/
def basedInteger? (base : Nat) (cs : List Char) : Option (Value × List Char) := do
  let (digits, rest) ← digits? base cs
  let n ← number? base digits
  if n ≤ maxInteger then some (.signed n, rest) else none

/-- The fraction of a number: digits after a point, or none. -/
def fraction? : List Char → Option (List Char × List Char)
  | '.' :: cs => digits? 10 cs
  | cs => some ([], cs)

/-- The exponent of a number, if it has one. -/
def exponent? (cs : List Char) : Option (Option Int × List Char) :=
  match cs with
  | [] => some (none, [])
  | c :: rest =>
    if c == 'e' || c == 'E' then do
      let (negative, rest) := splitSign rest
      let (digits, rest) ← digits? 10 rest
      let n ← number? 10 digits
      some (some (if negative then -(n : Int) else n), rest)
    else some (none, c :: rest)

/-- A decimal number: whole, or with a fraction or an exponent. Its whole part has no needless
zeros. A number that is too great is refused, but one that is too small is the negative infinity. -/
def decimalNumber? (negative : Bool) (cs : List Char) : Option (Value × List Char) := do
  let (whole, rest) ← digits? 10 cs
  if whole.head? == some '0' && 1 < whole.length then none
  let (fraction, rest) ← fraction? rest
  let (exponent, rest) ← exponent? rest
  if fraction.isEmpty && exponent.isNone then do
    let n ← number? 10 whole
    if n ≤ maxInteger + (if negative then 1 else 0) then
      some (.signed (if negative then -(n : Int) else n), rest)
    else none
  else do
    let n ← number? 10 (whole ++ fraction)
    match Binary64.ofDecimal negative n (exponent.getD 0 - fraction.length) with
    | .infinite false => none
    | x => some (.float x, rest)

/-- Any number. -/
def anyNumber? (cs : List Char) : Option (Value × List Char) :=
  match cs with
  | '0' :: 'x' :: rest => basedInteger? 16 rest
  | '0' :: 'o' :: rest => basedInteger? 8 rest
  | '0' :: 'b' :: rest => basedInteger? 2 rest
  | cs =>
    let (negative, unsigned) := splitSign cs
    match unsigned with
    | 'i' :: 'n' :: 'f' :: rest => some (.float (.infinite negative), rest)
    | 'n' :: 'a' :: 'n' :: rest => some (.float .nan, rest)
    | unsigned => decimalNumber? negative unsigned

/-! ## Dates and times -/

/-- A number of exactly so many digits that lies in a range. -/
def field? (count low high : Nat) (cs : List Char) : Option (Nat × List Char) := do
  let digits := cs.take count
  if digits.length < count || !digits.all Char.isDigit then none
  let n ← number? 10 digits
  if low ≤ n ∧ n ≤ high then some (n, cs.drop count) else none

/-- The text after a character, if it comes first. -/
def expect? (c : Char) : List Char → Option (List Char)
  | d :: cs => if c = d then some cs else none
  | [] => none

/-- The number of days in a month. -/
def daysIn (year month : Nat) : Nat :=
  if month = 2 then
    if (year % 4 = 0 ∧ year % 100 ≠ 0) ∨ year % 400 = 0 then 29 else 28
  else if month ∈ [4, 6, 9, 11] then 30
  else 31

/-- Drops a date. -/
def date? (cs : List Char) : Option (List Char) := do
  let (year, rest) ← field? 4 0 9999 cs
  let rest ← expect? '-' rest
  let (month, rest) ← field? 2 1 12 rest
  let rest ← expect? '-' rest
  let (_, rest) ← field? 2 1 (daysIn year month) rest
  some rest

/-- Drops a time of the day. -/
def time? (cs : List Char) : Option (List Char) := do
  let (_, rest) ← field? 2 0 23 cs
  let rest ← expect? ':' rest
  let (_, rest) ← field? 2 0 59 rest
  let rest ← expect? ':' rest
  let (_, rest) ← field? 2 0 60 rest
  match rest with
  | '.' :: fraction =>
    if fraction.head?.any Char.isDigit then some (fraction.dropWhile Char.isDigit) else none
  | rest => some rest

/-- Drops the offset of a time, if there is one. -/
def offset? (cs : List Char) : Option (List Char) :=
  match cs with
  | [] => some []
  | c :: rest =>
    if c == 'Z' || c == 'z' then some rest
    else if c == '+' || c == '-' then do
      let (_, rest) ← field? 2 0 23 rest
      let rest ← expect? ':' rest
      let (_, rest) ← field? 2 0 59 rest
      some rest
    else some (c :: rest)

/-- Drops a date, with or without a time, or a time alone. -/
def dateTime? (cs : List Char) : Option (List Char) :=
  match date? cs with
  | none => time? cs
  | some rest =>
    match rest with
    | c :: after =>
      if c == 'T' || c == 't' || c == ' ' then
        match time? after with
        | some rest => offset? rest
        | none => some rest
      else some rest
    | [] => some []

/-- The key under which the text of a date or time stands. -/
def dateTimeKey : String := "$__toml_private_datetime"

/-- The value of a date or time: a table with its text. -/
def dateTimeValue? (cs : List Char) : Option (Value × List Char) :=
  (dateTime? cs).map fun rest =>
    let text := String.ofList (cs.take (cs.length - rest.length))
    (.table (Table.single dateTimeKey (.string text)), rest)

/-! ## Tables under construction -/

/-- What a key leads to while a file is being read. -/
inductive Node
  /-- A value, which nothing can be added to. -/
  | leaf (v : Value)
  /-- A table. It is implicit until a header names it, and dotted if a dotted key made it. -/
  | table (implicit dotted : Bool) (fields : List (String × Node))
  /-- A list of tables made by headers, the last one first. -/
  | tables (elements : List (List (String × Node)))
deriving Inhabited

/-- The keys of a table under construction. -/
abbrev Fields := List (String × Node)

namespace Fields

/-- Puts a key into a table, in place of what it led to. -/
def set (key : String) (node : Node) (fields : Fields) : Fields :=
  fields.filter (·.1 != key) ++ [(key, node)]

/-- Changes the table at a path of keys; of a list of tables, the last one. Missing tables are made
implicitly. A dotted path may not pass a table that a header has named. The change is told whether
the table is dotted. -/
def update (dotted : Bool) (change : Bool → Fields → Option Fields) :
    List String → Bool → Fields → Option Fields
  | [], isDotted, fields => change isDotted fields
  | key :: path, _, fields =>
    match fields.lookup key with
    | none => (update dotted change path dotted []).map fun sub => fields.set key (.table true dotted sub)
    | some (.table implicit isDotted sub) =>
      if dotted && !implicit then none
      else (update dotted change path isDotted sub).map fun sub =>
        fields.set key (.table implicit isDotted sub)
    | some (.tables (last :: before)) =>
      (update dotted change path false last).map fun last => fields.set key (.tables (last :: before))
    | some _ => none

/-- Divides a path into its last key and those before it. -/
def splitLast? (path : List String) : Option (List String × String) :=
  path.getLast?.map fun key => (path.dropLast, key)

/-- Names a table by a header. A table can be named once, and not if a dotted key made it. -/
def nameTable? (path : List String) (fields : Fields) : Option Fields := do
  let (before, key) ← splitLast? path
  update false (fun _ fields =>
    match fields.lookup key with
    | none => some (fields.set key (.table false false []))
    | some (.table true false sub) => some (fields.set key (.table false false sub))
    | some _ => none) before false fields

/-- Adds a table to a list of tables by a header. -/
def appendTable? (path : List String) (fields : Fields) : Option Fields := do
  let (before, key) ← splitLast? path
  update false (fun _ fields =>
    match fields.lookup key with
    | none => some (fields.set key (.tables [[]]))
    | some (.tables elements) => some (fields.set key (.tables ([] :: elements)))
    | some _ => none) before false fields

/-- Gives a value to a dotted key. A key has one value, and dotted keys only go through tables that
dotted keys made. -/
def assign? (path : List String) (v : Value) (fields : Fields) : Option Fields := do
  let (before, key) ← splitLast? path
  update true (fun isDotted fields =>
    if isDotted == before.isEmpty || (fields.lookup key).isSome then none
    else some (fields.set key (.leaf v))) before false fields

end Fields

mutual

/-- The value of what a key leads to. -/
def Node.value : Node → Value
  | .leaf v => v
  | .table _ _ fields => .table (fieldsTable fields)
  | .tables elements => .list (tablesList elements).reverse

/-- The table that has been constructed. -/
def fieldsTable : List (String × Node) → Table
  | [] => []
  | (key, node) :: rest => Table.insert key node.value (fieldsTable rest)

/-- The tables that headers have made, the last one first. -/
def tablesList : List (List (String × Node)) → List Value
  | [] => []
  | fields :: rest => .table (fieldsTable fields) :: tablesList rest

end

/-! ## Keys and values -/

/-- One key: bare or quoted. -/
def key? (cs : List Char) : Option (String × List Char) :=
  match cs with
  | '"' :: rest => (basicString? (rest.length + 1) rest).map fun k => (String.ofList k.1, k.2)
  | '\'' :: rest => (literalString? rest).map fun k => (String.ofList k.1, k.2)
  | cs =>
    let bare := cs.takeWhile isBareKeyChar
    if bare.isEmpty then none else some (String.ofList bare, cs.drop bare.length)

/-- How many keys a dotted key may have, and how deep lists and tables may be nested in a value. -/
def maxDepth : Nat := 79

/-- Keys divided by points, with the blanks after them. At most so many may follow. -/
def dottedKeyWithin? : (count : Nat) → List Char → Option (List String × List Char)
  | 0, _ => none
  | count + 1, cs => do
    let (key, rest) ← key? cs
    match skipSpace rest with
    | '.' :: rest =>
      let (keys, rest) ← dottedKeyWithin? count (skipSpace rest)
      some (key :: keys, rest)
    | rest => some ([key], rest)

/-- A dotted key. -/
def dottedKey? (cs : List Char) : Option (List String × List Char) :=
  dottedKeyWithin? maxDepth cs

mutual

/-- A value, in which lists and tables may be nested so deep. -/
def valueWithin? : (fuel depth : Nat) → List Char → Option (Value × List Char)
  | 0, _, _ => none
  | fuel + 1, depth, cs =>
    match cs, depth with
    | '"' :: _, _ => (string? cs).map fun s => (.string (String.ofList s.1), s.2)
    | '\'' :: _, _ => (string? cs).map fun s => (.string (String.ofList s.1), s.2)
    | '[' :: _, 0 => none
    | '[' :: rest, depth + 1 => (elements? fuel depth rest).map fun vs => (.list vs.1, vs.2)
    | '\x7b' :: _, 0 => none
    | '\x7b' :: rest, depth + 1 =>
      match skipSpace rest with
      | '\x7d' :: rest => some (.table [], rest)
      | rest => (pairs? fuel depth [] rest).map fun fields => (.table (fieldsTable fields.1), fields.2)
    | 't' :: 'r' :: 'u' :: 'e' :: rest, _ => some (.bool true, rest)
    | 'f' :: 'a' :: 'l' :: 's' :: 'e' :: rest, _ => some (.bool false, rest)
    | cs, _ => (dateTimeValue? cs).or (anyNumber? cs)

/-- The elements of a list up to its closing bracket. A comma may follow the last one. -/
def elements? : (fuel depth : Nat) → List Char → Option (List Value × List Char)
  | 0, _, _ => none
  | fuel + 1, depth, cs => do
    match ← skipBlankLines? (cs.length + 1) cs with
    | ']' :: rest => some ([], rest)
    | rest =>
      let (v, rest) ← valueWithin? fuel depth rest
      match ← skipBlankLines? (rest.length + 1) rest with
      | ',' :: rest =>
        let (vs, rest) ← elements? fuel depth rest
        some (v :: vs, rest)
      | ']' :: rest => some ([v], rest)
      | _ => none

/-- The pairs of a table on one line up to its closing brace. No comma follows the last one. -/
def pairs? : (fuel depth : Nat) → Fields → List Char → Option (Fields × List Char)
  | 0, _, _, _ => none
  | fuel + 1, depth, fields, cs => do
    let (path, rest) ← dottedKey? cs
    let rest ← expect? '=' rest
    let (v, rest) ← valueWithin? fuel depth (skipSpace rest)
    let fields ← fields.assign? path v
    match skipSpace rest with
    | ',' :: rest => pairs? fuel depth fields (skipSpace rest)
    | '\x7d' :: rest => some (fields, rest)
    | _ => none

end

/-- A value. -/
def value? (cs : List Char) : Option (Value × List Char) :=
  valueWithin? (cs.length + 1) maxDepth cs

/-! ## Files -/

/-- What has been read of a file: the tables and the header that the next keys stand under. -/
structure Reading where
  fields : Fields := []
  header : List String := []
deriving Inhabited

/-- Reads a header or a key with its value. -/
def statement? (state : Reading) (cs : List Char) : Option (Reading × List Char) :=
  match cs with
  | '[' :: '[' :: rest => do
    let (path, rest) ← dottedKey? (skipSpace rest)
    let rest ← expect? ']' rest
    let rest ← expect? ']' rest
    some ({ fields := (← state.fields.appendTable? path), header := path }, rest)
  | '[' :: rest => do
    let (path, rest) ← dottedKey? (skipSpace rest)
    let rest ← expect? ']' rest
    some ({ fields := (← state.fields.nameTable? path), header := path }, rest)
  | cs => do
    let (path, rest) ← dottedKey? cs
    let rest ← expect? '=' rest
    let (v, rest) ← value? (skipSpace rest)
    let fields ← Fields.update false (fun _ fields => fields.assign? path v) state.header false
      state.fields
    some ({ state with fields }, rest)

/-- Reads the lines of a file. -/
def lines? : (fuel : Nat) → Reading → List Char → Option Fields
  | 0, _, _ => none
  | fuel + 1, state, cs => do
    let (state, rest) ←
      match skipSpace cs with
      | [] => some (state, [])
      | c :: rest =>
        if c == '#' || c == '\n' || c == '\r' then some (state, c :: rest)
        else statement? state (c :: rest)
    match ← skipComment? (skipSpace rest) with
    | [] => some state.fields
    | rest => lines? fuel state (← newline? rest)

/-- Reads a whole file. A byte order mark may come first. -/
def parse? (text : List Char) : Option Table :=
  let cs := match text with
    | '\ufeff' :: rest => rest
    | text => text
  (lines? (cs.length + 1) {} cs).map fieldsTable

end TagLint.Settings.Toml
