import TagLint.Binary64
import TagLint.Text.Quoted

/-!
# Values of settings

Settings are read from several sources into one kind of value before their meaning is looked at. A
later value is laid over an earlier one with `Value.overlay`: tables are laid over each other key by
key, lists are joined or replaced, as the rule for them says, and anything else is replaced.
-/

namespace TagLint.Settings

/-- A value as a source of settings gives it. Tables list their keys in increasing order. -/
inductive Value
  | bool (b : Bool)
  /-- A whole number from a source that knows of signs. -/
  | signed (n : Int)
  /-- A whole number from a source that reads digits alone. -/
  | unsigned (n : Nat)
  | float (x : Binary64)
  | string (s : String)
  /-- A single character, which most fields take for a string. -/
  | character (c : Char)
  | list (elements : List Value)
  | table (fields : List (String × Value))
deriving Inhabited

/-- A table: keys in increasing order and their values. -/
abbrev Table := List (String × Value)

namespace Table

/-- The table with one key. -/
def single (key : String) (v : Value) : Table :=
  [(key, v)]

/-- Puts a key into a table, in place of the value it had. -/
def insert (key : String) (v : Value) : Table → Table
  | [] => [(key, v)]
  | (k, w) :: rest =>
    if key = k then (key, v) :: rest
    else if key < k then (key, v) :: (k, w) :: rest
    else (k, w) :: insert key v rest

end Table

/-- What becomes of a list when another one is laid over it. -/
inductive ListRule
  | join
  | replace
deriving Repr, DecidableEq, Inhabited

namespace Value

mutual

/-- A value with a later one laid over it. -/
def overlay (rule : ListRule) : Value → Value → Value
  | .list below, .list above =>
    match rule with
    | .join => .list (below ++ above)
    | .replace => .list above
  | .table below, .table above => .table (overlayTable rule below above)
  | _, above => above

/-- A table with a later one laid over it. -/
def overlayTable (rule : ListRule) (below : List (String × Value)) :
    List (String × Value) → List (String × Value)
  | [] => below
  | (key, v) :: rest =>
    let v := match below.lookup key with
      | some w => overlay rule w v
      | none => v
    Table.insert key v (overlayTable rule below rest)

end

/-- A value at the end of a path of keys. -/
def nested : List String → Value → Value
  | [], v => v
  | key :: keys, v => .table (Table.single key (nested keys v))

/-- How a value is called where another type was expected. -/
def describe : Value → String
  | .bool b => if b then "bool true" else "bool false"
  | .signed n => "signed int `" ++ toString n ++ "`"
  | .unsigned n => "unsigned int `" ++ toString n ++ "`"
  | .float x => "float `" ++ x.display ++ "`"
  | .string s => "string " ++ Text.quoted s
  | .character c => "string " ++ Text.quoted c.toString
  | .list _ => "sequence"
  | .table _ => "map"

end Value

end TagLint.Settings
