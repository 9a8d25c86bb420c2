import TagLint.Severity

/-!
# Errors in settings

What is wrong with a value of the settings, and at which path of keys it stands.
-/

namespace TagLint.Settings

/-- What is wrong with a value. -/
inductive Fault
  /-- The configuration file could not be read. -/
  | unreadable
  /-- A value of another type was expected. -/
  | invalidType (found expected : String)
  /-- A severity was expected, and this is the name of none. -/
  | unknownSeverity (found : String)
  /-- A list has too few elements. -/
  | invalidLength (length : Nat) (expected : String)
  /-- A field has no value. -/
  | missingField (name : String)
deriving Repr, DecidableEq, Inhabited

/-- A fault at a path of keys. -/
structure Error where
  path : List String := []
  fault : Fault
deriving Repr, DecidableEq, Inhabited

namespace Error

/-- The names of the severities, between backquotes and divided by commas. -/
def severityNames : String :=
  ", ".intercalate (Severity.all.map fun s => "`" ++ s.name ++ "`")

/-- The text of an error. What is wrong with an unreadable file is not told. -/
def message? (e : Error) : Option String :=
  match e.fault with
  | .unreadable => none
  | .invalidType found expected => some ("invalid type: found " ++ found ++ ", expected " ++ expected)
  | .unknownSeverity found =>
    some ("unknown variant: found `" ++ found ++ "`, expected `one of " ++ severityNames ++ "`")
  | .invalidLength length expected =>
    some ("invalid length " ++ toString length ++ ", expected " ++ expected)
  | .missingField name => some ("missing field `" ++ name ++ "`")

/-- The path of an error, with points between the keys. -/
def key (e : Error) : String :=
  ".".intercalate e.path

/-- The error one key further up. -/
def under (key : String) (e : Error) : Error :=
  { e with path := key :: e.path }

end Error

end TagLint.Settings
