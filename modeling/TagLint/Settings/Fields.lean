import TagLint.Lint
import TagLint.Settings.Error
import TagLint.Settings.Value

/-!
# The fields of the settings

The settings of a run, and how they are read from a value and written as one. A group of fields is a
table, or a list of its fields in their order. The fields of a table are looked at in the order of
their names, so that the first fault in that order is told.

* `Settings.ofValue`: reads the settings from a value.
* `Settings.toValue`: writes the settings as a value.
* `Settings.ofValue_toValue`: reading what has been written gives the settings back.
-/

namespace TagLint

/-- Which files are looked at, and what is reported about them. -/
structure AnalysisSettings where
  /-- The files and directories to look at. -/
  paths : List String := []
  /-- The files and directories to leave out. -/
  exclude : List String := []
  /-- Whether a tag on a declaration that it does not apply to is reported. -/
  applicability : Bool := true
  /-- Findings below this severity are left out. -/
  minSeverity : Severity := .info
deriving Repr, DecidableEq, Inhabited

/-- How findings are written. -/
structure OutputSettings where
  /-- The file that they are written to, if any. -/
  out : Option String := none
  /-- Whether they are written as data. -/
  json : Bool := false
  /-- Whether they are written in few characters. -/
  compact : Bool := false
  /-- Whether files are ordered by their paths. -/
  sort : Bool := false
deriving Repr, DecidableEq, Inhabited

/-- The settings of a run. -/
structure Settings where
  analysis : AnalysisSettings := {}
  output : OutputSettings := {}
deriving Repr, DecidableEq, Inhabited

/-- What to report according to some settings. -/
def ValidationOptions.ofSettings (settings : Settings) : ValidationOptions where
  applicability := settings.analysis.applicability
  minSeverity := settings.analysis.minSeverity

namespace Settings

/-! ## Reading one field -/

/-- A value of another type than the expected one. -/
def mismatch {α : Type} (v : Value) (expected : String) : Except Error α :=
  .error { fault := .invalidType v.describe expected }

/-- Puts a key before the path of an error. -/
def under {α : Type} (key : String) (x : Except Error α) : Except Error α :=
  x.mapError (Error.under key)

/-- Reads a truth value. -/
def readBool : Value → Except Error Bool
  | .bool b => .ok b
  | v => mismatch v "a boolean"

/-- Reads a path. -/
def readPath : Value → Except Error String
  | .string s => .ok s
  | .character c => .ok c.toString
  | v => mismatch v "path string"

/-- Reads the elements of a list from a position on. -/
def readPathsFrom (position : Nat) : List Value → Except Error (List String)
  | [] => .ok []
  | v :: vs => do
    let path ← under (toString position) (readPath v)
    let paths ← readPathsFrom (position + 1) vs
    return path :: paths

/-- Reads a list of paths. -/
def readPaths : Value → Except Error (List String)
  | .list vs => readPathsFrom 0 vs
  | v => mismatch v "a sequence"

/-- The severity with a name. -/
def readSeverityName (name : String) : Except Error Severity :=
  match Severity.ofExactName? name with
  | some s => .ok s
  | none => .error { fault := .unknownSeverity name }

/-- Reads a severity. A table is taken for a severity with something to it, which none has; a fault
of it stands at its first key. -/
def readSeverity : Value → Except Error Severity
  | .string s => readSeverityName s
  | .table [] => mismatch (.table []) "enum"
  | .table ((name, v) :: _) => under name do
    let _ ← readSeverityName name
    mismatch v "unit"
  | v => mismatch v "enum Severity"

/-! ## Reading groups of fields -/

/-- Reads a field of a table, if the table has it. -/
def readField {α : Type} (fields : Table) (name : String) (read : Value → Except Error α) :
    Except Error (Option α) :=
  match fields.lookup name with
  | some v => (under name (read v)).map some
  | none => .ok none

/-- A field that must be there. -/
def required {α : Type} (name : String) (field : Option α) : Except Error α :=
  match field with
  | some a => .ok a
  | none => .error { fault := .missingField name }

/-- Reads an element of a list in which each field has its place. -/
def readElement {α : Type} (elements : List Value) (position : Nat) (expected : String)
    (read : Value → Except Error α) : Except Error α :=
  match elements[position]? with
  | some v => under (toString position) (read v)
  | none => .error { fault := .invalidLength position expected }

/-- Reads the settings of the analysis. -/
def readAnalysis : Value → Except Error AnalysisSettings
  | .table fields => do
    let applicability ← readField fields "applicability" readBool
    let exclude ← readField fields "exclude" readPaths
    let minSeverity ← readField fields "min_severity" readSeverity
    let paths ← readField fields "paths" readPaths
    return {
      paths := (← required "paths" paths)
      exclude := (← required "exclude" exclude)
      applicability := (← required "applicability" applicability)
      minSeverity := (← required "min_severity" minSeverity) }
  | .list elements => do
    let expected := "struct BaseConfig with 4 elements"
    return {
      paths := (← readElement elements 0 expected readPaths)
      exclude := (← readElement elements 1 expected readPaths)
      applicability := (← readElement elements 2 expected readBool)
      minSeverity := (← readElement elements 3 expected readSeverity) }
  | v => mismatch v "struct BaseConfig"

/-- Reads the settings of the output. -/
def readOutput : Value → Except Error OutputSettings
  | .table fields => do
    let compact ← readField fields "compact" readBool
    let json ← readField fields "json" readBool
    let out ← readField fields "out" readPath
    let sort ← readField fields "sort" readBool
    return {
      out
      json := (← required "json" json)
      compact := (← required "compact" compact)
      sort := (← required "sort" sort) }
  | .list elements => do
    let expected := "struct OutputConfig with 4 elements"
    return {
      out := some (← readElement elements 0 expected readPath)
      json := (← readElement elements 1 expected readBool)
      compact := (← readElement elements 2 expected readBool)
      sort := (← readElement elements 3 expected readBool) }
  | v => mismatch v "struct OutputConfig"

/-- Reads the settings from a value. Keys that name no field mean nothing. -/
def ofValue : Value → Except Error Settings
  | .table fields => do
    let analysis ← readField fields "kphptags" readAnalysis
    let output ← readField fields "output" readOutput
    return {
      analysis := (← required "kphptags" analysis)
      output := (← required "output" output) }
  | v => mismatch v "struct Config"

/-! ## Writing -/

/-- A list of texts as a value. -/
def stringsValue (texts : List String) : Value :=
  .list (texts.map .string)

/-- The settings of the analysis as a value. -/
def analysisValue (s : AnalysisSettings) : Value :=
  .table [("applicability", .bool s.applicability), ("exclude", stringsValue s.exclude),
    ("min_severity", .string s.minSeverity.name), ("paths", stringsValue s.paths)]

/-- The settings of the output as a value. -/
def outputValue (s : OutputSettings) : Value :=
  .table ([("compact", .bool s.compact), ("json", .bool s.json)]
    ++ (s.out.map fun path => ("out", Value.string path)).toList ++ [("sort", .bool s.sort)])

/-- The settings as a value. -/
def toValue (s : Settings) : Value :=
  .table [("kphptags", analysisValue s.analysis), ("output", outputValue s.output)]

/-! ## Reading what has been written -/

theorem readPathsFrom_strings (position : Nat) (texts : List String) :
    readPathsFrom position (texts.map .string) = .ok texts := by
  induction texts generalizing position with
  | nil => rfl
  | cons text texts ih =>
    simp only [List.map_cons, readPathsFrom, ih]
    rfl

@[simp]
theorem readPaths_stringsValue (texts : List String) :
    readPaths (stringsValue texts) = .ok texts :=
  readPathsFrom_strings 0 texts

@[simp]
theorem readSeverity_name (s : Severity) : readSeverity (.string s.name) = .ok s := by
  simp [readSeverity, readSeverityName, Severity.ofExactName?_name]

theorem readField_of_lookup {α : Type} (name : String) {fields : Table} {v : Value}
    {read : Value → Except Error α} {a : α} (hLookup : fields.lookup name = some v)
    (hRead : read v = .ok a) : readField fields name read = .ok (some a) := by
  simp only [readField, hLookup, under, hRead]
  rfl

theorem readAnalysis_analysisValue (s : AnalysisSettings) :
    readAnalysis (analysisValue s) = .ok s := by
  simp only [readAnalysis, analysisValue]
  rw [readField_of_lookup "applicability" (by rfl) (by rfl),
    readField_of_lookup "exclude" (by rfl) (readPaths_stringsValue _),
    readField_of_lookup "min_severity" (by rfl) (readSeverity_name _),
    readField_of_lookup "paths" (by rfl) (readPaths_stringsValue _)]
  rfl

theorem readOutput_outputValue (s : OutputSettings) : readOutput (outputValue s) = .ok s := by
  rcases s with ⟨_ | out, json, compact, sort⟩
  · simp only [readOutput, outputValue]
    rw [readField_of_lookup "compact" (by rfl) (by rfl), readField_of_lookup "json" (by rfl) (by rfl),
      readField_of_lookup "sort" (by rfl) (by rfl)]
    rfl
  · simp only [readOutput, outputValue]
    rw [readField_of_lookup "compact" (by rfl) (by rfl), readField_of_lookup "json" (by rfl) (by rfl),
      readField_of_lookup "out" (by rfl) (by rfl), readField_of_lookup "sort" (by rfl) (by rfl)]
    rfl

theorem ofValue_toValue (s : Settings) : ofValue s.toValue = .ok s := by
  simp only [ofValue, toValue]
  rw [readField_of_lookup "kphptags" (by rfl) (readAnalysis_analysisValue s.analysis),
    readField_of_lookup "output" (by rfl) (readOutput_outputValue s.output)]
  rfl

end Settings

end TagLint
