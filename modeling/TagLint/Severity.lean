/-!
# Severities

How much a finding matters. The three levels are ordered, and each has a name that is read without
regard to case.

* `Severity.ofName?_name`: reading the name of a level gives the level.
-/

namespace TagLint

/-- The level of a finding, from the mildest to the gravest. -/
inductive Severity
  | info
  | warning
  | error
deriving Repr, DecidableEq, Inhabited

namespace Severity

/-- All levels, in increasing order. -/
def all : List Severity :=
  [.info, .warning, .error]

/-- The rank of a level. -/
def rank : Severity → Nat
  | .info => 0
  | .warning => 1
  | .error => 2

instance : LE Severity := ⟨fun a b => a.rank ≤ b.rank⟩

instance (a b : Severity) : Decidable (a ≤ b) := inferInstanceAs (Decidable (a.rank ≤ b.rank))

instance : Max Severity := ⟨fun a b => if a ≤ b then b else a⟩

/-- Compares two levels by rank. -/
def order (a b : Severity) : Ordering :=
  compare a.rank b.rank

/-- The name of a level. -/
def name : Severity → String
  | .info => "info"
  | .warning => "warning"
  | .error => "error"

/-- The level with exactly this name. -/
def ofExactName? (text : String) : Option Severity :=
  all.find? (·.name == text)

/-- The level with this name, in any case. No letter outside ASCII has a lower case form among the
letters of a name, so folding ASCII letters decides. -/
def ofName? (text : String) : Option Severity :=
  ofExactName? (String.ofList (text.toList.map Char.toLower))

theorem ofExactName?_name (s : Severity) : ofExactName? s.name = some s := by
  cases s <;> decide

theorem ofName?_name (s : Severity) : ofName? s.name = some s := by
  cases s <;> decide

/-- What a text that names no level is answered with. -/
def unknownNameMessage : String :=
  "Invalid `Severity` string representation"

end Severity

end TagLint
