import TagLint.Position
import TagLint.Severity

/-!
# Findings

A finding has a kind, which fixes its severity, a message, the span it is about and, if deleting that
span mends it, a fix.

* `Diagnostic.removable`: a fix deletes the span of its finding.
-/

namespace TagLint

/-- What is wrong. -/
inductive DiagnosticKind
  /-- The tag has no argument at all. -/
  | missingArguments
  /-- The wildcard is negated. -/
  | negatedWildcard
  /-- The wildcard comes after a known item. -/
  | misplacedWildcard
  /-- The tag has no item of that name. -/
  | unknownItem
  /-- The item is not negated and the wildcard already covers it. -/
  | redundantItem
  /-- The item is negated and no wildcard comes before it. -/
  | negationWithoutWildcard
  /-- The item was listed before. -/
  | duplicateItem
  /-- The tag decorates a declaration that it does not apply to. -/
  | inapplicableTag
  /-- The comment could not be read. -/
  | parsingError
deriving Repr, DecidableEq, Inhabited

namespace DiagnosticKind

/-- The severity of every finding of a kind. -/
def severity : DiagnosticKind → Severity
  | .missingArguments | .negatedWildcard | .misplacedWildcard | .inapplicableTag | .parsingError =>
    .error
  | .unknownItem | .redundantItem | .negationWithoutWildcard | .duplicateItem => .warning

/-- The name of a kind in reports. -/
def name : DiagnosticKind → String
  | .missingArguments => "missing-arguments"
  | .negatedWildcard => "negated-wildcard"
  | .misplacedWildcard => "misplaced-wildcard"
  | .unknownItem => "unknown-item"
  | .redundantItem => "redundant-item"
  | .negationWithoutWildcard => "negation-without-wildcard"
  | .duplicateItem => "duplicate-item"
  | .inapplicableTag => "inapplicable-tag"
  | .parsingError => "parsing-error"

/-- All kinds. -/
def all : List DiagnosticKind :=
  [.missingArguments, .negatedWildcard, .misplacedWildcard, .unknownItem, .redundantItem,
    .negationWithoutWildcard, .duplicateItem, .inapplicableTag, .parsingError]

/-- The kind with this name. -/
def ofName? (text : String) : Option DiagnosticKind :=
  all.find? (·.name == text)

end DiagnosticKind

/-- A way to mend a finding: delete a span. -/
structure Fix where
  message : String
  remove : Span
deriving Repr, DecidableEq, Inhabited

/-- One finding about a tag. -/
structure Diagnostic where
  kind : DiagnosticKind
  severity : Severity
  message : String
  /-- The argument at fault, or the tag when the tag as a whole is. -/
  span : Span
  fix : Option Fix := none
deriving Repr, DecidableEq, Inhabited

namespace Diagnostic

/-- A finding with the severity of its kind and no fix. -/
def ofKind (kind : DiagnosticKind) (message : String) (span : Span) : Diagnostic :=
  { kind, severity := kind.severity, message, span }

/-- Adds the fix that deletes the span of the finding. -/
def removable (d : Diagnostic) (message : String) : Diagnostic :=
  { d with fix := some ⟨message, d.span⟩ }

@[simp]
theorem removable_span (d : Diagnostic) (message : String) : (d.removable message).span = d.span :=
  rfl

end Diagnostic

/-- How many findings there are of each severity. -/
structure SeverityCount where
  info : Nat := 0
  warnings : Nat := 0
  errors : Nat := 0
deriving Repr, DecidableEq, Inhabited

namespace SeverityCount

/-- The number of findings of any severity. -/
def total (n : SeverityCount) : Nat :=
  n.info + n.warnings + n.errors

/-- Counts the findings of a list by severity. -/
def ofDiagnostics (ds : List Diagnostic) : SeverityCount where
  info := ds.countP (·.severity = .info)
  warnings := ds.countP (·.severity = .warning)
  errors := ds.countP (·.severity = .error)

theorem total_ofDiagnostics (ds : List Diagnostic) : (ofDiagnostics ds).total = ds.length := by
  induction ds with
  | nil => rfl
  | cons d ds ih =>
    cases h : d.severity <;>
      simp only [total, ofDiagnostics, List.countP_cons, List.length_cons, h] at ih ⊢ <;>
      simp <;> omega

end SeverityCount

end TagLint
