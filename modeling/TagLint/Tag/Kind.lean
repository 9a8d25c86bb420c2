import TagLint.Declaration

/-!
# Kinds of tags

The two performance tags, what is said about them, the items they accept as arguments and the
declarations they may decorate.

* `TagKind.ofName?_name`: a tag is found by its name.
* `TagKind.wildcard_not_mem_items`: the wildcard is no item.
-/

namespace TagLint

/-- A tag that is checked. -/
inductive TagKind
  /-- Asks for an error if an optimization is possible. -/
  | warnPerformance
  /-- Asks for a report of the possible optimizations. -/
  | analyzePerformance
deriving Repr, DecidableEq, Inhabited

namespace TagKind

/-- All kinds, in the order in which they are registered. -/
def all : List TagKind :=
  [.warnPerformance, .analyzePerformance]

/-- The name of a tag, with its at sign. -/
def name : TagKind → String
  | .warnPerformance => "@kphp-warn-performance"
  | .analyzePerformance => "@kphp-analyze-performance"

/-- The tag with this name. -/
def ofName? (text : String) : Option TagKind :=
  all.find? (·.name == text)

/-- The help text of a tag. -/
def description : TagKind → String
  | .warnPerformance =>
    "[KPHP] Same as @kphp-analyze-performance, but it doesn't generate a report: instead, it gives a "
      ++ "compilation error if potential optimizations are available."
  | .analyzePerformance =>
    "[KPHP] Analyze the function body and generate a report with potential performance "
      ++ "optimizations."

/-- The argument that stands for every item. -/
def wildcard : String := "all"

/-- The items of the performance tags, in the order in which they are suggested. -/
def performanceItems : List String :=
  ["implicit-array-cast", "constant-execution-in-loop", "array-merge-into", "array-reserve"]

/-- The items that a tag accepts besides the wildcard. -/
def items : TagKind → List String
  | .warnPerformance | .analyzePerformance => performanceItems

/-- Whether a name is the wildcard of a tag. -/
def isWildcard : TagKind → String → Bool
  | .warnPerformance, text | .analyzePerformance, text => text == wildcard

/-- Whether a tag may decorate a declaration. -/
def isApplicable : TagKind → Declaration → Bool
  | .warnPerformance, owner | .analyzePerformance, owner => owner.isFunctionLike

/-- The other tag about the same concern. -/
def sibling : TagKind → TagKind
  | .warnPerformance => .analyzePerformance
  | .analyzePerformance => .warnPerformance

theorem ofName?_name (kind : TagKind) : ofName? kind.name = some kind := by
  cases kind <;> decide

theorem name_injective {a b : TagKind} (h : a.name = b.name) : a = b := by
  have ha := ofName?_name a
  rw [h, ofName?_name b] at ha
  exact (Option.some.inj ha).symm

theorem wildcard_not_mem_items (kind : TagKind) : wildcard ∉ kind.items := by
  cases kind <;> decide

end TagKind

end TagLint
