/-!
# Sets of code points

A property of characters that follows no simple rule is listed as a table of code point ranges. Both
ends of a range belong to it.
-/

namespace TagLint.Text

/-- A set of code points, as ranges whose two ends are included. -/
abbrev CodePoints := List (Nat × Nat)

/-- Whether a character lies in one of the ranges. -/
def CodePoints.has (table : CodePoints) (c : Char) : Bool :=
  table.any fun r => r.1 ≤ c.toNat && c.toNat ≤ r.2

theorem CodePoints.has_iff {table : CodePoints} {c : Char} :
    table.has c = true ↔ ∃ r ∈ table, r.1 ≤ c.toNat ∧ c.toNat ≤ r.2 := by
  simp [CodePoints.has]

end TagLint.Text
