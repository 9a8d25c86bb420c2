/-!
# Splitting text

* `splitOn`: the parts of a text between the occurrences of a character.
* `intercalate_splitOn`: joining the parts with that character gives back the text.
-/

namespace TagLint.Text

/-- The parts of a text between the occurrences of a character, empty ones included. -/
def splitOn (separator : Char) : List Char → List (List Char)
  | [] => [[]]
  | c :: cs =>
    if c = separator then [] :: splitOn separator cs
    else
      match splitOn separator cs with
      | part :: parts => (c :: part) :: parts
      | [] => [[c]]

theorem splitOn_ne_nil (separator : Char) (cs : List Char) : splitOn separator cs ≠ [] := by
  cases cs with
  | nil => simp [splitOn]
  | cons c cs =>
    unfold splitOn
    split
    · simp
    · split <;> simp

theorem intercalate_splitOn (separator : Char) (cs : List Char) :
    [separator].intercalate (splitOn separator cs) = cs := by
  induction cs with
  | nil => simp [splitOn, List.intercalate]
  | cons c cs ih =>
    cases h : splitOn separator cs with
    | nil => exact absurd h (splitOn_ne_nil separator cs)
    | cons part parts =>
      rw [h] at ih
      by_cases hc : c = separator
      · have hSplit : splitOn separator (c :: cs) = [] :: part :: parts := by simp [splitOn, hc, h]
        rw [hSplit, ← ih]
        simp [List.intercalate, hc]
      · have hSplit : splitOn separator (c :: cs) = (c :: part) :: parts := by simp [splitOn, hc, h]
        rw [hSplit, ← ih]
        cases parts <;> simp [List.intercalate]

end TagLint.Text
