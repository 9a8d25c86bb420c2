import TagLint.Text.CodePoints

/-!
# Blank characters

Blank characters are those with the Unicode property `White_Space`. Two narrower classes occur in the
formats read here: blanks that stay on their line, and the two horizontal blanks of ASCII.

* `isBlank_of_isInlineBlank`: an inline blank is a blank.
-/

namespace TagLint.Text

/-- The code points with the property `White_Space`. -/
def blankPoints : CodePoints :=
  [(0x9, 0xd), (0x20, 0x20), (0x85, 0x85), (0xa0, 0xa0), (0x1680, 0x1680), (0x2000, 0x200a),
  (0x2028, 0x2029), (0x202f, 0x202f), (0x205f, 0x205f), (0x3000, 0x3000)]

/-- Whether a character separates words. -/
def isBlank (c : Char) : Bool :=
  blankPoints.has c

/-- Whether a character is a blank other than a line feed or a carriage return. -/
def isInlineBlank (c : Char) : Bool :=
  isBlank c && c != '\n' && c != '\r'

/-- Whether a character is a space or a tab. -/
def isSpaceOrTab (c : Char) : Bool :=
  c == ' ' || c == '\t'

/-- A text without the blanks at its ends. -/
def trim (cs : List Char) : List Char :=
  ((cs.dropWhile isBlank).reverse.dropWhile isBlank).reverse

theorem isBlank_of_isInlineBlank {c : Char} (h : isInlineBlank c = true) : isBlank c = true := by
  simp only [isInlineBlank, Bool.and_eq_true] at h
  exact h.1.1

/-- The words of a text: its longest runs of characters that are not blank. -/
def words (cs : List Char) : List (List Char) :=
  match _h : cs.dropWhile isBlank with
  | [] => []
  | c :: rest => (c :: rest.takeWhile (!isBlank ·)) :: words (rest.dropWhile (!isBlank ·))
termination_by cs.length
decreasing_by
  have h1 : (cs.dropWhile isBlank).length ≤ cs.length := (List.dropWhile_sublist isBlank).length_le
  have h2 : (rest.dropWhile (!isBlank ·)).length ≤ rest.length :=
    (List.dropWhile_sublist _).length_le
  simp only [_h, List.length_cons] at h1
  omega

end TagLint.Text
