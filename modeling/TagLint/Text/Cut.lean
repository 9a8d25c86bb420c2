/-!
# Cutting a text in two

A scanner takes characters from the front of a text and leaves the rest. Its result is a `Cut`; the
text of the cut is what the scanner was given, so nothing is lost and nothing is made up.

* `rest_length_le`: what is left is no longer than the text that was cut.
* `takeWhile_text`: cutting after the longest run of a class gives back the text.
-/

namespace TagLint.Text

/-- What a scanner took from a text, and what it left. -/
structure Cut where
  taken : List Char
  rest : List Char
deriving Repr, DecidableEq

namespace Cut

/-- The text that was cut. -/
def text (k : Cut) : List Char :=
  k.taken ++ k.rest

/-- Takes one more character, which stands before the cut text. -/
def push (c : Char) (k : Cut) : Cut :=
  ⟨c :: k.taken, k.rest⟩

/-- Takes more characters, which stand before the cut text. -/
def pushAll (cs : List Char) (k : Cut) : Cut :=
  ⟨cs ++ k.taken, k.rest⟩

/-- Cuts a text after its longest run of characters of a class. -/
def takeWhile (p : Char → Bool) (cs : List Char) : Cut :=
  ⟨cs.takeWhile p, cs.dropWhile p⟩

@[simp]
theorem push_taken (c : Char) (k : Cut) : (push c k).taken = c :: k.taken := rfl

@[simp]
theorem push_rest (c : Char) (k : Cut) : (push c k).rest = k.rest := rfl

@[simp]
theorem push_text (c : Char) (k : Cut) : (push c k).text = c :: k.text := rfl

@[simp]
theorem pushAll_taken (cs : List Char) (k : Cut) : (pushAll cs k).taken = cs ++ k.taken := rfl

@[simp]
theorem pushAll_rest (cs : List Char) (k : Cut) : (pushAll cs k).rest = k.rest := rfl

@[simp]
theorem pushAll_text (cs : List Char) (k : Cut) : (pushAll cs k).text = cs ++ k.text := by
  simp [text, pushAll]

@[simp]
theorem text_mk (as bs : List Char) : text ⟨as, bs⟩ = as ++ bs := rfl

@[simp]
theorem takeWhile_text (p : Char → Bool) (cs : List Char) : (takeWhile p cs).text = cs :=
  List.takeWhile_append_dropWhile

theorem rest_length_le (k : Cut) : k.rest.length ≤ k.text.length := by
  simp [text]

/-- A cut of a known text leaves no more than that text. -/
theorem rest_length_le_of_text {k : Cut} {cs : List Char} (h : k.text = cs) :
    k.rest.length ≤ cs.length :=
  h ▸ k.rest_length_le

end Cut

end TagLint.Text
