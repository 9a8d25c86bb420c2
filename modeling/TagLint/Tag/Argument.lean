import TagLint.Position
import TagLint.Text.Blank

/-!
# Arguments of a tag

An argument is one word after the name of a tag. An exclamation mark before an argument negates it.
-/

namespace TagLint

/-- One argument of a tag. -/
structure Argument where
  /-- The name, without the negation mark. -/
  name : String
  negated : Bool := false
  /-- The whole word, with its negation mark. -/
  span : Span := {}
deriving Repr, DecidableEq, Inhabited

namespace Argument

/-- The mark that negates an argument. -/
def negationMark : Char := '!'

/-- Reads a word, of which the first negation mark is not part of the name. -/
def ofWord (word : List Char) (span : Span := {}) : Argument :=
  match word with
  | [] => { name := "", span }
  | c :: cs =>
    if c = negationMark then { name := String.ofList cs, negated := true, span }
    else { name := String.ofList (c :: cs), span }

/-- The word that an argument was read from. -/
def word (a : Argument) : List Char :=
  if a.negated then negationMark :: a.name.toList else a.name.toList

/-- Reads the words of a text, without their places. -/
def ofText (text : List Char) : List Argument :=
  (Text.words text).map (ofWord ·)

/-- Applies a change of positions to the span. -/
def mapPositions (f : Position → Position) (a : Argument) : Argument :=
  { a with span := a.span.map f }

theorem word_ofWord (w : List Char) (span : Span) : (ofWord w span).word = w := by
  cases w with
  | nil => simp [ofWord, word]
  | cons c cs =>
    by_cases h : c = negationMark
    · subst h
      simp [ofWord, word]
    · simp [ofWord, word, h]

@[simp]
theorem span_ofWord (w : List Char) (span : Span) : (ofWord w span).span = span := by
  cases w with
  | nil => rfl
  | cons c cs => by_cases h : c = negationMark <;> simp [ofWord, h]

end Argument

end TagLint
