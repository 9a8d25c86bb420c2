import TagLint.Text.Width

/-!
# Positions in a source text

A position counts what precedes it in four ways: bytes, 16-bit units, lines and columns. Positions
are compared by their byte offset alone. `Position.advance` steps over one character, and
`positionsAt` walks a source once to find the position of every byte offset of a sorted list.

* `Position.utf8_advance`: a step adds the byte width of its character.
* `locate`: the position of one byte offset, the smallest character boundary that reaches it.
-/

namespace TagLint

open Text (unitWidth byteWidth)

/-- A place between two characters of a source. Lines and columns count from zero, and a column is
a number of characters. -/
structure Position where
  utf8 : Nat := 0
  utf16 : Nat := 0
  line : Nat := 0
  column : Nat := 0
deriving Repr, DecidableEq, Inhabited

namespace Position

/-- The start of a source. -/
def zero : Position := {}

/-- The position of which only the byte offset is known yet. -/
def ofByte (offset : Nat) : Position :=
  { utf8 := offset }

/-- Positions are ordered by their byte offsets. -/
def order (p q : Position) : Ordering :=
  compare p.utf8 q.utf8

/-- Whether a character ends its line, given the character after it. A carriage return before a line
feed does not: the line feed ends that line. -/
def endsLine (c : Char) (next : Option Char) : Bool :=
  c == '\n' || c == '\u2028' || c == '\u2029' || (c == '\r' && next != some '\n')

/-- The position after a character, given the character that follows it. The carriage return of a
`\r\n` pair takes no column. -/
def advance (p : Position) (c : Char) (next : Option Char) : Position :=
  let q := { p with utf8 := p.utf8 + c.utf8Size, utf16 := p.utf16 + unitWidth c }
  if endsLine c next then { q with line := p.line + 1, column := 0 }
  else if c == '\r' then q
  else { q with column := p.column + 1 }

/-- The human form of a position: line and column, both counted from one. -/
def display (p : Position) : String :=
  toString (p.line + 1) ++ ":" ++ toString (p.column + 1)

@[simp]
theorem utf8_advance (p : Position) (c : Char) (next : Option Char) :
    (p.advance c next).utf8 = p.utf8 + c.utf8Size := by
  unfold advance
  dsimp only
  split
  · rfl
  · split <;> rfl

@[simp]
theorem utf16_advance (p : Position) (c : Char) (next : Option Char) :
    (p.advance c next).utf16 = p.utf16 + unitWidth c := by
  unfold advance
  dsimp only
  split
  · rfl
  · split <;> rfl

end Position

/-- A stretch of a source, from its first position up to the one after its last character. -/
structure Span where
  start : Position := {}
  stop : Position := {}
deriving Repr, DecidableEq, Inhabited

namespace Span

/-- The span between two byte offsets. -/
def ofBytes (start stop : Nat) : Span :=
  ⟨.ofByte start, .ofByte stop⟩

/-- Whether the span covers nothing: its start does not come before its end. -/
def isEmpty (s : Span) : Bool :=
  s.stop.utf8 ≤ s.start.utf8

/-- Applies a change of positions to both ends. -/
def map (f : Position → Position) (s : Span) : Span :=
  ⟨f s.start, f s.stop⟩

@[simp]
theorem map_start (f : Position → Position) (s : Span) : (s.map f).start = f s.start := rfl

@[simp]
theorem map_stop (f : Position → Position) (s : Span) : (s.map f).stop = f s.stop := rfl

end Span

/-! ## Finding positions -/

/-- The position of the first character boundary at or after a byte offset, counting on from the
position of the text's first character. An offset past the end gets the end of the text. -/
def locateFrom (p : Position) : List Char → Nat → Position
  | [], _ => p
  | c :: cs, offset =>
    if offset ≤ p.utf8 then p else locateFrom (p.advance c cs.head?) cs offset

/-- The position of the first character boundary of a source at or after a byte offset. -/
def locate (source : List Char) (offset : Nat) : Position :=
  locateFrom .zero source offset

/-- The positions of the byte offsets of a sorted list, counting on from the position of the text's
first character. Offsets that share a boundary share one entry, and all the offsets past the end
share the last one. -/
def positionsFrom (p : Position) : List Char → List Nat → List Position
  | _, [] => []
  | [], offset :: offsets =>
    if offset ≤ p.utf8 then p :: positionsFrom p [] (offsets.dropWhile (· ≤ p.utf8)) else [p]
  | c :: cs, offset :: offsets =>
    if offset ≤ p.utf8 then p :: positionsFrom p (c :: cs) (offsets.dropWhile (· ≤ p.utf8))
    else positionsFrom (p.advance c cs.head?) cs (offset :: offsets)
termination_by cs offsets => (cs.length, offsets.length)
decreasing_by
  · exact .right _ (Nat.lt_succ_of_le (List.dropWhile_sublist _).length_le)
  · exact .right _ (Nat.lt_succ_of_le (List.dropWhile_sublist _).length_le)
  · exact .left _ _ (Nat.lt_succ_self _)

/-- The positions of the byte offsets of a sorted list, found in one walk over the source. -/
def positionsAt (source : List Char) (offsets : List Nat) : List Position :=
  positionsFrom .zero source offsets

/-- The entry of a list of positions in source order that stands for a byte offset: the first that
reaches it, or the last one. -/
def lookup (positions : List Position) (offset : Nat) : Position :=
  (positions.find? (offset ≤ ·.utf8)).getD (positions.getLast?.getD .zero)

end TagLint
