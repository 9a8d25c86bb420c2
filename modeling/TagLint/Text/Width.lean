/-!
# Widths of text

A text is a list of characters. Two encodings measure it: the byte width counts the bytes of its
UTF-8 form and the unit width counts the 16-bit units of its UTF-16 form.

* `byteWidth_append`: the byte width of two texts in a row is the sum of their byte widths.
* `byteWidth_pos`: a text that is not empty has a positive byte width.
-/

namespace TagLint.Text

/-- The number of 16-bit units that encode a character: one in the basic plane, two above it. -/
def unitWidth (c : Char) : Nat :=
  if c.toNat < 0x10000 then 1 else 2

/-- The number of bytes that encode a text. -/
def byteWidth : List Char → Nat
  | [] => 0
  | c :: cs => c.utf8Size + byteWidth cs

@[simp]
theorem byteWidth_nil : byteWidth [] = 0 := rfl

@[simp]
theorem byteWidth_cons (c : Char) (cs : List Char) :
    byteWidth (c :: cs) = c.utf8Size + byteWidth cs := rfl

@[simp]
theorem byteWidth_append (as bs : List Char) :
    byteWidth (as ++ bs) = byteWidth as + byteWidth bs := by
  induction as with
  | nil => simp
  | cons a as ih => simp [ih, Nat.add_assoc]

theorem byteWidth_pos {cs : List Char} (h : cs ≠ []) : 0 < byteWidth cs := by
  cases cs with
  | nil => exact absurd rfl h
  | cons c cs =>
    have hc := c.utf8Size_pos
    rw [byteWidth_cons]
    omega

/-- The characters from the first byte offset up to the second, when both are character boundaries
of the text. -/
def slice? (cs : List Char) (start stop : Nat) : Option (List Char) :=
  (dropBytes? cs start).bind (takeBytes? · (stop - start))
where
  /-- Drops exactly the given number of bytes. -/
  dropBytes? : List Char → Nat → Option (List Char)
    | cs, 0 => some cs
    | [], _ + 1 => none
    | c :: cs, n + 1 => if c.utf8Size ≤ n + 1 then dropBytes? cs (n + 1 - c.utf8Size) else none
  /-- Keeps exactly the given number of bytes. -/
  takeBytes? : List Char → Nat → Option (List Char)
    | _, 0 => some []
    | [], _ + 1 => none
    | c :: cs, n + 1 =>
      if c.utf8Size ≤ n + 1 then (takeBytes? cs (n + 1 - c.utf8Size)).map (c :: ·) else none

end TagLint.Text
