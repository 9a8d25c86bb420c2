import Mathlib.Algebra.Ring.Nat
import TagLint.Proofs.Positions

/-!
# What positions count

A position is reached by stepping over characters, and each step looks at one more character. What it
comes to can be told from the source at once: the widths of the characters before the place, the line
ends among them and the characters since the last of these. Completion gives every span end the
position of the first place that its offset reaches, and changes nothing else.

* `Position.Counts`: what a position tells about a place.
* `Position.Counts.advance`: a step over one character keeps this.
* `exists_counts_locate`: the position of an offset is that of the first place it reaches.
* `locateFrom_mono`, `locateFrom_locateFrom`: positions keep the order of offsets and are the
  positions of their own offsets.
* `complete_exact`: what completion does.
-/

namespace TagLint

open Text (byteWidth unitWidth)

/-! ## Places and positions -/

/-- The character with an index ends its line: a line feed, a separator of lines or paragraphs, or a
carriage return without a line feed behind it. -/
def EndsLineAt (source : List Char) (i : Nat) : Prop :=
  source[i]? = some '\n' ∨ source[i]? = some '\u2028' ∨ source[i]? = some '\u2029' ∨
    (source[i]? = some '\r' ∧ source[i + 1]? ≠ some '\n')

instance (source : List Char) (i : Nat) : Decidable (EndsLineAt source i) :=
  inferInstanceAs (Decidable (_ ∨ _ ∨ _ ∨ (_ ∧ _)))

/-- The place behind so many characters is inside of a pair of carriage return and line feed. -/
def InsidePair (source : List Char) (k : Nat) : Prop :=
  0 < k ∧ source[k - 1]? = some '\r' ∧ source[k]? = some '\n'

instance (source : List Char) (k : Nat) : Decidable (InsidePair source k) :=
  inferInstanceAs (Decidable (_ ∧ _ ∧ _))

/-- The position tells of the place behind so many characters how wide they are, how many of them end
a line and how many stand on its own line. The carriage return of a pair stands on no line. -/
structure Position.Counts (source : List Char) (k : Nat) (p : Position) : Prop where
  utf8_eq : p.utf8 = ((source.take k).map (·.utf8Size)).sum
  utf16_eq : p.utf16 = ((source.take k).map unitWidth).sum
  line_eq : p.line = (List.range k).countP fun i => EndsLineAt source i
  column_eq : ∃ lineStart, (lineStart = 0 ∨ EndsLineAt source (lineStart - 1)) ∧
    (∀ i, lineStart ≤ i → i < k → ¬EndsLineAt source i) ∧
    lineStart + p.column + (if InsidePair source k then 1 else 0) = k

/-- The first place of a source that a byte offset reaches: the bytes before it are at least so many,
unless all of them are less, and those before the places in front of it are less. -/
structure Reaches (source : List Char) (offset k : Nat) : Prop where
  le_length : k ≤ source.length
  behind : offset ≤ byteWidth (source.take k) ∨ k = source.length
  first : ∀ j < k, byteWidth (source.take j) < offset

/-! ## One step -/

theorem byteWidth_eq_sum (cs : List Char) : byteWidth cs = (cs.map (·.utf8Size)).sum := by
  induction cs with
  | nil => rfl
  | cons c cs ih => rw [Text.byteWidth_cons, ih, List.map_cons, List.sum_cons]

section Character

variable {source : List Char} {k : Nat} {c : Char}

theorem endsLine_iff (hc : source[k]? = some c) :
    Position.endsLine c source[k + 1]? = true ↔ EndsLineAt source k := by
  simp [Position.endsLine, EndsLineAt, hc, or_assoc]

/-- The line feed of a pair ends its line. -/
theorem InsidePair.endsLineAt (h : InsidePair source k) : EndsLineAt source k :=
  .inl h.2.2

/-- Behind a carriage return that ends no line is the inside of a pair. -/
theorem insidePair_succ_iff (hc : source[k]? = some c) :
    InsidePair source (k + 1) ↔ c = '\r' ∧ ¬EndsLineAt source k := by
  simp only [InsidePair, Nat.add_sub_cancel, Nat.succ_pos, true_and, EndsLineAt, hc,
    Option.some.injEq]
  constructor
  · rintro ⟨rfl, hFeed⟩
    simp [hFeed]
  · rintro ⟨rfl, hNone⟩
    simpa using hNone

end Character

namespace Position

variable {source : List Char} {k : Nat} {p : Position} {c : Char}

theorem line_advance (p : Position) (c : Char) (next : Option Char) :
    (p.advance c next).line = p.line + if endsLine c next then 1 else 0 := by
  unfold advance
  dsimp only
  split
  · rfl
  · split <;> rfl

theorem column_advance (p : Position) (c : Char) (next : Option Char) :
    (p.advance c next).column =
      if endsLine c next then 0 else if c = '\r' then p.column else p.column + 1 := by
  simp only [advance, beq_iff_eq]
  split
  · rfl
  · split <;> rfl

namespace Counts

theorem zero (source : List Char) : Position.zero.Counts source 0 := by
  refine ⟨rfl, rfl, rfl, 0, .inl rfl, by simp, ?_⟩
  simp [InsidePair, Position.zero]

/-- A character that ends its line is followed by an empty one, and any other stays on its line. -/
theorem column_eq_advance (h : p.Counts source k) (hc : source[k]? = some c) :
    ∃ lineStart, (lineStart = 0 ∨ EndsLineAt source (lineStart - 1)) ∧
      (∀ i, lineStart ≤ i → i < k + 1 → ¬EndsLineAt source i) ∧
      lineStart + (p.advance c source[k + 1]?).column +
        (if InsidePair source (k + 1) then 1 else 0) = k + 1 := by
  simp only [column_advance, endsLine_iff hc, insidePair_succ_iff hc]
  by_cases hEnds : EndsLineAt source k
  · refine ⟨k + 1, .inr hEnds, by omega, ?_⟩
    simp [hEnds]
  · obtain ⟨lineStart, hStart, hLine, hColumn⟩ := h.column_eq
    rw [if_neg (mt InsidePair.endsLineAt hEnds)] at hColumn
    refine ⟨lineStart, hStart, ?_, ?_⟩
    · intro i hi hk
      rcases Nat.lt_succ_iff_lt_or_eq.mp hk with hk | rfl
      · exact hLine i hi hk
      · exact hEnds
    · by_cases hReturn : c = '\r'
      · -- the carriage return of a pair takes no column
        simp only [hEnds, hReturn, if_false, if_true, not_false_eq_true, and_self]
        omega
      · simp only [hEnds, hReturn, if_false, false_and]
        omega

/-- Stepping over a character counts it. -/
theorem advance (h : p.Counts source k) (hc : source[k]? = some c) :
    (p.advance c source[k + 1]?).Counts source (k + 1) := by
  have hTake : source.take (k + 1) = source.take k ++ [c] := by
    rw [List.take_add_one, hc]
    rfl
  refine ⟨?_, ?_, ?_, h.column_eq_advance hc⟩
  · rw [utf8_advance, h.utf8_eq, hTake]
    simp
  · rw [utf16_advance, h.utf16_eq, hTake]
    simp
  · rw [line_advance, h.line_eq, List.range_succ, List.countP_append, List.countP_singleton]
    simp only [endsLine_iff hc, decide_eq_true_eq]

end Counts

end Position

/-! ## The whole walk -/

section Walk

variable {source : List Char} {offset k : Nat} {p : Position}

theorem Position.Counts.utf8_eq_byteWidth (h : p.Counts source k) :
    p.utf8 = byteWidth (source.take k) :=
  h.utf8_eq.trans (byteWidth_eq_sum _).symm

/-- The invariant of the walk: the position counts what has been passed, and the offset has not been
reached yet. -/
theorem exists_counts_locateFrom (h : p.Counts source k) (hk : k ≤ source.length)
    (hBefore : ∀ j < k, byteWidth (source.take j) < offset) :
    ∃ k', Reaches source offset k' ∧ (locateFrom p (source.drop k) offset).Counts source k' := by
  generalize hRest : source.drop k = rest
  induction rest generalizing p k with
  | nil =>
    have hEnd : source.length ≤ k := List.drop_eq_nil_iff.mp hRest
    exact ⟨k, ⟨hk, .inr (by omega), hBefore⟩, h⟩
  | cons c cs ih =>
    by_cases hReached : offset ≤ p.utf8
    · rw [locateFrom, if_pos hReached]
      exact ⟨k, ⟨hk, .inl (h.utf8_eq_byteWidth ▸ hReached), hBefore⟩, h⟩
    · have hc : source[k]? = some c := by
        rw [← List.head?_drop, hRest]
        rfl
      have hNext : source.drop (k + 1) = cs := by
        rw [← List.tail_drop, hRest]
        rfl
      have hLook : cs.head? = source[k + 1]? := by
        rw [← hNext, List.head?_drop]
      rw [locateFrom, if_neg hReached, hLook]
      refine ih (h.advance hc) ?_ ?_ hNext
      · exact (List.getElem?_eq_some_iff.mp hc).1
      · intro j hj
        rcases Nat.lt_succ_iff_lt_or_eq.mp hj with hj | rfl
        · exact hBefore j hj
        · rw [← h.utf8_eq_byteWidth]
          omega

/-- The position of an offset is that of the first place that it reaches. -/
theorem exists_counts_locate (source : List Char) (offset : Nat) :
    ∃ k, Reaches source offset k ∧ (locate source offset).Counts source k :=
  exists_counts_locateFrom (.zero source) (Nat.zero_le _) nofun

theorem le_locateFrom (p : Position) (cs : List Char) (offset : Nat) :
    p.utf8 ≤ (locateFrom p cs offset).utf8 := by
  induction cs generalizing p with
  | nil => exact Nat.le_refl _
  | cons c cs ih =>
    rw [locateFrom]
    split
    · exact Nat.le_refl _
    · have hNext := ih (p.advance c cs.head?)
      rw [Position.utf8_advance] at hNext
      omega

theorem locateFrom_mono (p : Position) (cs : List Char) {a b : Nat} (h : a ≤ b) :
    (locateFrom p cs a).utf8 ≤ (locateFrom p cs b).utf8 := by
  induction cs generalizing p with
  | nil => exact Nat.le_refl _
  | cons c cs ih =>
    by_cases hReached : a ≤ p.utf8
    · rw [locateFrom_of_le hReached]
      exact le_locateFrom p (c :: cs) b
    · have hLater : ¬b ≤ p.utf8 := by omega
      rw [locateFrom, if_neg hReached, locateFrom, if_neg hLater]
      exact ih _

theorem locateFrom_locateFrom (p : Position) (cs : List Char) (offset : Nat) :
    locateFrom p cs (locateFrom p cs offset).utf8 = locateFrom p cs offset := by
  induction cs generalizing p with
  | nil => rfl
  | cons c cs ih =>
    by_cases hReached : offset ≤ p.utf8
    · rw [locateFrom_of_le hReached, locateFrom_of_le (Nat.le_refl _)]
    · have hNext : locateFrom p (c :: cs) offset =
          locateFrom (p.advance c cs.head?) cs offset := by
        rw [locateFrom, if_neg hReached]
      have hPos := c.utf8Size_pos
      have hLe := le_locateFrom (p.advance c cs.head?) cs offset
      rw [Position.utf8_advance] at hLe
      have hBehind : ¬(locateFrom (p.advance c cs.head?) cs offset).utf8 ≤ p.utf8 := by omega
      rw [hNext, locateFrom, if_neg hBehind, ih]

end Walk

/-! ## Completion -/

theorem DocTag.spans_mapPositions (f : Position → Position) (t : DocTag) :
    (t.mapPositions f).spans = t.spans.map (·.map f) := by
  simp [DocTag.spans, DocTag.mapPositions, Argument.mapPositions, Function.comp_def]

theorem DocComment.spans_mapPositions (f : Position → Position) (c : DocComment) :
    (c.mapPositions f).spans = c.spans.map (·.map f) := by
  simp [DocComment.spans, DocComment.mapPositions, List.flatMap_map, List.map_flatMap,
    DocTag.spans_mapPositions]

theorem DocumentedItem.spans_mapPositions (f : Position → Position) (item : DocumentedItem) :
    (item.mapPositions f).spans = item.spans.map (·.map f) := by
  cases item with
  | commented owner comment =>
    simp [DocumentedItem.spans, DocumentedItem.mapPositions, Declaration.mapPositions,
      DocComment.spans_mapPositions]
  | failed e => cases e <;> rfl

theorem Error.mapPositions_of_span?_eq_none {e : Error} (h : e.span? = none)
    (f : Position → Position) : e.mapPositions f = e := by
  cases e with
  | malformedComment span reason => cases h
  | sharedSources => rfl
  | io path failure => rfl

/-- **Completion.** Every end of a span becomes the position of the first place that its offset
reaches, and nothing else changes. Completing once more changes nothing at all, and spans that do not
end before they start stay so. -/
theorem complete_exact (source : List Char) (items : List DocumentedItem) :
    (complete source items).map (·.spans) = items.map (fun item => item.spans.map fun s =>
        ⟨locate source s.start.utf8, locate source s.stop.utf8⟩) ∧
      (∀ offset, ∃ k, Reaches source offset k ∧ (locate source offset).Counts source k) ∧
      (complete source items).map (·.mapPositions .forget) = items.map (·.mapPositions .forget) ∧
      (∀ (i : Nat) (e : Error), items[i]? = some (.failed e) → e.span? = none →
        (complete source items)[i]? = some (.failed e)) ∧
      complete source (complete source items) = complete source items ∧
      ∀ s : Span, s.start.utf8 ≤ s.stop.utf8 →
        (locate source s.start.utf8).utf8 ≤ (locate source s.stop.utf8).utf8 := by
  refine ⟨?_, exists_counts_locate source, ?_, ?_, ?_, ?_⟩
  · rw [complete_eq_map, List.map_map]
    exact List.map_congr_left fun item _ => item.spans_mapPositions _
  · rw [complete_eq_map, List.map_map]
    exact List.map_congr_left fun item _ => item.mapPositions_comp _ _
  · intro i e hItem hNone
    rw [complete_eq_map, List.getElem?_map, hItem, Option.map_some, DocumentedItem.mapPositions,
      Error.mapPositions_of_span?_eq_none hNone]
  · rw [complete_eq_map, complete_eq_map, List.map_map]
    refine List.map_congr_left fun item _ => ?_
    rw [Function.comp_apply, DocumentedItem.mapPositions_comp]
    congr 1
    funext p
    exact locateFrom_locateFrom .zero source p.utf8
  · intro s hOrder
    exact locateFrom_mono .zero source hOrder

/-- A comment from the inside of a wide character on, an owner from the inside of a pair of carriage
return and line feed to behind the end, and a failure without a place. -/
theorem complete_exact_wide :
    let source := "é @ü !x\r\né".toList
    let items : List DocumentedItem := [
      .commented { kind := .function, name := "f", span := .ofBytes 10 20 } {
        span := .ofBytes 1 9
        tags := [{
          name := "@ü"
          nameSpan := .ofBytes 3 6
          span := .ofBytes 3 9
          arguments := [{ name := "x", negated := true, span := .ofBytes 7 9 }] }] },
      .failed .sharedSources]
    let completed : List DocumentedItem := [
      .commented { kind := .function, name := "f", span := ⟨⟨10, 8, 0, 7⟩, ⟨13, 10, 1, 1⟩⟩ } {
        span := ⟨⟨2, 1, 0, 1⟩, ⟨9, 7, 0, 7⟩⟩
        tags := [{
          name := "@ü"
          nameSpan := ⟨⟨3, 2, 0, 2⟩, ⟨6, 4, 0, 4⟩⟩
          span := ⟨⟨3, 2, 0, 2⟩, ⟨9, 7, 0, 7⟩⟩
          arguments := [{ name := "x", negated := true, span := ⟨⟨7, 5, 0, 5⟩, ⟨9, 7, 0, 7⟩⟩ }] }] },
      .failed .sharedSources]
    complete source items = completed ∧ complete source completed = completed := by
  intro source items completed
  have hCompleted : complete source items = completed := by
    rw [complete_eq_map]
    decide +kernel
  obtain ⟨-, -, -, -, hAgain, -⟩ := complete_exact source items
  rw [hCompleted] at hAgain
  exact ⟨hCompleted, hAgain⟩

end TagLint
