import Mathlib.Tactic.ByContra
import TagLint.Proofs.CommentLines

/-!
# Comments are read or refused as a whole

The arguments of a tag are read in rounds. A round passes over the inline blanks, ends the list where
nothing or a line break is left, and asks for a word otherwise. A request for a word fails where a
blank stands, and nothing in the loop itself says that it ends. The guard of the request knows inline
blanks and line breaks, a word ends at any blank; since every blank is one of the two, no request is
made in vain, and each takes a character at least.

* `readComment`: the reader with its failing branches and its loop, as a computation that may fail and
  may not end within some rounds.
* `takeWord_of_guard`: behind the guard there is a word.
* `readArguments_eq_pure`: so the loop ends, with a round a character and one more, and gives the
  arguments.
* `parse_total`: a text is refused exactly if it lacks a delimiter.
-/

namespace TagLint

open Text (byteWidth isBlank isInlineBlank Cut Run)

namespace DocComment

/-! ## Reading with failure -/

/-- Why the tag of a line cannot be read. -/
inductive LineFault
  /-- A word is asked for where there is none. -/
  | noWord
deriving Repr, DecidableEq, Inhabited

/-- A computation that may end with a fault, or have no end within the rounds that it is given. -/
abbrev Reading (fault α : Type) :=
  ExceptT fault Option α

/-- Takes the characters up to the next blank, of which there has to be one. -/
def takeWord (cs : List Char) : Reading LineFault Cut :=
  let word := Cut.takeWhile (!isBlank ·) cs
  if word.taken.isEmpty then throw .noWord else pure word

/-- Whether no argument follows: nothing is left, or a line break comes next. -/
def endsArguments (cs : List Char) : Bool :=
  cs.head?.all isLineBreak

/-- Reads arguments from a byte offset on, after those read before, in this many rounds at most. -/
def readArguments (rounds offset : Nat) (cs : List Char) (before : List Argument) :
    Reading LineFault (List Argument) :=
  match rounds with
  | 0 => .mk none
  | rounds + 1 => do
    let blanks := Cut.takeWhile isInlineBlank cs
    if endsArguments blanks.rest then return before
    let start := offset + byteWidth blanks.taken
    let word ← takeWord blanks.rest
    let stop := start + byteWidth word.taken
    readArguments rounds stop word.rest (before ++ [.ofWord word.taken (.ofBytes start stop)])

/-- Reads the tag of a line, if it has one. -/
def readLine (rounds offset : Nat) (line : List Char) : Reading LineFault (Option DocTag) :=
  match lineContent line with
  | '@' :: cs => do
    let letters := Cut.takeWhile isTagChar cs
    if letters.taken.isEmpty then return none
    let start := offset + byteWidth (lineMargin line)
    let nameStop := start + byteWidth ('@' :: letters.taken)
    let arguments ← readArguments rounds nameStop letters.rest []
    return some {
      name := String.ofList ('@' :: letters.taken)
      nameSpan := .ofBytes start nameStop
      span := .ofBytes start ((arguments.getLast?.map (·.span.stop.utf8)).getD nameStop)
      arguments }
  | _ => return none

/-- Reads the tags of lines in a row. The fault of a line is told with the place of the line. -/
def readLines (wording : LineFault → String) (rounds offset : Nat) :
    List (List Char) → Reading Error (List DocTag)
  | [] => return []
  | line :: rest => do
    let stop := offset + byteWidth line
    let located (fault : LineFault) := Error.malformedComment (.ofBytes offset stop) (wording fault)
    let tag? ← ExceptT.adapt located (readLine rounds offset line)
    let tags ← readLines wording rounds stop rest
    return tag?.toList ++ tags

/-- Reads a comment that stands at a byte offset of its file. -/
def readComment (wording : LineFault → String) (rounds : Nat) (text : List Char) (offset : Nat) :
    Reading Error DocComment :=
  let span := Span.ofBytes offset (offset + byteWidth text)
  match body? text with
  | some body => do
    let tags ← readLines wording rounds (offset + 3) (lines body)
    return { span, tags }
  | none => throw (.malformedComment span delimitersRequired)

/-! ## One round -/

theorem endsArguments_of_break {cs : List Char} (h : ∀ c ∈ cs.head?, isLineBreak c = true) :
    endsArguments cs = true := by
  rw [endsArguments, Option.all_eq_true]
  exact h

theorem takeWord_word {word rest : List Char} (hNe : word ≠ []) (hWord : Run (!isBlank ·) word rest) :
    takeWord (word ++ rest) = pure ⟨word, rest⟩ := by
  have hTaken : word.isEmpty = false := by simpa using hNe
  rw [takeWord, hWord.cut_eq]
  simp only [hTaken, Bool.false_eq_true, if_false]

theorem not_endsArguments_word {word rest : List Char} (hNe : word ≠ [])
    (hWord : Run (!isBlank ·) word rest) : endsArguments (word ++ rest) = false := by
  obtain ⟨c, word, rfl⟩ := List.exists_cons_of_ne_nil hNe
  have hBlank : isBlank c = false := by simpa using hWord.all c List.mem_cons_self
  simpa [endsArguments] using not_isLineBreak_of_not_isBlank hBlank

/-- Behind the guard of a round there is a word, and taking it leaves less than the round began
with. -/
theorem takeWord_of_guard {cs : List Char} (h : endsArguments (cs.dropWhile isInlineBlank) = false) :
    ∃ word, takeWord (cs.dropWhile isInlineBlank) = pure word ∧ word.taken ≠ [] ∧
      word.rest.length < cs.length := by
  cases lineWords cs with
  | ending hBlanks hTail =>
    rw [(run_inlineBlank_of_ending hBlanks hTail).dropWhile_eq, endsArguments_of_break hTail] at h
    cases h
  | @word blanks word rest hBlanks hNe hWord _ =>
    rw [(run_inlineBlank_of_word hBlanks hNe hWord).dropWhile_eq]
    refine ⟨⟨word, rest⟩, takeWord_word hNe hWord, hNe, ?_⟩
    have hPos := List.length_pos_iff.mpr hNe
    simp only [List.length_append]
    omega

theorem readArguments_ending {blanks tail : List Char}
    (hBlanks : ∀ c ∈ blanks, isInlineBlank c = true)
    (hTail : ∀ c ∈ tail.head?, isLineBreak c = true) (rounds offset : Nat)
    (before : List Argument) :
    readArguments (rounds + 1) offset (blanks ++ tail) before = pure before := by
  rw [readArguments, (run_inlineBlank_of_ending hBlanks hTail).cut_eq]
  simp only [endsArguments_of_break hTail, if_true]

theorem readArguments_word {blanks word rest : List Char}
    (hBlanks : ∀ c ∈ blanks, isInlineBlank c = true) (hNe : word ≠ [])
    (hWord : Run (!isBlank ·) word rest) (rounds offset : Nat) (before : List Argument) :
    readArguments (rounds + 1) offset (blanks ++ (word ++ rest)) before =
      readArguments rounds (offset + byteWidth blanks + byteWidth word) rest
        (before ++ [.ofWord word (.ofBytes (offset + byteWidth blanks)
          (offset + byteWidth blanks + byteWidth word))]) := by
  rw [readArguments, (run_inlineBlank_of_word hBlanks hNe hWord).cut_eq]
  simp only [not_endsArguments_word hNe hWord, Bool.false_eq_true, if_false, takeWord_word hNe hWord,
    pure_bind]

/-! ## The whole reading -/

/-- With a round a character and one more, the loop ends without a fault. What it has read before
stands in front of the arguments of the rest. -/
theorem readArguments_eq_pure {rounds : Nat} {cs : List Char} (h : cs.length < rounds) (offset : Nat)
    (before : List Argument) :
    readArguments rounds offset cs before = pure (before ++ scanArguments offset cs) := by
  induction lineWords cs generalizing rounds offset before with
  | ending hBlanks hTail =>
    obtain ⟨rounds, rfl⟩ := Nat.exists_eq_add_one_of_ne_zero (Nat.ne_zero_of_lt h)
    rw [readArguments_ending hBlanks hTail, scanArguments_ending hBlanks hTail, List.append_nil]
  | @word blanks word rest hBlanks hNe hWord _ ih =>
    obtain ⟨rounds, rfl⟩ := Nat.exists_eq_add_one_of_ne_zero (Nat.ne_zero_of_lt h)
    have hRest : rest.length < rounds := by
      have hPos := List.length_pos_iff.mpr hNe
      simp only [List.length_append] at h
      omega
    rw [readArguments_word hBlanks hNe hWord, ih hRest, scanArguments_word hBlanks hNe hWord,
      List.append_assoc]
    rfl

theorem readLine_eq_pure {rounds : Nat} {line : List Char} (h : line.length < rounds)
    (offset : Nat) : readLine rounds offset line = pure (scanLine? offset line) := by
  have hLength : (lineContent line).length ≤ line.length := by
    rw [← congrArg List.length (lineMargin_append_lineContent line), List.length_append]
    omega
  unfold readLine scanLine?
  rcases content_cases (lineContent line) with
    ⟨letters, rest, hContent, hNe, hLetters⟩ | ⟨rest, hContent, hNone⟩ | hSign
  · have hTaken : letters.isEmpty = false := by simpa using hNe
    have hRest : rest.length < rounds := by
      rw [hContent] at hLength
      simp only [List.length_cons, List.length_append] at hLength
      omega
    rw [hContent, scanTag?_letters hNe hLetters]
    simp only [hLetters.cut_eq, hTaken, Bool.false_eq_true, if_false, readArguments_eq_pure hRest,
      pure_bind]
    rfl
  · rw [hContent, scanTag?_no_letters hNone]
    simp only [show Cut.takeWhile isTagChar rest = ⟨[], rest⟩ from hNone.cut_eq, List.isEmpty_nil,
      if_true]
  · rw [scanTag?_no_sign hSign]
    split
    · rename_i cs hContent
      exact absurd (congrArg List.head? hContent) hSign
    · rfl

theorem readLines_eq_pure {rounds : Nat} {ls : List (List Char)}
    (h : ∀ line ∈ ls, line.length < rounds) (wording : LineFault → String) (offset : Nat) :
    readLines wording rounds offset ls = pure (scanLines offset ls) := by
  induction ls generalizing offset with
  | nil => rfl
  | cons line rest ih =>
    obtain ⟨hLine, hRest⟩ := List.forall_mem_cons.mp h
    rw [readLines, readLine_eq_pure hLine]
    simp only [ih hRest]
    rfl

theorem run_readComment {rounds : Nat} {text : List Char} (h : text.length < rounds)
    (wording : LineFault → String) (offset : Nat) :
    (readComment wording rounds text offset).run = some (parse text offset) := by
  unfold readComment parse
  dsimp only
  cases hBody : body? text with
  | none => rfl
  | some body =>
    have hLines : ∀ line ∈ lines body, line.length < rounds := by
      intro line hLine
      have hWithin := (List.sublist_flatten_of_mem hLine).length_le
      obtain ⟨-, n, rfl⟩ := body?_eq_some_iff.mp hBody
      rw [lines_flatten] at hWithin
      simp only [List.length_cons, List.length_append] at h
      omega
    simp only [readLines_eq_pure hLines]
    rfl

/-! ## Delimiters -/

/-- The text starts with `/**`, and what follows ends with `*/`. -/
def IsDelimited (text : List Char) : Prop :=
  ∃ rest, text = ['/', '*', '*'] ++ rest ∧ ['*', '/'] <:+ rest

theorem body?_eq_none_iff {text : List Char} : body? text = none ↔ ¬IsDelimited text := by
  constructor
  · rintro hNone ⟨rest, rfl, inner, rfl⟩
    exact body?_closed_ne_none inner hNone
  · intro hOpen
    cases hBody : body? text with
    | none => rfl
    | some body =>
      obtain ⟨-, n, rfl⟩ := body?_eq_some_iff.mp hBody
      exact absurd ⟨_, rfl, body ++ List.replicate n '*', rfl⟩ hOpen

theorem parse_of_not_isDelimited {text : List Char} (h : ¬IsDelimited text) (offset : Nat) :
    parse text offset =
      .error (.malformedComment (.ofBytes offset (offset + byteWidth text)) delimitersRequired) :=
  parse_eq_error_iff.mpr ⟨body?_eq_none_iff.mpr h, rfl⟩

theorem exists_parse_iff {text : List Char} {offset : Nat} :
    (∃ comment, parse text offset = .ok comment) ↔ IsDelimited text := by
  constructor
  · rintro ⟨comment, hParse⟩
    by_contra hOpen
    rw [parse_of_not_isDelimited hOpen] at hParse
    cases hParse
  · intro hText
    cases hParse : parse text offset with
    | ok comment => exact ⟨comment, rfl⟩
    | error e => exact absurd hText (body?_eq_none_iff.mp (parse_eq_error_iff.mp hParse).1)

/-- **Comments are read or refused as a whole.** A text is read exactly if it has both delimiters, and
is refused with its whole span otherwise. With its failing branches and its loop written out, the
reader does the same: on every line the loop ends without a fault in no more rounds than the line has
characters and one, since behind its guard there is always a word, which takes a character at least. -/
theorem parse_total (wording : LineFault → String) (text : List Char) (offset : Nat) :
    ((∃ comment, parse text offset = .ok comment) ↔ IsDelimited text) ∧
    (¬IsDelimited text → parse text offset =
      .error (.malformedComment (.ofBytes offset (offset + byteWidth text)) delimitersRequired)) ∧
    (∀ rounds > text.length,
      (readComment wording rounds text offset).run = some (parse text offset)) ∧
    (∀ start line, ∀ rounds > line.length,
      (readLine rounds start line).run = some (.ok (scanLine? start line))) ∧
    ∀ line : List Char, endsArguments (line.dropWhile isInlineBlank) = false →
      ∃ word, takeWord (line.dropWhile isInlineBlank) = pure word ∧ word.taken ≠ [] ∧
        word.rest.length < line.length := by
  refine ⟨exists_parse_iff, ?_, ?_, ?_, ?_⟩
  · intro hOpen
    exact parse_of_not_isDelimited hOpen offset
  · intro rounds hRounds
    exact run_readComment hRounds wording offset
  · intro start line rounds hRounds
    rw [readLine_eq_pure hRounds]
    rfl
  · intro line hGuard
    exact takeWord_of_guard hGuard

end DocComment

end TagLint
