import TagLint.Proofs.ArgumentRemoval

/-!
# Written comments

A comment is written line by line: some lines hold a tag and the words behind its name, and the others
hold no tag. Between the parts of a line there may be any blanks, and before its content stars. However
a comment is laid out, reading it gives back its tags, each part at the place where it was written.

* `WrittenComment`: the lines of a comment, with its `text` and the `comment` that it stands for.
* `scanArguments_written`, `scanTag?_written`, `scanLine?_written`: words, tags and lines are read as
  they were written.
* `parse_written`: so are comments.
-/

namespace TagLint

open Text (byteWidth isBlank isInlineBlank Run)

/-! ## Words -/

/-- A word behind the name of a tag, with the blanks that set it apart. -/
structure WrittenWord where
  blanks : List Char
  word : List Char
  blanks_ne_nil : blanks ≠ []
  areBlanks : ∀ c ∈ blanks, isInlineBlank c = true
  word_ne_nil : word ≠ []
  isWord : ∀ c ∈ word, isBlank c = false

namespace WrittenWord

/-- The blanks and the word. -/
def text (w : WrittenWord) : List Char :=
  w.blanks ++ w.word

/-- The argument that a word stands for. An exclamation mark before it, of which only the first
counts, is not part of its name. The offset is that of the blanks. -/
def argument (offset : Nat) (w : WrittenWord) : Argument :=
  let start := offset + byteWidth w.blanks
  { name := String.ofList (if w.word.head? = some '!' then w.word.tail else w.word)
    negated := w.word.head? = some '!'
    span := .ofBytes start (start + byteWidth w.word) }

/-- The arguments that words in a row stand for. -/
def arguments (offset : Nat) : List WrittenWord → List Argument
  | [] => []
  | w :: ws => w.argument offset :: arguments (offset + byteWidth w.text) ws

theorem argument_eq_ofWord (offset : Nat) (w : WrittenWord) :
    w.argument offset = .ofWord w.word
      (.ofBytes (offset + byteWidth w.blanks) (offset + byteWidth w.blanks + byteWidth w.word)) := by
  obtain ⟨c, cs, hWord⟩ := List.exists_cons_of_ne_nil w.word_ne_nil
  by_cases hMark : c = '!'
  · simp [argument, Argument.ofWord, Argument.negationMark, hWord, hMark]
  · simp [argument, Argument.ofWord, Argument.negationMark, hWord, hMark]

/-- The last argument ends where the words do. -/
theorem stop_arguments (offset : Nat) (ws : List WrittenWord) :
    ((arguments offset ws).getLast?.map (·.span.stop.utf8)).getD offset =
      offset + byteWidth (ws.flatMap (·.text)) := by
  induction ws generalizing offset with
  | nil => rfl
  | cons w ws ih =>
    have hRest := ih (offset + byteWidth w.text)
    rw [arguments, List.getLast?_cons, List.flatMap_cons, Text.byteWidth_append, ← Nat.add_assoc,
      ← hRest]
    cases (arguments (offset + byteWidth w.text) ws).getLast? with
    | none => simp [argument, text, Span.ofBytes, Position.ofByte, Nat.add_assoc]
    | some a => rfl

end WrittenWord

namespace DocComment

/-- What comes behind a name or a word begins with a blank. -/
theorem isBlank_head_written {ws : List WrittenWord} {trailing ending : List Char}
    (hTrailing : ∀ c ∈ trailing, isInlineBlank c = true)
    (hEnding : ∀ c ∈ ending.head?, isLineBreak c = true) :
    ∀ c ∈ (ws.flatMap (·.text) ++ (trailing ++ ending)).head?, isBlank c = true := by
  intro c hc
  cases ws with
  | cons w ws =>
    obtain ⟨d, blanks, hBlanks⟩ := List.exists_cons_of_ne_nil w.blanks_ne_nil
    obtain rfl : d = c := by
      simpa [WrittenWord.text, hBlanks] using hc
    exact Text.isBlank_of_isInlineBlank (w.areBlanks d (by simp [hBlanks]))
  | nil =>
    cases trailing with
    | cons d trailing =>
      obtain rfl : d = c := by
        simpa using hc
      exact Text.isBlank_of_isInlineBlank (hTrailing d List.mem_cons_self)
    | nil => exact isBlank_of_isLineBreak (hEnding c (by simpa using hc))

theorem scanArguments_written {trailing ending : List Char}
    (hTrailing : ∀ c ∈ trailing, isInlineBlank c = true)
    (hEnding : ∀ c ∈ ending.head?, isLineBreak c = true) (offset : Nat) (ws : List WrittenWord) :
    scanArguments offset (ws.flatMap (·.text) ++ (trailing ++ ending)) =
      WrittenWord.arguments offset ws := by
  induction ws generalizing offset with
  | nil => exact scanArguments_ending hTrailing hEnding offset
  | cons w ws ih =>
    have hWord : Run (!isBlank ·) w.word (ws.flatMap (·.text) ++ (trailing ++ ending)) := by
      refine ⟨fun c hc => by simp [w.isWord c hc], fun c hc => ?_⟩
      simp [isBlank_head_written hTrailing hEnding c hc]
    have hSplit : (w :: ws).flatMap (·.text) ++ (trailing ++ ending) =
        w.blanks ++ (w.word ++ (ws.flatMap (·.text) ++ (trailing ++ ending))) := by
      simp [WrittenWord.text]
    have hStop : offset + byteWidth w.blanks + byteWidth w.word = offset + byteWidth w.text := by
      simp [WrittenWord.text, Nat.add_assoc]
    rw [hSplit, scanArguments_word w.areBlanks w.word_ne_nil hWord, hStop, ih, WrittenWord.arguments,
      w.argument_eq_ofWord, hStop]

end DocComment

/-! ## Lines -/

/-- The end of a line: a line feed, perhaps behind a carriage return. -/
def lineEnd (paired : Bool) : List Char :=
  if paired then ['\r', '\n'] else ['\n']

/-- A line with a tag. -/
structure TagLine where
  outer : List Char
  stars : Nat
  inner : List Char
  letters : List Char
  words : List WrittenWord
  trailing : List Char
  paired : Bool
  outerBlank : ∀ c ∈ outer, isInlineBlank c = true
  innerBlank : ∀ c ∈ inner, isInlineBlank c = true
  letters_ne_nil : letters ≠ []
  areTagChars : ∀ c ∈ letters, DocComment.isTagChar c = true
  trailingBlank : ∀ c ∈ trailing, isInlineBlank c = true

namespace TagLine

/-- What stands before the content of the line. -/
def margin (t : TagLine) : List Char :=
  t.outer ++ List.replicate t.stars '*' ++ t.inner

/-- The line without its end. -/
def body (t : TagLine) : List Char :=
  t.margin ++ '@' :: (t.letters ++ (t.words.flatMap (·.text) ++ t.trailing))

/-- The line. -/
def text (t : TagLine) : List Char :=
  t.body ++ lineEnd t.paired

/-- The tag of a line that starts at a byte offset: it extends over its name and its words. -/
def tag (offset : Nat) (t : TagLine) : DocTag :=
  let start := offset + byteWidth t.margin
  let nameStop := start + byteWidth ('@' :: t.letters)
  { name := String.ofList ('@' :: t.letters)
    nameSpan := .ofBytes start nameStop
    span := .ofBytes start (nameStop + byteWidth (t.words.flatMap (·.text)))
    arguments := WrittenWord.arguments nameStop t.words }

end TagLine

/-- A line without a tag: its content, behind blanks, stars and blanks, does not begin with an at sign
and a letter of a name. -/
structure ProseLine where
  body : List Char
  feedless : '\n' ∉ body
  untagged : ∀ outer stars inner c,
    (∀ d ∈ outer, isInlineBlank d = true) → (∀ d ∈ inner, isInlineBlank d = true) →
    outer ++ List.replicate stars '*' ++ inner ++ ['@', c] <+: body → DocComment.isTagChar c = false

/-- A line of a comment. -/
inductive WrittenLine
  | tag (t : TagLine)
  | prose (p : ProseLine)

namespace WrittenLine

/-- The line with its end. -/
def text : WrittenLine → List Char
  | .tag t => t.text
  | .prose p => p.body ++ ['\n']

/-- The tag of a line that starts at a byte offset. -/
def tag? (offset : Nat) : WrittenLine → Option DocTag
  | .tag t => some (t.tag offset)
  | .prose _ => none

/-- The tags of lines in a row. -/
def tags (offset : Nat) : List WrittenLine → List DocTag
  | [] => []
  | line :: lines => (line.tag? offset).toList ++ tags (offset + byteWidth line.text) lines

end WrittenLine

namespace DocComment

theorem scanTag?_written {letters trailing ending : List Char} (hNe : letters ≠ [])
    (hLetters : ∀ c ∈ letters, isTagChar c = true)
    (hTrailing : ∀ c ∈ trailing, isInlineBlank c = true)
    (hEnding : ∀ c ∈ ending.head?, isLineBreak c = true) (ws : List WrittenWord) (offset : Nat) :
    scanTag? offset ('@' :: (letters ++ (ws.flatMap (·.text) ++ (trailing ++ ending)))) =
      some {
        name := String.ofList ('@' :: letters)
        nameSpan := .ofBytes offset (offset + byteWidth ('@' :: letters))
        span := .ofBytes offset
          (offset + byteWidth ('@' :: letters) + byteWidth (ws.flatMap (·.text)))
        arguments := WrittenWord.arguments (offset + byteWidth ('@' :: letters)) ws } := by
  have hRun : Run isTagChar letters (ws.flatMap (·.text) ++ (trailing ++ ending)) :=
    ⟨hLetters, fun c hc => not_isTagChar_of_isBlank (isBlank_head_written hTrailing hEnding c hc)⟩
  rw [scanTag?_letters hNe hRun, tagAt]
  simp only [scanArguments_written hTrailing hEnding, WrittenWord.stop_arguments]

/-- A margin is recognised if its line goes on with neither a blank nor a star. Without stars, the
blanks on both sides are one run. -/
theorem lineMargin_written {outer inner content : List Char} (stars : Nat)
    (hOuter : ∀ c ∈ outer, isInlineBlank c = true) (hInner : ∀ c ∈ inner, isInlineBlank c = true)
    (hContent : ∀ c ∈ content.head?, isInlineBlank c = false ∧ c ≠ '*') :
    lineMargin (outer ++ List.replicate stars '*' ++ inner ++ content) =
        outer ++ List.replicate stars '*' ++ inner ∧
      lineContent (outer ++ List.replicate stars '*' ++ inner ++ content) = content := by
  have hBehind : Run isInlineBlank inner content := ⟨hInner, fun c hc => (hContent c hc).1⟩
  have hNoStar : ∀ c ∈ content.head?, (c == '*') = false :=
    fun c hc => beq_eq_false_iff_ne.mpr (hContent c hc).2
  cases stars with
  | zero =>
    have hRun : Run isInlineBlank (outer ++ inner) ([] ++ ([] ++ content)) := hBehind.append hOuter
    have hStars : Run (· == '*') [] ([] ++ content) := .nil hNoStar
    have hSplit := lineMargin_of_runs hRun hStars (.nil hBehind.stops)
    simpa using hSplit
  | succ stars =>
    have hStars : Run (· == '*') (List.replicate (stars + 1) '*') (inner ++ content) := by
      refine ⟨fun c hc => by simp [List.eq_of_mem_replicate hc], fun c hc => ?_⟩
      cases inner with
      | nil => exact hNoStar c hc
      | cons d inner =>
        obtain rfl : d = c := by
          simpa using hc
        refine beq_eq_false_iff_ne.mpr ?_
        rintro rfl
        exact absurd (hInner '*' List.mem_cons_self) (by decide)
    have hRun : Run isInlineBlank outer
        (List.replicate (stars + 1) '*' ++ (inner ++ content)) := by
      refine ⟨hOuter, fun c hc => ?_⟩
      obtain rfl : '*' = c := by
        simpa [List.replicate_succ] using hc
      decide
    have hSplit := lineMargin_of_runs hRun hStars hBehind
    simpa using hSplit

/-- It is enough to look at the content as it is found behind the margin. -/
theorem untagged_of_lineContent {body : List Char}
    (h : ∀ c ∈ (lineContent body).tail.head?, (lineContent body).head? = some '@' →
      isTagChar c = false) :
    ∀ outer stars inner c, (∀ d ∈ outer, isInlineBlank d = true) →
      (∀ d ∈ inner, isInlineBlank d = true) →
      outer ++ List.replicate stars '*' ++ inner ++ ['@', c] <+: body → isTagChar c = false := by
  rintro outer stars inner c hOuter hInner ⟨rest, rfl⟩
  have hContent : ∀ d ∈ ('@' :: c :: rest).head?, isInlineBlank d = false ∧ d ≠ '*' := by
    rintro d ⟨⟩
    decide
  obtain ⟨-, hLine⟩ := lineMargin_written stars hOuter hInner hContent
  rw [List.append_assoc _ ['@', c], List.cons_append, List.singleton_append, hLine] at h
  exact h c rfl rfl

theorem exists_margin (line : List Char) :
    ∃ outer stars inner, lineMargin line = outer ++ List.replicate stars '*' ++ inner ∧
      (∀ c ∈ outer, isInlineBlank c = true) ∧ ∀ c ∈ inner, isInlineBlank c = true := by
  let afterBlanks := line.dropWhile isInlineBlank
  have hStars : afterBlanks.takeWhile (· == '*') = List.replicate _ '*' :=
    List.eq_replicate_of_mem fun c hc => beq_iff_eq.mp (Text.all_takeWhile _ _ c hc)
  refine ⟨line.takeWhile isInlineBlank, (afterBlanks.takeWhile (· == '*')).length,
    (afterBlanks.dropWhile (· == '*')).takeWhile isInlineBlank, ?_, Text.all_takeWhile _ _,
    Text.all_takeWhile _ _⟩
  rw [← hStars]
  rfl

theorem isLineBreak_head_lineEnd (paired : Bool) :
    ∀ c ∈ (lineEnd paired).head?, isLineBreak c = true := by
  cases paired with
  | true =>
    rintro c ⟨⟩
    rfl
  | false =>
    rintro c ⟨⟩
    rfl

theorem scanLine?_tagLine (t : TagLine) (offset : Nat) :
    scanLine? offset t.text = some (t.tag offset) := by
  let content := '@' :: (t.letters ++
    (t.words.flatMap (·.text) ++ (t.trailing ++ lineEnd t.paired)))
  have hText : t.text = t.outer ++ List.replicate t.stars '*' ++ t.inner ++ content := by
    simp [TagLine.text, TagLine.body, TagLine.margin, content]
  have hContent : ∀ c ∈ content.head?, isInlineBlank c = false ∧ c ≠ '*' := by
    rintro c ⟨⟩
    decide
  obtain ⟨hMargin, hLine⟩ := lineMargin_written t.stars t.outerBlank t.innerBlank hContent
  rw [scanLine?, hText, hMargin, hLine, scanTag?_written t.letters_ne_nil t.areTagChars
    t.trailingBlank (isLineBreak_head_lineEnd t.paired)]
  rfl

theorem scanLine?_proseLine (p : ProseLine) (offset : Nat) :
    scanLine? offset (p.body ++ ['\n']) = none := by
  rcases content_cases (lineContent (p.body ++ ['\n'])) with
    ⟨letters, rest, hContent, hNe, hLetters⟩ | ⟨rest, hContent, hNone⟩ | hSign
  · obtain ⟨c, letters, rfl⟩ := List.exists_cons_of_ne_nil hNe
    have hLetter : isTagChar c = true := hLetters.all c List.mem_cons_self
    obtain ⟨outer, stars, inner, hMargin, hOuter, hInner⟩ := exists_margin (p.body ++ ['\n'])
    have hLine := lineMargin_append_lineContent (p.body ++ ['\n'])
    rw [hMargin, hContent] at hLine
    have hPrefix : outer ++ List.replicate stars '*' ++ inner ++ ['@', c] <+: p.body ++ ['\n'] :=
      ⟨letters ++ rest, by simpa using hLine⟩
    rcases List.prefix_concat_iff.mp hPrefix with hWhole | hBody
    · -- the letter would be the line feed
      have hLast := congrArg List.getLast? hWhole
      simp only [List.getLast?_append, List.getLast?_cons_cons, List.getLast?_singleton,
        Option.some_or, Option.some.injEq] at hLast
      rw [hLast] at hLetter
      exact absurd hLetter (by decide)
    · rw [p.untagged outer stars inner c hOuter hInner hBody] at hLetter
      cases hLetter
  · rw [scanLine?, hContent, scanTag?_no_letters hNone]
  · exact scanTag?_no_sign hSign _

theorem scanLine?_written (line : WrittenLine) (offset : Nat) :
    scanLine? offset line.text = line.tag? offset := by
  cases line with
  | tag t => exact scanLine?_tagLine t offset
  | prose p => exact scanLine?_proseLine p offset

/-! ## Comments -/

theorem feed_not_mem {cs : List Char} (h : ∀ c ∈ cs, isInlineBlank c = true) : '\n' ∉ cs :=
  fun hFeed => absurd (h '\n' hFeed) (by decide)

end DocComment

theorem lineEnd_eq (paired : Bool) :
    ∃ carriage, lineEnd paired = carriage ++ ['\n'] ∧ '\n' ∉ carriage := by
  cases paired with
  | true => exact ⟨['\r'], rfl, by decide⟩
  | false => exact ⟨[], rfl, by simp⟩

theorem TagLine.feed_not_mem_body (t : TagLine) : '\n' ∉ t.body := by
  have hOuter := DocComment.feed_not_mem t.outerBlank
  have hInner := DocComment.feed_not_mem t.innerBlank
  have hTrailing := DocComment.feed_not_mem t.trailingBlank
  have hLetters : '\n' ∉ t.letters := fun hFeed => absurd (t.areTagChars _ hFeed) (by decide)
  have hWords : ∀ w ∈ t.words, '\n' ∉ w.blanks ∧ '\n' ∉ w.word := by
    intro w _
    exact ⟨DocComment.feed_not_mem w.areBlanks, fun hFeed => absurd (w.isWord _ hFeed) (by decide)⟩
  simp only [body, margin, List.mem_append, List.mem_cons, List.mem_flatMap, WrittenWord.text,
    List.mem_replicate]
  grind

/-- A line has one line feed, at its end. -/
theorem WrittenLine.exists_feed (line : WrittenLine) :
    ∃ front, line.text = front ++ ['\n'] ∧ '\n' ∉ front := by
  cases line with
  | prose p => exact ⟨p.body, rfl, p.feedless⟩
  | tag t =>
    obtain ⟨carriage, hEnd, hFeed⟩ := lineEnd_eq t.paired
    refine ⟨t.body ++ carriage, ?_, ?_⟩
    · rw [WrittenLine.text, TagLine.text, hEnd, List.append_assoc]
    · rw [List.mem_append]
      exact not_or.mpr ⟨t.feed_not_mem_body, hFeed⟩

/-- Lines behind a line feed end with one. -/
theorem WrittenLine.exists_feed_after (front : List Char) (ls : List WrittenLine) :
    ∃ front', front ++ ['\n'] ++ ls.flatMap (·.text) = front' ++ ['\n'] := by
  induction ls generalizing front with
  | nil => exact ⟨front, by simp⟩
  | cons line ls ih =>
    obtain ⟨more, hLine, -⟩ := line.exists_feed
    obtain ⟨front', hRest⟩ := ih (front ++ ['\n'] ++ more)
    exact ⟨front', by simpa [hLine] using hRest⟩

/-- A comment: lines behind the first, on which nothing stands but the delimiter, and blanks before
the closing one. -/
structure WrittenComment where
  paired : Bool
  lines : List WrittenLine
  closing : List Char
  closingBlank : ∀ c ∈ closing, isInlineBlank c = true

namespace WrittenComment

/-- What stands between the delimiters. -/
def inner (c : WrittenComment) : List Char :=
  lineEnd c.paired ++ (c.lines.flatMap (·.text) ++ c.closing)

/-- The text of the comment. -/
def text (c : WrittenComment) : List Char :=
  '/' :: '*' :: '*' :: (c.inner ++ ['*', '/'])

/-- What the comment says, when it stands at a byte offset. -/
def comment (offset : Nat) (c : WrittenComment) : DocComment where
  span := .ofBytes offset (offset + byteWidth c.text)
  tags := WrittenLine.tags (offset + byteWidth ['/', '*', '*'] + byteWidth (lineEnd c.paired)) c.lines

/-- Before the closing delimiter there is a line feed or a blank. -/
theorem getLast?_inner_ne_star (c : WrittenComment) : ∀ d ∈ c.inner.getLast?, d ≠ '*' := by
  obtain ⟨carriage, hEnd, -⟩ := lineEnd_eq c.paired
  obtain ⟨front, hFront⟩ := WrittenLine.exists_feed_after carriage c.lines
  have hInner : c.inner = front ++ ['\n'] ++ c.closing := by
    rw [inner, hEnd, ← hFront, List.append_assoc, List.append_assoc, List.append_assoc]
  intro d hd
  rw [hInner] at hd
  by_cases hNil : c.closing = []
  · rw [hNil, List.append_nil, List.getLast?_concat] at hd
    obtain rfl := Option.some.inj hd
    decide
  · rw [Text.getLast?_append_of_ne_nil _ hNil] at hd
    rintro rfl
    exact absurd (c.closingBlank '*' (List.mem_of_getLast? hd)) (by decide)

end WrittenComment

namespace DocComment

theorem scanLines_feed {front : List Char} (hFeed : '\n' ∉ front) (rest : List Char) (offset : Nat) :
    scanLines offset (lines (front ++ ['\n'] ++ rest)) =
      (scanLine? offset (front ++ ['\n'])).toList ++
        scanLines (offset + byteWidth (front ++ ['\n'])) (lines rest) := by
  have hSplit : front ++ ['\n'] ++ rest = front ++ '\n' :: rest := by
    simp
  rw [hSplit, lines_feed hFeed, scanLines]

/-- The blanks before the closing delimiter hold no tag. -/
theorem scanLines_closing {closing : List Char} (h : ∀ c ∈ closing, isInlineBlank c = true)
    (offset : Nat) : scanLines offset (lines closing) = [] := by
  by_cases hNil : closing = []
  · subst hNil
    rfl
  · have hRun : Run isInlineBlank closing [] := ⟨h, by simp⟩
    have hContent : lineContent closing = [] := by
      have hDrop := hRun.dropWhile_eq
      rw [List.append_nil] at hDrop
      rw [lineContent, hDrop]
      rfl
    rw [lines_last hNil (feed_not_mem h), scanLines, scanLine?, hContent]
    rfl

/-- The invariant along the lines: the offset has moved by the lines that have been read. -/
theorem scanLines_written {closing : List Char} (h : ∀ c ∈ closing, isInlineBlank c = true)
    (ls : List WrittenLine) (offset : Nat) :
    scanLines offset (lines (ls.flatMap (·.text) ++ closing)) = WrittenLine.tags offset ls := by
  induction ls generalizing offset with
  | nil => exact scanLines_closing h offset
  | cons line ls ih =>
    obtain ⟨front, hLine, hFeed⟩ := line.exists_feed
    rw [List.flatMap_cons, List.append_assoc, hLine, scanLines_feed hFeed, ← hLine,
      scanLine?_written, ih, WrittenLine.tags]

/-- The first line, behind the opening delimiter, holds no tag. -/
theorem scanLines_opening (paired : Bool) (rest : List Char) (offset : Nat) :
    scanLines offset (lines (lineEnd paired ++ rest)) =
      scanLines (offset + byteWidth (lineEnd paired)) (lines rest) := by
  obtain ⟨carriage, hEnd, hFeed⟩ := lineEnd_eq paired
  have hNone : scanLine? offset (lineEnd paired) = none := by
    cases paired <;> rfl
  rw [hEnd, scanLines_feed hFeed, ← hEnd, hNone]
  rfl

/-- **Written comments.** Reading a comment gives back the tags that were written into it, with their
words as arguments and each span at the place of what was written. So the spans cut the tags, their
names and their words out of every source in which the comment stands. -/
theorem parse_written (c : WrittenComment) (offset : Nat) :
    parse c.text offset = .ok (c.comment offset) ∧
      ∀ source, StandsAt source c.text offset → (c.comment offset).span.Covers source c.text ∧
        ∀ t ∈ (c.comment offset).tags, t.Placed source := by
  have hBody : body? c.text = some c.inner :=
    body?_eq_some_iff.mpr ⟨c.getLast?_inner_ne_star, 0, by simp [WrittenComment.text]⟩
  have hTags : scanLines (offset + 3) (lines c.inner) =
      WrittenLine.tags (offset + 3 + byteWidth (lineEnd c.paired)) c.lines := by
    rw [WrittenComment.inner, scanLines_opening, scanLines_written c.closingBlank]
  have hParse : parse c.text offset = .ok (c.comment offset) := by
    rw [parse, hBody]
    simp only [hTags]
    rfl
  exact ⟨hParse, fun source hStands => parse_placed hStands hParse⟩

end DocComment

/-- A word behind blanks that a test finds to be blank. -/
def WrittenWord.behind (blanks word : List Char) (hNe : blanks ≠ [] ∧ word ≠ [])
    (hBlanks : blanks.all isInlineBlank = true) (hWord : word.all (!isBlank ·) = true) :
    WrittenWord :=
  ⟨blanks, word, hNe.1, List.all_eq_true.mp hBlanks, hNe.2, by simpa using hWord⟩

/-- A line whose content, where it begins with an at sign, goes on with no letter of a name. -/
def ProseLine.ofBody (body : List Char) (hFeed : '\n' ∉ body)
    (h : (DocComment.lineContent body).head? = some '@' →
      (DocComment.lineContent body).tail.head?.all (!DocComment.isTagChar ·) = true) : ProseLine :=
  ⟨body, hFeed, DocComment.untagged_of_lineContent fun c hc hAt => by
    simpa using (Option.all_eq_true _ _).mp (h hAt) c hc⟩

/-- A tag with two words, behind two stars and before a trailing blank. -/
def warnLine : TagLine where
  outer := ['\t']
  stars := 2
  inner := [' ']
  letters := "kphp-warn".toList
  words := [.behind [' ', '\u3000'] "all".toList (by decide) (by decide) (by decide),
    .behind [' '] "!!é".toList (by decide) (by decide) (by decide)]
  trailing := [' ']
  paired := true
  outerBlank := List.all_eq_true.mp (by decide)
  innerBlank := List.all_eq_true.mp (by decide)
  letters_ne_nil := by decide
  areTagChars := List.all_eq_true.mp (by decide)
  trailingBlank := List.all_eq_true.mp (by decide)

/-- A comment in which a line of prose stands before the tag. -/
def warnComment : WrittenComment where
  paired := false
  lines := [.prose (.ofBody " * @ home, or me@work".toList (by decide) (by decide)), .tag warnLine]
  closing := [' ']
  closingBlank := List.all_eq_true.mp (by decide)

/-- The at signs of the prose begin no tag. -/
theorem DocComment.parse_written_prose :
    warnComment.text =
        "/**\n * @ home, or me@work\n\t** @kphp-warn \u3000all !!é \r\n */".toList ∧
      parse warnComment.text 6 = .ok {
        span := .ofBytes 6 64
        tags := [{
          name := "@kphp-warn"
          nameSpan := .ofBytes 36 46
          span := .ofBytes 36 58
          arguments := [{ name := "all", span := .ofBytes 50 53 },
            { name := "!é", negated := true, span := .ofBytes 54 58 }] }] } := by
  refine ⟨by decide +kernel, ?_⟩
  exact (parse_written warnComment 6).1.trans (congrArg Except.ok (by decide +kernel))

end TagLint
