import TagLint.Proofs.ExactPositions
import TagLint.Proofs.SourceOrder

/-!
# Lines on which a tag is reported

Comments and positions have lines of their own. In a comment a line ends with a line feed or a
carriage return, and the name of a tag and its arguments stand between two such ends. Positions also
count the separators of lines and of paragraphs, which are inline blanks to a comment. So the parts of
a tag are reported on one line exactly if no separator stands among them.

* `line_locate`: behind a text without line breaks, the line has grown by its separators.
* `scanTag?_extent`: a tag extends over a text without line breaks, of which its name and its
  arguments are words.
* `exists_scanTag?_of_parseSource`: every tag of a file is the tag of a content that stands in it.
* `parseSource_tagLines`: on which lines the parts of a tag are reported.
-/

namespace TagLint

open Text (byteWidth isBlank)
open DocComment (isLineBreak)

/-! ## Lines behind a text -/

/-- Whether a character separates lines or paragraphs without being a line break of comments. -/
def isSeparator (c : Char) : Bool :=
  c == '\u2028' || c == '\u2029'

theorem isBlank_of_isSeparator {c : Char} (h : isSeparator c = true) : isBlank c = true := by
  simp only [isSeparator, Bool.or_eq_true, beq_iff_eq] at h
  rcases h with rfl | rfl <;> rfl

theorem countP_isSeparator_word {word : List Char} (h : ∀ c ∈ word, isBlank c = false) :
    word.countP isSeparator = 0 := by
  rw [List.countP_eq_zero]
  intro c hc hSeparator
  have hBlank := h c hc
  rw [isBlank_of_isSeparator hSeparator] at hBlank
  cases hBlank

theorem countP_isSeparator_eq_zero_iff {text : List Char} :
    text.countP isSeparator = 0 ↔ '\u2028' ∉ text ∧ '\u2029' ∉ text := by
  simp only [List.countP_eq_zero, isSeparator, Bool.or_eq_true, beq_iff_eq, not_or]
  constructor
  · intro h
    exact ⟨fun hMem => (h _ hMem).1 rfl, fun hMem => (h _ hMem).2 rfl⟩
  · rintro ⟨hLine, hParagraph⟩ c hc
    exact ⟨fun hEq => hLine (hEq ▸ hc), fun hEq => hParagraph (hEq ▸ hc)⟩

theorem endsLine_eq_isSeparator {c : Char} (h : isLineBreak c = false) (next : Option Char) :
    Position.endsLine c next = isSeparator c := by
  simp only [isLineBreak, Bool.or_eq_false_iff] at h
  simp [Position.endsLine, isSeparator, h]

theorem Position.walk_append (p : Position) (as bs after : List Char) :
    p.walk (as ++ bs) after = (p.walk as (bs ++ after)).walk bs after := by
  induction as generalizing p with
  | nil => rfl
  | cons c as ih => rw [List.cons_append, walk, walk, ih, List.append_assoc]

theorem Position.line_walk (p : Position) {cs : List Char} (h : ∀ c ∈ cs, isLineBreak c = false)
    (after : List Char) : (p.walk cs after).line = p.line + cs.countP isSeparator := by
  induction cs generalizing p with
  | nil => rfl
  | cons c cs ih =>
    obtain ⟨hc, hcs⟩ := List.forall_mem_cons.mp h
    rw [walk, ih _ hcs, line_advance, endsLine_eq_isSeparator hc, List.countP_cons]
    omega

theorem line_locate {source before rest : List Char} {offset : Nat}
    (h : StandsAt source (before ++ rest) offset) (hInline : ∀ c ∈ before, isLineBreak c = false) :
    (locate source (offset + byteWidth before)).line =
      (locate source offset).line + before.countP isSeparator := by
  obtain ⟨front, after, rfl, rfl⟩ := h
  have hStart := locate_append front (before ++ (rest ++ after))
  have hStop := locate_append (front ++ before) (rest ++ after)
  rw [Position.walk_append, ← hStart] at hStop
  rw [Text.byteWidth_append] at hStop
  simp only [List.append_assoc] at hStop ⊢
  rw [hStop, Position.line_walk _ hInline]

/-! ## The text of a tag -/

/-- The span delimits a word of a text that begins at an offset. -/
def Span.IsWord (offset : Nat) (text word : List Char) (s : Span) : Prop :=
  (∀ c ∈ word, isBlank c = false) ∧ ∃ before after, text = before ++ (word ++ after) ∧
    s = .ofBytes (offset + byteWidth before) (offset + byteWidth before + byteWidth word)

theorem Span.IsWord.append_left {offset : Nat} {text word : List Char} {s : Span} (front : List Char)
    (h : s.IsWord (offset + byteWidth front) text word) : s.IsWord offset (front ++ text) word := by
  obtain ⟨hWord, before, after, rfl, rfl⟩ := h
  exact ⟨hWord, front ++ before, after, by simp, by simp [Nat.add_assoc]⟩

/-- The tag extends over a text that begins at an offset. No line break stands in it, and the name and
the arguments are words of it. -/
structure DocTag.Extends (offset : Nat) (text : List Char) (t : DocTag) : Prop where
  inline : ∀ c ∈ text, isLineBreak c = false
  span_eq : t.span = .ofBytes offset (offset + byteWidth text)
  name_isWord : t.nameSpan.IsWord offset text t.name.toList
  nameStart_eq : t.nameSpan.start = t.span.start
  arguments_isWord : ∀ a ∈ t.arguments, a.span.IsWord offset text a.word

namespace DocComment

/-- The arguments of a line extend over its beginning, up to the end of the last of them. -/
theorem scanArguments_extent (offset : Nat) (cs : List Char) :
    ∃ taken rest, cs = taken ++ rest ∧ (∀ c ∈ taken, isLineBreak c = false) ∧
      ((scanArguments offset cs).getLast?.map (·.span.stop.utf8)).getD offset =
        offset + byteWidth taken ∧
      ∀ a ∈ scanArguments offset cs, a.span.IsWord offset taken a.word := by
  induction lineWords cs generalizing offset with
  | @ending blanks tail hBlanks hTail =>
    rw [scanArguments_ending hBlanks hTail]
    exact ⟨[], blanks ++ tail, rfl, by simp, rfl, by simp⟩
  | @word blanks word rest hBlanks hNe hWord _ ih =>
    obtain ⟨taken, tail, rfl, hTaken, hStop, hArguments⟩ :=
      ih (offset + byteWidth blanks + byteWidth word)
    have hLetters : ∀ c ∈ word, isBlank c = false := fun c hc => by simpa using hWord.all c hc
    rw [scanArguments_word hBlanks hNe hWord]
    refine ⟨blanks ++ (word ++ taken), tail, by simp, ?_, ?_, ?_⟩
    · intro c hc
      simp only [List.mem_append] at hc
      rcases hc with hc | hc | hc
      · exact not_isLineBreak_of_isInlineBlank (hBlanks c hc)
      · exact not_isLineBreak_of_not_isBlank (hLetters c hc)
      · exact hTaken c hc
    · have hWidth : offset + byteWidth (blanks ++ (word ++ taken)) =
          offset + byteWidth blanks + byteWidth word + byteWidth taken := by
        simp [Nat.add_assoc]
      rw [List.getLast?_cons, hWidth, ← hStop]
      cases (scanArguments (offset + byteWidth blanks + byteWidth word) (taken ++ tail)).getLast? with
      | none => simp [Span.ofBytes, Position.ofByte]
      | some a => rfl
    · intro a ha
      rcases List.mem_cons.mp ha with rfl | ha
      · rw [Argument.span_ofWord, Argument.word_ofWord]
        exact ⟨hLetters, blanks, taken, rfl, rfl⟩
      · exact ((hArguments a ha).append_left word).append_left blanks

theorem scanTag?_extent {offset : Nat} {content : List Char} {t : DocTag}
    (h : scanTag? offset content = some t) :
    ∃ text rest, content = text ++ rest ∧ t.Extends offset text := by
  rcases content_cases content with
    ⟨letters, rest, rfl, hNe, hLetters⟩ | ⟨rest, rfl, hNone⟩ | hSign
  · rw [scanTag?_letters hNe hLetters] at h
    obtain rfl := Option.some.inj h
    obtain ⟨taken, tail, rfl, hTaken, hStop, hArguments⟩ :=
      scanArguments_extent (offset + byteWidth ('@' :: letters)) rest
    have hName : ∀ c ∈ '@' :: letters, isBlank c = false := by
      intro c hc
      cases hBlank : isBlank c with
      | false => rfl
      | true =>
        rcases List.mem_cons.mp hc with rfl | hc
        · cases hBlank
        · have hLetter := hLetters.all c hc
          rw [not_isTagChar_of_isBlank hBlank] at hLetter
          cases hLetter
    refine ⟨'@' :: letters ++ taken, tail, by simp, ?_, ?_, ?_, rfl, ?_⟩
    · intro c hc
      rcases List.mem_append.mp hc with hc | hc
      · exact not_isLineBreak_of_not_isBlank (hName c hc)
      · exact hTaken c hc
    · rw [Text.byteWidth_append, ← Nat.add_assoc, ← hStop]
      rfl
    · refine ⟨by simpa [tagAt] using hName, [], taken, ?_, ?_⟩
      · simp [tagAt]
      · simp [tagAt]
    · intro a ha
      exact (hArguments a ha).append_left ('@' :: letters)
  · rw [scanTag?_no_letters hNone] at h
    cases h
  · rw [scanTag?_no_sign hSign] at h
    cases h

end DocComment

/-! ## Tags of a file -/

/-- Every tag of a file is the tag of a content that stands in it, with full positions. -/
theorem Php.exists_scanTag?_of_parseSource {source : List Char} {owner : Declaration}
    {comment : DocComment} (h : .commented owner comment ∈ parseSource source) {tag : DocTag}
    (hTag : tag ∈ comment.tags) :
    ∃ start content t, StandsAt source content start ∧
      DocComment.scanTag? start content = some t ∧
      tag = t.mapPositions fun p => locate source p.utf8 := by
  obtain ⟨raw, hRaw, ⟨comment, hParse, hItem⟩ | hItem⟩ := parseSource_cases h
  · cases hItem
    obtain ⟨t, ht, rfl⟩ := List.mem_map.mp hTag
    obtain ⟨start, content, hStands, hScan⟩ :=
      DocComment.exists_scanTag?_of_parse (docComments_standsAt hRaw).1 hParse ht
    exact ⟨start, content, t, hStands, hScan, rfl⟩
  · cases hItem

/-- A word of a text without line breaks begins so many lines below the text as there are separators
between, and ends on the line where it begins. -/
theorem Span.IsWord.lines {source text word : List Char} {offset : Nat} {s : Span}
    (h : s.IsWord offset text word) (hStands : StandsAt source text offset)
    (hInline : ∀ c ∈ text, isLineBreak c = false) :
    ∃ before after, text = before ++ (word ++ after) ∧
      (locate source s.start.utf8).utf8 = offset + byteWidth before ∧
      (locate source s.start.utf8).line =
        (locate source offset).line + before.countP isSeparator ∧
      (locate source s.stop.utf8).line = (locate source s.start.utf8).line := by
  obtain ⟨hWord, before, after, rfl, rfl⟩ := h
  have hBefore : ∀ c ∈ before, isLineBreak c = false :=
    fun c hc => hInline c (List.mem_append_left _ hc)
  have hLetters : ∀ c ∈ word, isLineBreak c = false :=
    fun c hc => DocComment.not_isLineBreak_of_not_isBlank (hWord c hc)
  refine ⟨before, after, rfl, utf8_locate hStands.right.isBoundary_start, line_locate hStands hBefore,
    ?_⟩
  have hStop := line_locate hStands.right hLetters
  rw [countP_isSeparator_word hWord, Nat.add_zero] at hStop
  exact hStop

/-- The lines on which the parts of a tag are reported, told by the text that the tag extends over: the
name where the tag begins, and an argument so many lines below as there are separators before it. Each
of them ends on the line where it begins. -/
structure DocTag.Reported (text : List Char) (t : DocTag) : Prop where
  nameStart_eq : t.nameSpan.start = t.span.start
  nameStop_line : t.nameSpan.stop.line = t.span.start.line
  argumentStart_line : ∀ a ∈ t.arguments, ∃ before after, text = before ++ (a.word ++ after) ∧
    a.span.start.utf8 = t.span.start.utf8 + byteWidth before ∧
    a.span.start.line = t.span.start.line + before.countP isSeparator
  argumentStop_line : ∀ a ∈ t.arguments, a.span.stop.line = a.span.start.line
  stop_line : t.span.stop.line = t.span.start.line + text.countP isSeparator

theorem DocTag.Extends.reported {source text : List Char} {offset : Nat} {t : DocTag}
    (h : t.Extends offset text) (hStands : StandsAt source text offset) :
    (t.mapPositions fun p => locate source p.utf8).Reported text := by
  have hStart : (t.span.map fun p => locate source p.utf8).start = locate source offset := by
    rw [h.span_eq]
    rfl
  have hNameStart : (t.nameSpan.map fun p => locate source p.utf8).start = locate source offset := by
    rw [Span.map_start, h.nameStart_eq]
    exact hStart
  refine ⟨hNameStart.trans hStart.symm, ?_, ?_, ?_, ?_⟩
  · obtain ⟨before, after, -, -, -, hSame⟩ := h.name_isWord.lines hStands h.inline
    exact hSame.trans (congrArg Position.line (hNameStart.trans hStart.symm))
  · intro a' ha'
    obtain ⟨a, ha, rfl⟩ := List.mem_map.mp ha'
    obtain ⟨before, after, hSplit, hOffset, hLine, -⟩ := (h.arguments_isWord a ha).lines hStands h.inline
    refine ⟨before, after, hSplit, hOffset.trans ?_, hLine.trans ?_⟩
    · exact congrArg (· + byteWidth before)
        ((congrArg Position.utf8 hStart).trans (utf8_locate hStands.isBoundary_start)).symm
    · exact congrArg (· + before.countP isSeparator) (congrArg Position.line hStart).symm
  · intro a' ha'
    obtain ⟨a, ha, rfl⟩ := List.mem_map.mp ha'
    obtain ⟨before, after, -, -, -, hSame⟩ := (h.arguments_isWord a ha).lines hStands h.inline
    exact hSame
  · have hStop : (t.span.map fun p => locate source p.utf8).stop =
        locate source (offset + byteWidth text) := by
      rw [h.span_eq]
      rfl
    have hLine := line_locate (by rwa [List.append_nil]) h.inline
    exact (congrArg Position.line hStop).trans
      (hLine.trans (congrArg (· + text.countP isSeparator) (congrArg Position.line hStart).symm))

/-- All ends of the spans of a tag are on the line where the tag begins. -/
def DocTag.OnOneLine (t : DocTag) : Prop :=
  ∀ s ∈ t.spans, s.start.line = t.span.start.line ∧ s.stop.line = t.span.start.line

theorem DocTag.Reported.onOneLine_iff {text : List Char} {t : DocTag} (h : t.Reported text) :
    t.OnOneLine ↔ '\u2028' ∉ text ∧ '\u2029' ∉ text := by
  rw [← countP_isSeparator_eq_zero_iff]
  constructor
  · intro hOne
    have hStop := (hOne t.span (by simp [DocTag.spans])).2
    rw [h.stop_line] at hStop
    omega
  · intro hNone s hs
    simp only [DocTag.spans, List.mem_cons, List.mem_map] at hs
    rcases hs with rfl | rfl | ⟨a, ha, rfl⟩
    · exact ⟨congrArg Position.line h.nameStart_eq, h.nameStop_line⟩
    · exact ⟨rfl, by rw [h.stop_line, hNone, Nat.add_zero]⟩
    · obtain ⟨before, after, rfl, -, hLine⟩ := h.argumentStart_line a ha
      rw [List.countP_append] at hNone
      have hStart : a.span.start.line = t.span.start.line := by omega
      exact ⟨hStart, (h.argumentStop_line a ha).trans hStart⟩

/-- **Lines of a tag.** A tag extends over a text without line breaks. Its name is reported on the line
where it begins, and its arguments so many lines below as there are separators before them. So all
parts of a tag are reported on one line exactly if no separator stands in its text. -/
theorem parseSource_tagLines {source : List Char} {owner : Declaration} {comment : DocComment}
    (h : .commented owner comment ∈ Php.parseSource source) {tag : DocTag}
    (hTag : tag ∈ comment.tags) :
    ∃ text, tag.span.text? source = some text ∧ '\n' ∉ text ∧ '\r' ∉ text ∧ tag.Reported text ∧
      (tag.OnOneLine ↔ '\u2028' ∉ text ∧ '\u2029' ∉ text) := by
  obtain ⟨start, content, t, hStands, hScan, rfl⟩ := Php.exists_scanTag?_of_parseSource h hTag
  obtain ⟨text, rest, rfl, hExtent⟩ := DocComment.scanTag?_extent hScan
  have hReported := hExtent.reported hStands.left
  have hCovers : t.span.Covers source text := by
    rw [hExtent.span_eq]
    exact Span.covers_ofBytes hStands.left
  refine ⟨text, (hCovers.map (keepsBoundaries_locate source)).text?_eq, ?_, ?_, hReported,
    hReported.onOneLine_iff⟩
  · intro hMem
    exact absurd (hExtent.inline _ hMem) (by decide)
  · intro hMem
    exact absurd (hExtent.inline _ hMem) (by decide)

/-- A next line character and a form feed set arguments apart and are no separators. -/
theorem parseSource_tagLines_nextLine :
    let source := "<?php\n/** @x a\u0085!b\x0cc */ fn".toList
    ∃ owner comment tag, .commented owner comment ∈ Php.parseSource source ∧ tag ∈ comment.tags ∧
      tag.arguments.map (·.name) = ["a", "b", "c"] ∧ tag.span.start.line = 1 ∧ tag.OnOneLine := by
  intro source
  let owner : Declaration := { kind := .function, span := ⟨⟨24, 23, 1, 17⟩, ⟨26, 25, 1, 19⟩⟩ }
  let tag : DocTag :=
    { name := "@x"
      nameSpan := ⟨⟨10, 10, 1, 4⟩, ⟨12, 12, 1, 6⟩⟩
      span := ⟨⟨10, 10, 1, 4⟩, ⟨20, 19, 1, 13⟩⟩
      arguments := [{ name := "a", span := ⟨⟨13, 13, 1, 7⟩, ⟨14, 14, 1, 8⟩⟩ },
        { name := "b", negated := true, span := ⟨⟨16, 15, 1, 9⟩, ⟨18, 17, 1, 11⟩⟩ },
        { name := "c", span := ⟨⟨19, 18, 1, 12⟩, ⟨20, 19, 1, 13⟩⟩ }] }
  let comment : DocComment := { span := ⟨⟨6, 6, 1, 0⟩, ⟨23, 22, 1, 16⟩⟩, tags := [tag] }
  have hItem : .commented owner comment ∈ Php.parseSource source := by
    rw [Php.parseSource, complete_eq_map]
    decide +kernel
  have hTag : tag ∈ comment.tags := List.mem_singleton.mpr rfl
  obtain ⟨text, hText, -, -, -, hOne⟩ := parseSource_tagLines hItem hTag
  have hFound : tag.span.text? source = some "@x a\u0085!b\x0cc".toList := by decide +kernel
  obtain rfl := Option.some.inj (hFound.symm.trans hText)
  exact ⟨owner, comment, tag, hItem, hTag, rfl, rfl, hOne.mpr (by decide +kernel)⟩

/-- A line separator sets an argument apart from the name of its tag, and the argument is reported on
the next line. -/
theorem parseSource_tagOnTwoLines :
    ∃ owner comment tag,
      .commented owner comment ∈ Php.parseSource "<?php /** @x\u2028a */ function f();".toList ∧
      tag ∈ comment.tags ∧ tag.nameSpan.start.line = 0 ∧
      tag.arguments.map (fun a => (a.name, a.span.start.line)) = [("a", 1)] ∧ ¬ tag.OnOneLine := by
  let tag : DocTag :=
    { name := "@x"
      nameSpan := ⟨⟨10, 10, 0, 10⟩, ⟨12, 12, 0, 12⟩⟩
      span := ⟨⟨10, 10, 0, 10⟩, ⟨16, 14, 1, 1⟩⟩
      arguments := [{ name := "a", span := ⟨⟨15, 13, 1, 0⟩, ⟨16, 14, 1, 1⟩⟩ }] }
  refine ⟨{ kind := .function, name := "f", span := ⟨⟨20, 18, 1, 5⟩, ⟨30, 28, 1, 15⟩⟩ },
    { span := ⟨⟨6, 6, 0, 6⟩, ⟨19, 17, 1, 4⟩⟩, tags := [tag] }, tag, ?_, List.mem_singleton.mpr rfl,
    rfl, rfl, ?_⟩
  · rw [Php.parseSource, complete_eq_map]
    decide +kernel
  · intro hOne
    have hStop := (hOne tag.span (by simp [DocTag.spans])).2
    cases hStop

end TagLint
