import TagLint.Proofs.CarriageReturns
import TagLint.Proofs.CommentLayout
import TagLint.Proofs.MovedFindings

/-!
# Arguments are the words of a line

A text can be read as arguments in two ways. `Argument.ofText` takes the words of a text, which any
blanks set apart. A comment is read by a loop that passes over the inline blanks of a line, takes a
word and stops at a line break. Written behind the name of a tag, a text gives the same arguments in
both ways, as far as its first line goes, and so the same findings.

* `words_append_blank`: the words of a text on both sides of a blank are its words.
* `scanArguments_eq_ofText`: the loop reads the words before the first line break.
* `exists_firstTag`: the first tag of a comment is on its first line.
* `parse_firstTag`: the arguments of that tag are those of the text.
-/

namespace TagLint

open Text (byteWidth isBlank isInlineBlank words Run exists_run)

/-! ## Words of a text -/

namespace Text

theorem words_nil : words [] = [] := by
  rw [words]
  rfl

theorem words_cons_blank {c : Char} (hc : isBlank c = true) (cs : List Char) :
    words (c :: cs) = words cs := by
  rw [words, words, List.dropWhile_cons_of_pos hc]

theorem words_blanks_append {blanks : List Char} (h : ∀ c ∈ blanks, isBlank c = true)
    (cs : List Char) : words (blanks ++ cs) = words cs := by
  induction blanks with
  | nil => rfl
  | cons c blanks ih =>
    obtain ⟨hc, hBlanks⟩ := List.forall_mem_cons.mp h
    rw [List.cons_append, words_cons_blank hc, ih hBlanks]

theorem words_run {word rest : List Char} (hNe : word ≠ []) (hWord : Run (!isBlank ·) word rest) :
    words (word ++ rest) = word :: words rest := by
  obtain ⟨c, word, rfl⟩ := List.exists_cons_of_ne_nil hNe
  have hc : isBlank c = false := by simpa using hWord.all c List.mem_cons_self
  have hTail : Run (!isBlank ·) word rest :=
    ⟨fun d hd => hWord.all d (List.mem_cons_of_mem _ hd), hWord.stops⟩
  rw [words, List.cons_append, List.dropWhile_cons_of_neg (by simp [hc])]
  simp only [hTail.takeWhile_eq, hTail.dropWhile_eq]

/-- A text is blanks alone, or blanks before a word that a shorter text follows. -/
theorem blanks_or_word (cs : List Char) :
    (∀ c ∈ cs, isBlank c = true) ∨
      ∃ blanks word rest, cs = blanks ++ (word ++ rest) ∧ (∀ c ∈ blanks, isBlank c = true) ∧
        word ≠ [] ∧ Run (!isBlank ·) word rest := by
  obtain ⟨blanks, tail, rfl, hBlanks⟩ := exists_run isBlank cs
  cases tail with
  | nil =>
    left
    simpa using hBlanks.all
  | cons c tail =>
    obtain ⟨word, rest, hTail, hWord⟩ := exists_run (!isBlank ·) (c :: tail)
    refine .inr ⟨blanks, word, rest, by rw [hTail], hBlanks.all, ?_, hWord⟩
    rintro rfl
    have hBlank := hBlanks.stops c rfl
    have hStop := hWord.stops c (by rw [← List.nil_append rest, ← hTail]; rfl)
    simp [hBlank] at hStop

/-- A blank sets the words on both sides of it apart. -/
theorem words_append_blank {c : Char} (hc : isBlank c = true) (xs ys : List Char) :
    words (xs ++ c :: ys) = words xs ++ words ys := by
  rcases blanks_or_word xs with hBlanks | ⟨blanks, word, rest, hSplit, hBlanks, hNe, hWord⟩
  · rw [words_blanks_append hBlanks, words_cons_blank hc,
      ← List.append_nil xs, words_blanks_append hBlanks, words_nil, List.nil_append]
  · have hLonger : Run (!isBlank ·) word (rest ++ c :: ys) := by
      cases rest with
      | nil => exact ⟨hWord.all, by simpa using hc⟩
      | cons d rest => exact hWord.of_head?_eq rfl
    rw [hSplit, List.append_assoc, List.append_assoc, words_blanks_append hBlanks,
      words_blanks_append hBlanks, words_run hNe hLonger, words_run hNe hWord,
      words_append_blank hc rest ys, List.cons_append]
termination_by xs.length
decreasing_by
  have hPos := List.length_pos_iff.mpr hNe
  simp only [hSplit, List.length_append]
  omega

end Text

/-! ## Arguments of a line -/

namespace DocComment

/-- The characters before the first line break. -/
def firstLine (cs : List Char) : List Char :=
  cs.takeWhile (!isLineBreak ·)

theorem firstLine_append {as : List Char} (h : ∀ c ∈ as, isLineBreak c = false) (bs : List Char) :
    firstLine (as ++ bs) = as ++ firstLine bs :=
  List.takeWhile_append_of_pos fun c hc => by simp [h c hc]

theorem firstLine_of_break {cs : List Char} (h : ∀ c ∈ cs.head?, isLineBreak c = true) :
    firstLine cs = [] :=
  Text.takeWhile_eq_nil_of_stops fun c hc => by simp [h c hc]

theorem firstLine_append_break {c : Char} (hc : isLineBreak c = true) (as bs : List Char) :
    firstLine (as ++ c :: bs) = firstLine as := by
  obtain ⟨line, rest, rfl, hLine⟩ := exists_run (!isLineBreak ·) as
  have hInline : ∀ d ∈ line, isLineBreak d = false := fun d hd => by simpa using hLine.all d hd
  rw [List.append_assoc, firstLine_append hInline, firstLine_append hInline]
  cases rest with
  | nil => rw [List.nil_append, firstLine_of_break (by simpa using hc), firstLine_of_break (by simp)]
  | cons d rest =>
    have hBreak : isLineBreak d = true := by simpa using hLine.stops d rfl
    rw [firstLine_of_break (by simpa using hBreak), firstLine_of_break (by simpa using hBreak)]

/-- Apart from their places, the arguments that the loop reads are those of the words before the first
line break. -/
theorem scanArguments_eq_ofText (offset : Nat) (cs : List Char) :
    (scanArguments offset cs).map (·.mapPositions .forget) = Argument.ofText (firstLine cs) := by
  induction lineWords cs generalizing offset with
  | @ending blanks tail hBlanks hTail =>
    have hInline : ∀ c ∈ blanks, isLineBreak c = false :=
      fun c hc => not_isLineBreak_of_isInlineBlank (hBlanks c hc)
    rw [scanArguments_ending hBlanks hTail, firstLine_append hInline, firstLine_of_break hTail,
      Argument.ofText, Text.words_blanks_append fun c hc => Text.isBlank_of_isInlineBlank (hBlanks c hc),
      Text.words_nil]
    rfl
  | @word blanks word rest hBlanks hNe hWord _ ih =>
    have hInline : ∀ c ∈ blanks, isLineBreak c = false :=
      fun c hc => not_isLineBreak_of_isInlineBlank (hBlanks c hc)
    -- a line break ends the word as well, so the word ends where its line does
    have hCut : Run (!isBlank ·) word (firstLine rest) := by
      refine ⟨hWord.all, fun c hc => hWord.stops c ?_⟩
      cases rest with
      | nil => exact hc
      | cons d rest =>
        by_cases hBreak : isLineBreak d = true
        · simp [firstLine, hBreak] at hc
        · simpa [firstLine, hBreak] using hc
    have hLetters : ∀ c ∈ word, isLineBreak c = false :=
      fun c hc => not_isLineBreak_of_not_isBlank (by simpa using hWord.all c hc)
    have hWords : words (firstLine (blanks ++ (word ++ rest))) = word :: words (firstLine rest) := by
      rw [firstLine_append hInline, firstLine_append hLetters,
        Text.words_blanks_append fun c hc => Text.isBlank_of_isInlineBlank (hBlanks c hc),
        Text.words_run hNe hCut]
    rw [scanArguments_word hBlanks hNe hWord, List.map_cons, ih, Argument.mapPositions_ofWord]
    simp only [Argument.ofText, hWords, List.map_cons]
    rfl

/-- A blank at the end sets no words apart. -/
theorem words_firstLine_concat {blank : Char} (h : isInlineBlank blank = true) (cs : List Char) :
    words (firstLine (cs ++ [blank])) = words (firstLine cs) := by
  by_cases hInline : ∀ c ∈ cs, isLineBreak c = false
  · have hBlank : firstLine [blank] = [blank] := by
      simp [firstLine, not_isLineBreak_of_isInlineBlank h]
    have hAll : firstLine cs = cs := by
      simpa [firstLine] using firstLine_append hInline []
    rw [firstLine_append hInline, hBlank, hAll,
      Text.words_append_blank (Text.isBlank_of_isInlineBlank h), Text.words_nil, List.append_nil]
  · simp only [not_forall, Bool.not_eq_false] at hInline
    obtain ⟨c, hMem, hBreak⟩ := hInline
    obtain ⟨before, after, rfl⟩ := List.append_of_mem hMem
    rw [List.append_assoc, List.cons_append, firstLine_append_break hBreak,
      firstLine_append_break hBreak]

/-! ## The first tag of a comment -/

/-- The first line of a body that holds a text behind a front without line feeds. Up to its first line
break, it has the words of the text. -/
theorem exists_lines {front : List Char} (hFront : '\n' ∉ front) (text : List Char) :
    ∃ tail more, lines (front ++ ' ' :: (text ++ [' '])) = (front ++ ' ' :: tail) :: more ∧
      words (firstLine tail) = words (firstLine text) := by
  rcases Php.feed_cases text with hNone | ⟨first, more, rfl, hFirst⟩
  · refine ⟨text ++ [' '], [], lines_last (by simp) ?_, words_firstLine_concat rfl text⟩
    simp [hFront, hNone]
  · have hFeed : '\n' ∉ front ++ ' ' :: first := by simp [hFront, hFirst]
    have hLines := lines_feed hFeed (more ++ [' '])
    refine ⟨first ++ ['\n'], lines (more ++ [' ']), by simpa using hLines, ?_⟩
    rw [firstLine_append_break rfl, firstLine_append_break rfl]

/-- A comment that holds a text behind the name of a tag. -/
def taggedComment (letters text : List Char) : List Char :=
  ['/', '*', '*', ' ', '@'] ++ letters ++ [' '] ++ text ++ [' ', '*', '/']

/-- The blank before the closing delimiter keeps the stars of the text. -/
theorem body?_taggedComment (letters text : List Char) :
    body? (taggedComment letters text) =
      some ([' ', '@'] ++ letters ++ ' ' :: (text ++ [' '])) := by
  have hSplit : [' ', '@'] ++ letters ++ ' ' :: (text ++ [' ']) =
      ([' ', '@'] ++ letters ++ ' ' :: text) ++ [' '] := by
    simp
  refine body?_eq_some_iff.mpr ⟨?_, 0, by simp [taggedComment]⟩
  rw [hSplit, List.getLast?_concat]
  rintro c ⟨⟩
  decide

theorem scanLine?_tagged {letters : List Char} (hNe : letters ≠ [])
    (hLetters : ∀ c ∈ letters, isTagChar c = true) (tail : List Char) (offset : Nat) :
    scanLine? offset ([' ', '@'] ++ letters ++ ' ' :: tail) =
      some (tagAt (offset + byteWidth [' ']) letters (' ' :: tail)) := by
  have hRun : Run isTagChar letters (' ' :: tail) := by
    refine ⟨hLetters, ?_⟩
    rintro c ⟨⟩
    exact not_isTagChar_of_isBlank rfl
  have hBlank : ∀ c ∈ [' '], isInlineBlank c = true := List.forall_mem_singleton.mpr rfl
  have hSign : ∀ c ∈ ('@' :: (letters ++ ' ' :: tail)).head?, isInlineBlank c = false ∧ c ≠ '*' := by
    rintro c ⟨⟩
    decide
  obtain ⟨hMargin, hContent⟩ := lineMargin_written 0 hBlank (List.forall_mem_nil _) hSign
  have hSplit : [' ', '@'] ++ letters ++ ' ' :: tail =
      [' '] ++ List.replicate 0 '*' ++ [] ++ '@' :: (letters ++ ' ' :: tail) := by
    simp
  rw [scanLine?, hSplit, hMargin, hContent, scanTag?_letters hNe hRun]
  rfl

/-- The first tag of the comment has the letters in its name, and the arguments are those of the words
behind it. -/
theorem exists_firstTag {letters : List Char} (hNe : letters ≠ [])
    (hLetters : ∀ c ∈ letters, isTagChar c = true) (text : List Char) (offset : Nat) :
    ∃ comment tag, parse (taggedComment letters text) offset = .ok comment ∧
      comment.tags.head? = some tag ∧ tag.name = String.ofList ('@' :: letters) ∧
      tag.arguments.map (·.mapPositions .forget) = Argument.ofText (firstLine text) := by
  have hFront : '\n' ∉ [' ', '@'] ++ letters := by
    simp only [List.mem_append, not_or]
    exact ⟨by decide, fun hMem => absurd (hLetters _ hMem) (by decide)⟩
  obtain ⟨tail, more, hLines, hWords⟩ := exists_lines hFront text
  have hParse : parse (taggedComment letters text) offset = .ok
      ⟨.ofBytes offset (offset + byteWidth (taggedComment letters text)),
        scanLines (offset + 3) (([' ', '@'] ++ letters ++ ' ' :: tail) :: more)⟩ := by
    rw [parse, body?_taggedComment, ← hLines]
  refine ⟨_, tagAt (offset + 3 + byteWidth [' ']) letters (' ' :: tail), hParse, ?_, rfl, ?_⟩
  · rw [scanLines, scanLine?_tagged hNe hLetters]
    rfl
  · have hArguments := scanArguments_eq_ofText
      (offset + 3 + byteWidth [' '] + byteWidth ('@' :: letters)) (' ' :: tail)
    have hBlank : words (firstLine (' ' :: tail)) = words (firstLine tail) :=
      Text.words_cons_blank rfl (firstLine tail)
    rw [Argument.ofText, hBlank, hWords] at hArguments
    exact hArguments

end DocComment

/-! ## Findings -/

/-- What a finding says, wherever it stands: its kind and severity, its message and the message of its
fix. -/
def Diagnostic.wording (d : Diagnostic) : DiagnosticKind × Severity × String × Option String :=
  (d.kind, d.severity, d.message, d.fix.map (·.message))

theorem Diagnostic.wording_mapPositions (g : Position → Position) (d : Diagnostic) :
    (d.mapPositions g).wording = d.wording := by
  obtain ⟨kind, severity, message, span, fix⟩ := d
  cases fix with
  | none => rfl
  | some fix => rfl

/-- What is found about arguments does not depend on where they stand. -/
theorem wording_validate {arguments arguments' : List Argument}
    (h : arguments.map (·.mapPositions .forget) = arguments'.map (·.mapPositions .forget))
    (kind : TagKind) (tagSpan tagSpan' : Span) :
    (validate kind arguments tagSpan).map (·.wording) =
      (validate kind arguments' tagSpan').map (·.wording) := by
  have hWording : ∀ (arguments : List Argument) (tagSpan : Span),
      (validate kind arguments tagSpan).map (·.wording) =
        (validate kind (arguments.map (·.mapPositions .forget)) {}).map (·.wording) := by
    intro arguments tagSpan
    rw [show ({} : Span) = tagSpan.map .forget from rfl, validate_map, List.map_map]
    exact List.map_congr_left fun d _ => (d.wording_mapPositions _).symm
  rw [hWording, h, ← hWording]

/-- **Arguments are the words of a line.** A text behind the name of a tag, in a comment of its own, is
read as arguments by their names and negations just as its words before the first line break are. So
all that is found about them, however the tag is placed, reads the same. -/
theorem parse_firstTag {letters : List Char} (hNe : letters ≠ [])
    (hLetters : ∀ c ∈ letters, DocComment.isTagChar c = true) (text : List Char) (offset : Nat) :
    ∃ comment tag, DocComment.parse (DocComment.taggedComment letters text) offset = .ok comment ∧
      comment.tags.head? = some tag ∧ tag.name = String.ofList ('@' :: letters) ∧
      tag.arguments.map (fun a => (a.name, a.negated)) =
        (Argument.ofText (DocComment.firstLine text)).map (fun a => (a.name, a.negated)) ∧
      ∀ kind tagSpan, (validate kind tag.arguments tag.span).map (·.wording) =
        (validate kind (Argument.ofText (DocComment.firstLine text)) tagSpan).map (·.wording) := by
  obtain ⟨comment, tag, hParse, hHead, hName, hArguments⟩ :=
    DocComment.exists_firstTag hNe hLetters text offset
  have hForget : ∀ arguments : List Argument,
      (arguments.map (·.mapPositions .forget)).map (fun a => (a.name, a.negated)) =
        arguments.map fun a => (a.name, a.negated) := by
    intro arguments
    rw [List.map_map]
    rfl
  have hAgain : (Argument.ofText (DocComment.firstLine text)).map (·.mapPositions .forget) =
      Argument.ofText (DocComment.firstLine text) := by
    rw [← hArguments, List.map_map]
    rfl
  refine ⟨comment, tag, hParse, hHead, hName, ?_, ?_⟩
  · rw [← hForget, hArguments]
  · intro kind tagSpan
    exact wording_validate (hArguments.trans hAgain.symm) kind tag.span tagSpan

/-- A line separator sets two words apart, a carriage return ends the arguments, and the delimiter of
comments belongs to a word. -/
theorem parse_firstTag_separated :
    let letters := "kphp-warn-performance".toList
    let text := "!all\u2028*x*/\rall\n@all".toList
    letters ≠ [] ∧ (∀ c ∈ letters, DocComment.isTagChar c = true) ∧
    ∃ comment tag, DocComment.parse (DocComment.taggedComment letters text) 7 = .ok comment ∧
      comment.tags.head? = some tag ∧ tag.name = "@kphp-warn-performance" ∧
      tag.arguments.map (fun a => (a.name, a.negated)) = [("all", true), ("*x*/", false)] ∧
      (validate .warnPerformance tag.arguments tag.span).map (·.wording) =
        [(.negatedWildcard, .error, "'all' can't be negated", none),
          (.unknownItem, .warning, "unknown item `*x*/`", some "remove unknown *x*/")] := by
  intro letters text
  have hNe : letters ≠ [] := by decide
  have hLetters : ∀ c ∈ letters, DocComment.isTagChar c = true := List.all_eq_true.mp (by decide)
  have hWords : Argument.ofText (DocComment.firstLine text) =
      [{ name := "all", negated := true }, { name := "*x*/" }] := by
    decide +kernel
  obtain ⟨comment, tag, hParse, hHead, hName, hArguments, hFindings⟩ :=
    parse_firstTag hNe hLetters text 7
  rw [hWords] at hArguments
  have hFindings := hFindings .warnPerformance {}
  rw [hWords] at hFindings
  refine ⟨hNe, hLetters, comment, tag, hParse, hHead, hName, hArguments, hFindings.trans ?_⟩
  decide +kernel

end TagLint
