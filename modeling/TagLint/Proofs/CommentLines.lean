import TagLint.DocComment
import TagLint.Proofs.Places
import TagLint.Proofs.Runs

/-!
# Lines of a doc comment

After the name of a tag, a line is blanks and words in turn, up to its end. `LineWords` takes a text
apart in this way, and `scanArguments` reads exactly these words. The offsets that the scanners add
up on their way are the places of what they read.

* `scanArguments_word`, `scanArguments_ending`: the two steps of reading the words of a line.
* `lineWords`: every text can be taken apart, so the two steps are all there is.
* `scanTag?_placed`: name, arguments and tag stand where their spans say.
* `exists_scanTag?_of_parse`: every tag of a comment is read from a content that stands in it.
-/

namespace TagLint

open Text (byteWidth isBlank isInlineBlank Run exists_run)

/-! ## Classes of characters -/

/-- No range of one table meets a range of the other. -/
def Text.CodePoints.apart (s t : Text.CodePoints) : Bool :=
  s.all fun r => t.all fun q => r.2 < q.1 || q.2 < r.1

theorem Text.CodePoints.not_has_of_apart {s t : Text.CodePoints} (h : s.apart t = true) {c : Char}
    (hc : s.has c = true) : t.has c = false := by
  obtain ⟨r, hr, hLow, hHigh⟩ := Text.CodePoints.has_iff.mp hc
  cases ht : t.has c with
  | false => rfl
  | true =>
    obtain ⟨q, hq, hLow', hHigh'⟩ := Text.CodePoints.has_iff.mp ht
    have hApart : r.2 < q.1 ∨ q.2 < r.1 := by
      simpa using List.all_eq_true.mp (List.all_eq_true.mp h r hr) q hq
    omega

namespace DocComment

theorem isBlank_of_isLineBreak {c : Char} (h : isLineBreak c = true) : isBlank c = true := by
  simp only [isLineBreak, Bool.or_eq_true, beq_iff_eq] at h
  rcases h with rfl | rfl <;> decide

theorem not_isLineBreak_of_not_isBlank {c : Char} (h : isBlank c = false) :
    isLineBreak c = false := by
  cases hBreak : isLineBreak c with
  | false => rfl
  | true =>
    rw [isBlank_of_isLineBreak hBreak] at h
    cases h

/-- A blank stays on its line or ends it. -/
theorem isBlank_cases {c : Char} (h : isBlank c = true) :
    isInlineBlank c = true ∨ isLineBreak c = true := by
  simp only [isInlineBlank, isLineBreak, h, Bool.true_and, Bool.and_eq_true, bne_iff_ne,
    Bool.or_eq_true, beq_iff_eq]
  by_cases hFeed : c = '\n'
  · exact .inr (.inr hFeed)
  · by_cases hReturn : c = '\r'
    · exact .inr (.inl hReturn)
    · exact .inl ⟨hFeed, hReturn⟩

theorem not_isLineBreak_of_isInlineBlank {c : Char} (h : isInlineBlank c = true) :
    isLineBreak c = false := by
  simp only [isInlineBlank, Bool.and_eq_true, bne_iff_ne] at h
  simp [isLineBreak, h.1.2, h.2]

theorem not_isAlphanumeric_of_isBlank {c : Char} (h : isBlank c = true) :
    Text.isAlphanumeric c = false := by
  unfold Text.isAlphanumeric
  split
  · have hPoint : c.toNat ∈ [9, 10, 11, 12, 13, 32] := by
      obtain ⟨r, hr, hLow, hHigh⟩ := Text.CodePoints.has_iff.mp h
      simp only [Text.blankPoints, List.mem_cons, List.not_mem_nil, or_false] at hr ⊢
      rcases hr with rfl | rfl | rfl | rfl | rfl | rfl | rfl | rfl | rfl | rfl <;>
        simp only [] at hLow hHigh <;> omega
    have hAll : ∀ n ∈ [9, 10, 11, 12, 13, 32], (Char.ofNat n).isAlphanum = false := by decide
    have hc := hAll _ hPoint
    rwa [Char.ofNat_toNat] at hc
  · have hApart : Text.blankPoints.apart Text.alphanumericPoints = true := by decide +kernel
    exact Text.CodePoints.not_has_of_apart hApart h

theorem not_isTagChar_of_isBlank {c : Char} (h : isBlank c = true) : isTagChar c = false := by
  have hNe : ∀ d, isBlank d = false → c ≠ d := by
    rintro d hd rfl
    rw [h] at hd
    cases hd
  simp [isTagChar, not_isAlphanumeric_of_isBlank h, hNe '-' rfl, hNe '_' rfl, hNe ':' rfl,
    hNe '\\' rfl]

/-! ## The words after a name -/

/-- A text after the name of a tag, taken apart into the blanks and words on its line and what
follows the line. -/
inductive LineWords : List Char → Prop
  | ending {blanks tail : List Char} (hBlanks : ∀ c ∈ blanks, isInlineBlank c = true)
      (hTail : ∀ c ∈ tail.head?, isLineBreak c = true) : LineWords (blanks ++ tail)
  | word {blanks word rest : List Char} (hBlanks : ∀ c ∈ blanks, isInlineBlank c = true)
      (hNe : word ≠ []) (hWord : Run (!isBlank ·) word rest) (hRest : LineWords rest) :
      LineWords (blanks ++ (word ++ rest))

theorem lineWords (cs : List Char) : LineWords cs := by
  obtain ⟨blanks, tail, hCut, hBlanks⟩ := exists_run isInlineBlank cs
  rw [hCut]
  cases tail with
  | nil => exact .ending hBlanks.all (by simp)
  | cons c tail =>
    by_cases hEnd : isLineBreak c = true
    · exact .ending hBlanks.all (by simpa using hEnd)
    · have hInline : isInlineBlank c = false := hBlanks.stops c (by simp)
      have hBlank : isBlank c = false := by
        cases h : isBlank c with
        | false => rfl
        | true =>
          rcases isBlank_cases h with h | h
          · rw [hInline] at h
            cases h
          · exact absurd h hEnd
      obtain ⟨word, rest, hSplit, hWord⟩ := exists_run (!isBlank ·) (c :: tail)
      have hNe : word ≠ [] := by
        rintro rfl
        have := hWord.stops c (by rw [← List.nil_append rest, ← hSplit]; rfl)
        simp [hBlank] at this
      rw [hSplit]
      exact .word hBlanks.all hNe hWord (lineWords rest)
termination_by cs.length
decreasing_by
  have hLength := congrArg List.length hSplit
  have hPos := List.length_pos_iff.mpr hNe
  simp only [List.length_append, List.length_cons] at hLength
  simp only [hCut, List.length_append, List.length_cons]
  omega

theorem run_inlineBlank_of_word {blanks word rest : List Char}
    (hBlanks : ∀ c ∈ blanks, isInlineBlank c = true) (hNe : word ≠ [])
    (hWord : Run (!isBlank ·) word rest) : Run isInlineBlank blanks (word ++ rest) := by
  obtain ⟨c, word, rfl⟩ := List.exists_cons_of_ne_nil hNe
  refine ⟨hBlanks, ?_⟩
  intro d hd
  obtain rfl : c = d := by simpa using hd
  have hBlank : isBlank c = false := by simpa using hWord.all c (by simp)
  simp [isInlineBlank, hBlank]

theorem run_inlineBlank_of_ending {blanks tail : List Char}
    (hBlanks : ∀ c ∈ blanks, isInlineBlank c = true)
    (hTail : ∀ c ∈ tail.head?, isLineBreak c = true) : Run isInlineBlank blanks tail := by
  refine ⟨hBlanks, ?_⟩
  intro c hc
  cases h : isInlineBlank c with
  | false => rfl
  | true =>
    have hEnd := hTail c hc
    rw [not_isLineBreak_of_isInlineBlank h] at hEnd
    cases hEnd

theorem scanArguments_ending {blanks tail : List Char}
    (hBlanks : ∀ c ∈ blanks, isInlineBlank c = true)
    (hTail : ∀ c ∈ tail.head?, isLineBreak c = true) (offset : Nat) :
    scanArguments offset (blanks ++ tail) = [] := by
  have hRun := run_inlineBlank_of_ending hBlanks hTail
  unfold scanArguments
  rw [hRun.dropWhile_eq]
  cases tail with
  | nil => rfl
  | cons c tail => simp [hTail c (by simp)]

theorem scanArguments_word {blanks word rest : List Char}
    (hBlanks : ∀ c ∈ blanks, isInlineBlank c = true) (hNe : word ≠ [])
    (hWord : Run (!isBlank ·) word rest) (offset : Nat) :
    scanArguments offset (blanks ++ (word ++ rest)) =
      .ofWord word (.ofBytes (offset + byteWidth blanks) (offset + byteWidth blanks + byteWidth word))
        :: scanArguments (offset + byteWidth blanks + byteWidth word) rest := by
  have hRun := run_inlineBlank_of_word hBlanks hNe hWord
  obtain ⟨c, word, rfl⟩ := List.exists_cons_of_ne_nil hNe
  have hBlank : isBlank c = false := by simpa using hWord.all c (by simp)
  have hEnd : isLineBreak c = false := not_isLineBreak_of_not_isBlank hBlank
  have hTail : Run (!isBlank ·) word rest :=
    ⟨fun d hd => hWord.all d (List.mem_cons_of_mem _ hd), hWord.stops⟩
  rw [scanArguments, hRun.dropWhile_eq, hRun.takeWhile_eq]
  simp only [List.cons_append, hEnd, Bool.false_eq_true, if_false, hTail.takeWhile_eq,
    hTail.dropWhile_eq]

/-! ## The tag of a line -/

/-- The tag with these letters in its name, at an offset, before the rest of its line. -/
def tagAt (offset : Nat) (letters rest : List Char) : DocTag :=
  let nameStop := offset + byteWidth ('@' :: letters)
  let arguments := scanArguments nameStop rest
  { name := String.ofList ('@' :: letters)
    nameSpan := .ofBytes offset nameStop
    span := .ofBytes offset ((arguments.getLast?.map (·.span.stop.utf8)).getD nameStop)
    arguments }

/-- A tag moves with its name and its arguments. -/
theorem tagAt_map {f : Nat → Nat} {offset : Nat} {letters rest rest' : List Char}
    (hName : f (offset + byteWidth ('@' :: letters)) = f offset + byteWidth ('@' :: letters))
    (hArguments : scanArguments (f (offset + byteWidth ('@' :: letters))) rest' =
      (scanArguments (offset + byteWidth ('@' :: letters)) rest).map (·.mapPositions (.mapByte f))) :
    tagAt (f offset) letters rest' = (tagAt offset letters rest).mapPositions (.mapByte f) := by
  unfold tagAt
  dsimp only
  rw [← hName, hArguments, List.getLast?_map]
  cases (scanArguments (offset + byteWidth ('@' :: letters)) rest).getLast? with
  | none => rfl
  | some a => rfl

theorem scanTag?_letters {letters rest : List Char} (hNe : letters ≠ [])
    (hLetters : Run isTagChar letters rest) (offset : Nat) :
    scanTag? offset ('@' :: (letters ++ rest)) = some (tagAt offset letters rest) := by
  have hEmpty : letters.isEmpty = false := by simpa using hNe
  simp [scanTag?, tagAt, hLetters.takeWhile_eq, hLetters.dropWhile_eq, hEmpty]

theorem scanTag?_no_letters {rest : List Char} (h : Run isTagChar [] rest) (offset : Nat) :
    scanTag? offset ('@' :: rest) = none := by
  have hNone : rest.takeWhile isTagChar = [] := h.takeWhile_eq
  simp [scanTag?, hNone]

theorem scanTag?_no_sign {content : List Char} (h : content.head? ≠ some '@') (offset : Nat) :
    scanTag? offset content = none := by
  cases content with
  | nil => rfl
  | cons c cs =>
    have hc : c ≠ '@' := by simpa using h
    simp [scanTag?, hc]

/-- The content of a line is a tag, a sign without a name, or something else. -/
theorem content_cases (content : List Char) :
    (∃ letters rest, content = '@' :: (letters ++ rest) ∧ letters ≠ [] ∧
      Run isTagChar letters rest) ∨
    (∃ rest, content = '@' :: rest ∧ Run isTagChar [] rest) ∨ content.head? ≠ some '@' := by
  cases content with
  | nil => exact .inr (.inr (by simp))
  | cons c cs =>
    by_cases hAt : c = '@'
    · subst hAt
      obtain ⟨letters, rest, rfl, hLetters⟩ := exists_run isTagChar cs
      cases letters with
      | nil => exact .inr (.inl ⟨rest, rfl, hLetters⟩)
      | cons d letters => exact .inl ⟨d :: letters, rest, rfl, by simp, hLetters⟩
    · exact .inr (.inr (by simpa using hAt))

/-! ## Places of words -/

/-- Every argument stands in the text that was read, where its span says. -/
theorem scanArguments_placed {offset : Nat} {cs : List Char} {a : Argument}
    (h : a ∈ scanArguments offset cs) :
    ∃ before after, cs = before ++ (a.word ++ after) ∧
      a.span = .ofBytes (offset + byteWidth before) (offset + byteWidth before + byteWidth a.word) := by
  induction lineWords cs generalizing offset with
  | ending hBlanks hTail =>
    rw [scanArguments_ending hBlanks hTail] at h
    cases h
  | @word blanks word rest hBlanks hNe hWord _ ih =>
    rw [scanArguments_word hBlanks hNe hWord] at h
    rcases List.mem_cons.mp h with rfl | h
    · refine ⟨blanks, rest, ?_, ?_⟩
      · rw [Argument.word_ofWord]
      · rw [Argument.span_ofWord, Argument.word_ofWord]
    · obtain ⟨before, after, hRest, hSpan⟩ := ih h
      refine ⟨blanks ++ (word ++ before), after, ?_, ?_⟩
      · rw [hRest]
        simp
      · rw [hSpan]
        simp [Nat.add_assoc]

end DocComment

/-- Name, arguments and whole of a tag stand in the source where its spans say. -/
structure DocTag.Placed (source : List Char) (t : DocTag) : Prop where
  name_covers : t.nameSpan.Covers source t.name.toList
  arguments_cover : ∀ a ∈ t.arguments, a.span.Covers source a.word
  span_covers : ∃ more, t.span.Covers source (t.name.toList ++ more)

namespace DocComment

variable {source : List Char} {offset : Nat}

theorem scanTag?_placed {content : List Char} {t : DocTag} (h : StandsAt source content offset)
    (hTag : scanTag? offset content = some t) : t.Placed source := by
  unfold scanTag? at hTag
  split at hTag
  case h_2 => cases hTag
  case h_1 cs =>
    dsimp only at hTag
    split at hTag
    · cases hTag
    · obtain rfl := Option.some.inj hTag
      have hSplit : '@' :: cs = ('@' :: cs.takeWhile isTagChar) ++ cs.dropWhile isTagChar := by
        simp
      rw [hSplit] at h
      have hArguments : ∀ a ∈ scanArguments (offset + byteWidth ('@' :: cs.takeWhile isTagChar))
          (cs.dropWhile isTagChar), a.span.Covers source a.word := by
        intro a ha
        obtain ⟨before, after, hRest, hSpan⟩ := scanArguments_placed ha
        have hStands := h.right
        rw [hRest] at hStands
        rw [hSpan]
        exact Span.covers_ofBytes hStands.right.left
      refine ⟨?_, hArguments, ?_⟩
      · rw [String.toList_ofList]
        exact Span.covers_ofBytes h.left
      · -- the tag ends with its last argument, or with its name if it has none
        simp only [String.toList_ofList]
        cases hLast : (scanArguments (offset + byteWidth ('@' :: cs.takeWhile isTagChar))
            (cs.dropWhile isTagChar)).getLast? with
        | none =>
          refine ⟨[], ?_⟩
          rw [List.append_nil]
          exact Span.covers_ofBytes h.left
        | some a =>
          obtain ⟨before, after, hRest, hSpan⟩ := scanArguments_placed (List.mem_of_getLast? hLast)
          refine ⟨before ++ a.word, ?_⟩
          rw [hRest, ← List.append_assoc, ← List.append_assoc] at h
          have hCovers := Span.covers_ofBytes h.left
          rw [List.append_assoc] at hCovers
          simpa [hSpan, Span.ofBytes, Position.ofByte, Nat.add_assoc] using hCovers

theorem lineMargin_append_lineContent (line : List Char) :
    lineMargin line ++ lineContent line = line := by
  simp [lineMargin, lineContent]

theorem lineMargin_of_runs {blanks stars inner content : List Char}
    (hBlanks : Run isInlineBlank blanks (stars ++ (inner ++ content)))
    (hStars : Run (· == '*') stars (inner ++ content)) (hInner : Run isInlineBlank inner content) :
    lineMargin (blanks ++ (stars ++ (inner ++ content))) = blanks ++ stars ++ inner ∧
      lineContent (blanks ++ (stars ++ (inner ++ content))) = content := by
  constructor
  · simp only [lineMargin, hBlanks.takeWhile_eq, hBlanks.dropWhile_eq, hStars.takeWhile_eq,
      hStars.dropWhile_eq, hInner.takeWhile_eq]
  · simp only [lineContent, hBlanks.dropWhile_eq, hStars.dropWhile_eq, hInner.dropWhile_eq]

/-- Every tag of lines in a row is the tag of a content that stands in them. -/
theorem exists_scanTag?_of_scanLines {ls : List (List Char)} {t : DocTag}
    (h : StandsAt source ls.flatten offset) (hTag : t ∈ scanLines offset ls) :
    ∃ start content, StandsAt source content start ∧ scanTag? start content = some t := by
  induction ls generalizing offset with
  | nil => cases hTag
  | cons line ls ih =>
    rw [List.flatten_cons] at h
    rcases List.mem_append.mp hTag with hTag | hTag
    · have hLine := h.left
      rw [← lineMargin_append_lineContent line] at hLine
      exact ⟨_, lineContent line, hLine.right, Option.mem_toList.mp hTag⟩
    · exact ih h.right hTag

/-! ## The text of a comment -/

theorem lines_flatten (cs : List Char) : (lines cs).flatten = cs := by
  fun_induction lines cs with
  | case1 => rfl
  | case2 cs ih => simp [ih]
  | case3 c cs hc hNil ih =>
    rw [hNil] at ih
    simp [← ih]
  | case4 c cs hc line rest hCons ih =>
    rw [hCons] at ih
    simp [← ih]

/-- A text is read as a comment if it is a body between the delimiters, where the stars before the
end are not part of the body. -/
theorem body?_eq_some_iff {text body : List Char} :
    body? text = some body ↔
      (∀ c ∈ body.getLast?, c ≠ '*') ∧
        ∃ n, text = '/' :: '*' :: '*' :: (body ++ List.replicate n '*' ++ ['*', '/']) := by
  constructor
  · intro h
    unfold body? at h
    split at h
    case h_2 => cases h
    case h_1 cs =>
      split at h
      case h_2 => cases h
      case h_1 inner hReverse =>
        obtain rfl := Option.some.inj h
        have hRun := Text.run_takeWhile (· == '*') inner
        have hStars := List.eq_replicate_of_mem fun c hc => beq_iff_eq.mp (hRun.all c hc)
        refine ⟨?_, (inner.takeWhile (· == '*')).length, ?_⟩
        · intro c hc
          rw [List.getLast?_reverse] at hc
          simpa using hRun.stops c hc
        · have hInner : inner = inner.takeWhile (· == '*') ++ inner.dropWhile (· == '*') :=
            List.takeWhile_append_dropWhile.symm
          rw [hStars] at hInner
          have hBody := congrArg List.reverse hInner
          rw [List.reverse_append, List.reverse_replicate] at hBody
          have hcs : cs = inner.reverse ++ ['*', '/'] := by
            rw [← List.reverse_reverse cs, hReverse]
            simp
          rw [hcs]
          exact congrArg (fun body => '/' :: '*' :: '*' :: (body ++ ['*', '/'])) hBody
  · rintro ⟨hLast, n, rfl⟩
    have hRun : Run (· == '*') (List.replicate n '*') body.reverse := by
      refine ⟨?_, ?_⟩
      · intro c hc
        simp [List.eq_of_mem_replicate hc]
      · intro c hc
        rw [List.head?_reverse] at hc
        simpa using hLast c hc
    simp [body?, hRun.dropWhile_eq]

theorem body?_closed_ne_none (inner : List Char) :
    body? ('/' :: '*' :: '*' :: (inner ++ ['*', '/'])) ≠ none := by
  simp [body?]

/-- A comment that is read has a body, and its tags are those of the lines of the body. -/
theorem exists_body_of_parse {text : List Char} {comment : DocComment}
    (h : parse text offset = .ok comment) :
    ∃ body, body? text = some body ∧
      comment = ⟨.ofBytes offset (offset + byteWidth text), scanLines (offset + 3) (lines body)⟩ := by
  unfold parse at h
  cases hBody : body? text with
  | none =>
    rw [hBody] at h
    cases h
  | some body =>
    rw [hBody] at h
    cases h
    exact ⟨body, rfl, rfl⟩

/-- Every tag of a comment is the tag of a content that stands in the comment. -/
theorem exists_scanTag?_of_parse {text : List Char} {comment : DocComment}
    (h : StandsAt source text offset) (hParse : parse text offset = .ok comment) {t : DocTag}
    (hTag : t ∈ comment.tags) :
    ∃ start content, StandsAt source content start ∧ scanTag? start content = some t := by
  obtain ⟨body, hBody, rfl⟩ := exists_body_of_parse hParse
  obtain ⟨-, n, hText⟩ := body?_eq_some_iff.mp hBody
  have hSplit : text = ['/', '*', '*'] ++ (body ++ (List.replicate n '*' ++ ['*', '/'])) := by
    simp [hText]
  rw [hSplit] at h
  have hStands := h.right.left
  rw [← lines_flatten body] at hStands
  exact exists_scanTag?_of_scanLines hStands hTag

theorem parse_placed {text : List Char} {comment : DocComment} (h : StandsAt source text offset)
    (hParse : parse text offset = .ok comment) :
    comment.span.Covers source text ∧ ∀ t ∈ comment.tags, t.Placed source := by
  constructor
  · obtain ⟨body, -, rfl⟩ := exists_body_of_parse hParse
    exact Span.covers_ofBytes h
  · intro t hTag
    obtain ⟨start, content, hStands, hRead⟩ := exists_scanTag?_of_parse h hParse hTag
    exact scanTag?_placed hStands hRead

end DocComment

end TagLint
