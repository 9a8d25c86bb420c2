import TagLint.Proofs.CommentLines

/-!
# Removing one argument from a comment

A word of a comment line stands between blanks, or right behind the name of its tag. When its
characters are deleted, the neighbours do not grow together, so the tag loses this argument and the
rest of the comment reads as before. Positions change, so both sides are compared without them.

* `scanArguments_remove`, `scanTag?_remove`, `scanLines_remove`: the same on the words of a line, on
  a tag and on the lines of a comment.
* `parse_remove`: the comment without the word is still a comment, and has the same tags and
  arguments but for the removed one.
-/

namespace TagLint

open Text (byteWidth isBlank isInlineBlank Run exists_run)

theorem Argument.mapPositions_ofWord (f : Position → Position) (word : List Char) (span : Span) :
    (ofWord word span).mapPositions f = ofWord word (span.map f) := by
  cases word with
  | nil => rfl
  | cons c cs => by_cases h : c = negationMark <;> simp [ofWord, mapPositions, h]

namespace DocComment

/-! ## Words -/

/-- The argument that a word is, wherever it stands. -/
theorem forget_ofWord (word : List Char) (span span' : Span) :
    (Argument.ofWord word span).mapPositions .forget =
      (Argument.ofWord word span').mapPositions .forget := by
  rw [Argument.mapPositions_ofWord, Argument.mapPositions_ofWord]
  rfl

/-- Blanks before a text, and the place of the text, do not change its words. -/
theorem scanArguments_blanks {blanks cs : List Char}
    (hBlanks : ∀ c ∈ blanks, isInlineBlank c = true) (offset offset' : Nat) :
    (scanArguments offset (blanks ++ cs)).map (·.mapPositions .forget) =
      (scanArguments offset' cs).map (·.mapPositions .forget) := by
  induction lineWords cs generalizing blanks offset offset' with
  | @ending inner tail hInner hTail =>
    have hAll : ∀ c ∈ blanks ++ inner, isInlineBlank c = true := by
      intro c hc
      rcases List.mem_append.mp hc with hc | hc
      · exact hBlanks c hc
      · exact hInner c hc
    rw [← List.append_assoc, scanArguments_ending hAll hTail, scanArguments_ending hInner hTail]
  | @word inner word rest hInner hNe hWord _ ih =>
    have hAll : ∀ c ∈ blanks ++ inner, isInlineBlank c = true := by
      intro c hc
      rcases List.mem_append.mp hc with hc | hc
      · exact hBlanks c hc
      · exact hInner c hc
    rw [← List.append_assoc, scanArguments_word hAll hNe hWord,
      scanArguments_word hInner hNe hWord, List.map_cons, List.map_cons]
    exact congr (congrArg _ (forget_ofWord _ _ _)) (@ih [] (by simp) _ _)

theorem scanArguments_forget (cs : List Char) (offset offset' : Nat) :
    (scanArguments offset cs).map (·.mapPositions .forget) =
      (scanArguments offset' cs).map (·.mapPositions .forget) :=
  @scanArguments_blanks [] cs (by simp) offset offset'

/-- A word with the text of its line around it: blanks or nothing stand on both sides. -/
structure BetweenBlanks (before word after : List Char) : Prop where
  ne_nil : word ≠ []
  solid : ∀ c ∈ word, isBlank c = false
  left : ∀ c ∈ before.getLast?, isInlineBlank c = true
  right : ∀ c ∈ after.head?, isBlank c = true

/-- Deleting a word deletes its argument and keeps the others. -/
theorem scanArguments_remove {offset : Nat} {cs : List Char} {pre post : List Argument}
    {a : Argument} (h : scanArguments offset cs = pre ++ a :: post) :
    ∃ before after, cs = before ++ (a.word ++ after) ∧
      a.span = .ofBytes (offset + byteWidth before) (offset + byteWidth before + byteWidth a.word) ∧
      BetweenBlanks before a.word after ∧
      ∀ offset', (scanArguments offset' (before ++ after)).map (·.mapPositions .forget) =
        (pre ++ post).map (·.mapPositions .forget) := by
  induction lineWords cs generalizing offset pre with
  | ending hBlanks hTail =>
    rw [scanArguments_ending hBlanks hTail] at h
    simp at h
  | @word blanks word rest hBlanks hNe hWord _ ih =>
    have hSolid : ∀ c ∈ word, isBlank c = false := by
      intro c hc
      simpa using hWord.all c hc
    rw [scanArguments_word hBlanks hNe hWord] at h
    cases pre with
    | nil =>
      obtain ⟨rfl, rfl⟩ := List.cons.inj h
      rw [Argument.word_ofWord, Argument.span_ofWord]
      refine ⟨blanks, rest, rfl, rfl, ⟨hNe, hSolid, ?_, ?_⟩, ?_⟩
      · intro c hc
        exact hBlanks c (List.mem_of_getLast? hc)
      · intro c hc
        simpa using hWord.stops c hc
      · intro offset'
        exact scanArguments_blanks hBlanks offset' _
    | cons first pre =>
      obtain ⟨rfl, hTail⟩ := List.cons.inj h
      obtain ⟨before, after, rfl, hSpan, hBetween, hRest⟩ := ih hTail
      -- the deleted word does not follow this one without a blank
      have hBefore : before ≠ [] := by
        rintro rfl
        obtain ⟨c, more, hMore⟩ := List.exists_cons_of_ne_nil hBetween.ne_nil
        have hBlank := hWord.stops c (by rw [hMore]; rfl)
        rw [hBetween.solid c (by rw [hMore]; simp)] at hBlank
        cases hBlank
      obtain ⟨d, before', hHead⟩ := List.exists_cons_of_ne_nil hBefore
      have hRun : Run (!isBlank ·) word (before ++ after) :=
        hWord.of_head?_eq (by simp [hHead])
      refine ⟨blanks ++ (word ++ before), after, by simp, ?_, ⟨hBetween.ne_nil, hBetween.solid, ?_,
        hBetween.right⟩, ?_⟩
      · rw [hSpan]
        simp [Nat.add_assoc]
      · intro c hc
        apply hBetween.left c
        rw [Text.getLast?_append_of_ne_nil _ (by simp [hBefore]),
          Text.getLast?_append_of_ne_nil _ hBefore] at hc
        exact hc
      · intro offset'
        have hSplit : blanks ++ (word ++ before) ++ after = blanks ++ (word ++ (before ++ after)) := by
          simp
        rw [hSplit, scanArguments_word hBlanks hNe hRun, List.cons_append, List.map_cons,
          List.map_cons]
        exact congr (congrArg _ (forget_ofWord _ _ _)) (hRest _)

/-! ## Tags -/

/-- A tag without its places is a name and arguments without their places. -/
theorem mapPositions_forget (t : DocTag) :
    t.mapPositions .forget =
      { name := t.name, arguments := t.arguments.map (·.mapPositions .forget) } := rfl

theorem scanTag?_forget (content : List Char) (offset offset' : Nat) :
    (scanTag? offset content).map (·.mapPositions .forget) =
      (scanTag? offset' content).map (·.mapPositions .forget) := by
  rcases content_cases content with ⟨letters, rest, rfl, hNe, hLetters⟩ | ⟨rest, rfl, hNone⟩ | hNone
  · rw [scanTag?_letters hNe hLetters, scanTag?_letters hNe hLetters, Option.map_some,
      Option.map_some, mapPositions_forget, mapPositions_forget]
    exact congrArg (fun arguments => some (DocTag.mk _ _ _ arguments)) (scanArguments_forget _ _ _)
  · rw [scanTag?_no_letters hNone, scanTag?_no_letters hNone]
  · rw [scanTag?_no_sign hNone, scanTag?_no_sign hNone]

/-- Deleting an argument of a tag leaves the name of the tag and its other arguments. What comes
before the argument starts with the name and does not end in a star. -/
theorem scanTag?_remove {offset : Nat} {content : List Char} {t : DocTag}
    {pre post : List Argument} {a : Argument} (h : scanTag? offset content = some t)
    (hArguments : t.arguments = pre ++ a :: post) :
    ∃ before after, content = '@' :: (before ++ (a.word ++ after)) ∧
      a.span = .ofBytes (offset + byteWidth ('@' :: before))
        (offset + byteWidth ('@' :: before) + byteWidth a.word) ∧
      (∀ c ∈ ('@' :: before).getLast?, c ≠ '*') ∧ a.word ≠ [] ∧ (∀ c ∈ a.word, isBlank c = false) ∧
      ∀ offset', (scanTag? offset' ('@' :: (before ++ after))).map (·.mapPositions .forget) =
        some (DocTag.mapPositions .forget { t with arguments := pre ++ post }) := by
  rcases content_cases content with ⟨letters, rest, rfl, hNe, hLetters⟩ | ⟨rest, rfl, hNone⟩ | hNone
  · rw [scanTag?_letters hNe hLetters] at h
    obtain rfl := Option.some.inj h
    obtain ⟨before, after, rfl, hSpan, hBetween, hRest⟩ := scanArguments_remove hArguments
    have hKeeps : Run isTagChar letters (before ++ after) := by
      refine ⟨hLetters.all, ?_⟩
      intro c hc
      cases before with
      | nil => exact not_isTagChar_of_isBlank (hBetween.right c hc)
      | cons d before => exact hLetters.stops c (by simpa using hc)
    refine ⟨letters ++ before, after, by simp, ?_, ?_, hBetween.ne_nil, hBetween.solid, ?_⟩
    · rw [hSpan]
      simp [Nat.add_assoc]
    · rintro c hc rfl
      rw [← List.cons_append] at hc
      cases before with
      | nil =>
        have hStar := hLetters.all '*' ?_
        · exact absurd hStar (by decide)
        · rw [List.append_nil, ← List.singleton_append, Text.getLast?_append_of_ne_nil _ hNe] at hc
          exact List.mem_of_getLast? hc
      | cons d before =>
        rw [Text.getLast?_append_of_ne_nil _ (by simp)] at hc
        exact absurd (hBetween.left '*' hc) (by decide)
    · intro offset'
      rw [List.append_assoc, scanTag?_letters hNe hKeeps, Option.map_some, mapPositions_forget,
        mapPositions_forget]
      exact congrArg (fun arguments => some (DocTag.mk _ _ _ arguments)) (hRest _)
  · rw [scanTag?_no_letters hNone] at h
    cases h
  · rw [scanTag?_no_sign hNone] at h
    cases h

/-! ## Lines -/

/-- The margin of a line with a tag does not depend on what follows the at sign. -/
theorem lineMargin_congr {line cs : List Char} (h : lineContent line = '@' :: cs)
    (cs' : List Char) :
    lineMargin (lineMargin line ++ '@' :: cs') = lineMargin line ∧
      lineContent (lineMargin line ++ '@' :: cs') = '@' :: cs' := by
  obtain ⟨blanks, afterBlanks, rfl, hBlanks⟩ := exists_run isInlineBlank line
  obtain ⟨stars, afterStars, rfl, hStars⟩ := exists_run (· == '*') afterBlanks
  obtain ⟨inner, content, rfl, hInner⟩ := exists_run isInlineBlank afterStars
  obtain ⟨hMargin, hContent⟩ := lineMargin_of_runs hBlanks hStars hInner
  obtain rfl : content = '@' :: cs := hContent.symm.trans h
  have hInner' : Run isInlineBlank inner ('@' :: cs') := hInner.of_head?_eq rfl
  have hStars' : Run (· == '*') stars (inner ++ '@' :: cs') :=
    hStars.of_head?_eq (by cases inner <;> rfl)
  have hBlanks' : Run isInlineBlank blanks (stars ++ (inner ++ '@' :: cs')) :=
    hBlanks.of_head?_eq (by cases stars <;> cases inner <;> rfl)
  have hSplit : blanks ++ stars ++ inner ++ '@' :: cs' =
      blanks ++ (stars ++ (inner ++ '@' :: cs')) := by
    simp
  rw [hMargin, hSplit]
  exact lineMargin_of_runs hBlanks' hStars' hInner'

theorem scanLine?_remove {offset : Nat} {line : List Char} {t : DocTag}
    {pre post : List Argument} {a : Argument} (h : scanLine? offset line = some t)
    (hArguments : t.arguments = pre ++ a :: post) :
    ∃ before after, line = before ++ (a.word ++ after) ∧
      a.span = .ofBytes (offset + byteWidth before) (offset + byteWidth before + byteWidth a.word) ∧
      before ≠ [] ∧ (∀ c ∈ before.getLast?, c ≠ '*') ∧ a.word ≠ [] ∧
      (∀ c ∈ a.word, isBlank c = false) ∧
      ∀ offset', (scanLine? offset' (before ++ after)).map (·.mapPositions .forget) =
        some (DocTag.mapPositions .forget { t with arguments := pre ++ post }) := by
  obtain ⟨before, after, hContent, hSpan, hLast, hNe, hSolid, hRest⟩ :=
    scanTag?_remove h hArguments
  obtain ⟨hMargin, hContent'⟩ := lineMargin_congr hContent (before ++ after)
  refine ⟨lineMargin line ++ '@' :: before, after, ?_, ?_, by simp, ?_, hNe, hSolid, ?_⟩
  · rw [List.append_assoc, List.cons_append, ← hContent, lineMargin_append_lineContent]
  · rw [hSpan]
    simp [Nat.add_assoc]
  · rw [Text.getLast?_append_of_ne_nil _ (by simp)]
    exact hLast
  · intro offset'
    rw [List.append_assoc, List.cons_append, scanLine?, hMargin, hContent']
    exact hRest _

theorem scanLine?_forget (line : List Char) (offset offset' : Nat) :
    (scanLine? offset line).map (·.mapPositions .forget) =
      (scanLine? offset' line).map (·.mapPositions .forget) :=
  scanTag?_forget _ _ _

theorem scanLines_forget (ls : List (List Char)) (offset offset' : Nat) :
    (scanLines offset ls).map (·.mapPositions .forget) =
      (scanLines offset' ls).map (·.mapPositions .forget) := by
  induction ls generalizing offset offset' with
  | nil => rfl
  | cons line ls ih =>
    have hLine := congrArg Option.toList (scanLine?_forget line offset offset')
    rw [Option.toList_map, Option.toList_map] at hLine
    simp only [scanLines, List.map_append, hLine]
    rw [ih]

theorem scanLines_append (offset : Nat) (pre ls : List (List Char)) :
    scanLines offset (pre ++ ls) =
      scanLines offset pre ++ scanLines (offset + byteWidth pre.flatten) ls := by
  induction pre generalizing offset with
  | nil => rfl
  | cons line pre ih => simp [scanLines, ih, Nat.add_assoc]

theorem exists_line {offset : Nat} {ls : List (List Char)} {pre post : List DocTag} {t : DocTag}
    (h : scanLines offset ls = pre ++ t :: post) :
    ∃ before line after, ls = before ++ line :: after ∧ scanLines offset before = pre ∧
      scanLine? (offset + byteWidth before.flatten) line = some t ∧
      post = scanLines (offset + byteWidth before.flatten + byteWidth line) after := by
  induction ls generalizing offset pre with
  | nil => simp [scanLines] at h
  | cons first ls ih =>
    have hSkip : ∀ skipped rest, (scanLine? offset first).toList = skipped → pre = skipped ++ rest →
        scanLines (offset + byteWidth first) ls = rest ++ t :: post →
        ∃ before line after, first :: ls = before ++ line :: after ∧ scanLines offset before = pre ∧
          scanLine? (offset + byteWidth before.flatten) line = some t ∧
          post = scanLines (offset + byteWidth before.flatten + byteWidth line) after := by
      rintro skipped rest rfl rfl hRest
      obtain ⟨before, line, after, rfl, hBefore, hLine, hAfter⟩ := ih hRest
      refine ⟨first :: before, line, after, rfl, by rw [scanLines, hBefore], ?_, ?_⟩
      · simpa [Nat.add_assoc] using hLine
      · simpa [Nat.add_assoc] using hAfter
    rw [scanLines] at h
    cases hFirst : scanLine? offset first with
    | none =>
      rw [hFirst] at h
      exact hSkip [] pre (by rw [hFirst]; rfl) rfl h
    | some found =>
      rw [hFirst] at h
      cases pre with
      | nil =>
        obtain ⟨rfl, hRest⟩ := List.cons.inj h
        exact ⟨[], first, ls, rfl, rfl, hFirst, hRest.symm⟩
      | cons tag pre =>
        obtain ⟨rfl, hRest⟩ := List.cons.inj h
        exact hSkip [found] pre (by rw [hFirst]; rfl) rfl hRest

/-- The lines of a text: every line but the last ends with the only line feed that it has. -/
inductive AreLines : List (List Char) → Prop
  | nil : AreLines []
  | last {line : List Char} (hNe : line ≠ []) (hFeed : '\n' ∉ line) : AreLines [line]
  | cons {line : List Char} {ls : List (List Char)} (hFeed : '\n' ∉ line) (hRest : AreLines ls) :
      AreLines ((line ++ ['\n']) :: ls)

theorem lines_feed {line : List Char} (hFeed : '\n' ∉ line) (cs : List Char) :
    lines (line ++ '\n' :: cs) = (line ++ ['\n']) :: lines cs := by
  induction line with
  | nil => rfl
  | cons c line ih =>
    have hc : c ≠ '\n' := by
      rintro rfl
      exact hFeed List.mem_cons_self
    rw [List.cons_append, lines, ih (fun hMem => hFeed (List.mem_cons_of_mem _ hMem))]
    · rfl
    · exact hc

theorem lines_last {line : List Char} (hNe : line ≠ []) (hFeed : '\n' ∉ line) :
    lines line = [line] := by
  induction line with
  | nil => exact absurd rfl hNe
  | cons c line ih =>
    have hc : c ≠ '\n' := by
      rintro rfl
      exact hFeed List.mem_cons_self
    rw [lines]
    · cases line with
      | nil => rfl
      | cons d line =>
        rw [ih (by simp) (fun hMem => hFeed (List.mem_cons_of_mem _ hMem))]
    · exact hc

theorem areLines_lines (cs : List Char) : AreLines (lines cs) := by
  fun_induction lines cs with
  | case1 => exact .nil
  | case2 cs ih => exact @AreLines.cons [] _ (by simp) ih
  | case3 c cs hc hNil ih => exact .last (by simp) (by simpa [eq_comm] using hc)
  | case4 c cs hc line rest hCons ih =>
    rw [hCons] at ih
    cases ih with
    | last hNe hFeed => exact .last (by simp) (by simpa [eq_comm] using ⟨hc, hFeed⟩)
    | @cons line _ hFeed hRest =>
      exact @AreLines.cons (c :: line) _ (by simpa [eq_comm] using ⟨hc, hFeed⟩) hRest

theorem AreLines.lines_eq {ls : List (List Char)} (h : AreLines ls) : lines ls.flatten = ls := by
  induction h with
  | nil => rfl
  | last hNe hFeed =>
    rw [List.flatten_singleton]
    exact lines_last hNe hFeed
  | cons hFeed _ ih =>
    rw [List.flatten_cons, List.append_assoc, List.singleton_append, lines_feed hFeed, ih]

theorem AreLines.cons_cases {line : List Char} {ls : List (List Char)}
    (h : AreLines (line :: ls)) :
    (∃ inner, line = inner ++ ['\n'] ∧ '\n' ∉ inner ∧ AreLines ls) ∨
      (line ≠ [] ∧ '\n' ∉ line ∧ ls = []) := by
  cases h with
  | last hNe hFeed => exact .inr ⟨hNe, hFeed, rfl⟩
  | cons hFeed hRest => exact .inl ⟨_, rfl, hFeed, hRest⟩

/-- A line stays a line when a word behind its first character is deleted. -/
theorem AreLines.remove {pre post : List (List Char)} {before word after : List Char}
    (h : AreLines (pre ++ (before ++ (word ++ after)) :: post)) (hBefore : before ≠ [])
    (hWord : word ≠ []) (hFeed : '\n' ∉ word) : AreLines (pre ++ (before ++ after) :: post) := by
  induction pre with
  | nil =>
    rcases h.cons_cases with ⟨inner, hLine, hInner, hRest⟩ | ⟨-, hLine, rfl⟩
    · -- the line feed is not in the word, so it ends what comes after the word
      rcases List.eq_nil_or_concat after with rfl | ⟨after, c, rfl⟩
      · have hLast := congrArg List.getLast? hLine
        rw [List.append_nil, Text.getLast?_append_of_ne_nil _ hWord, List.getLast?_concat] at hLast
        exact absurd (List.mem_of_getLast? hLast) hFeed
      · rw [List.concat_eq_append, ← List.append_assoc, ← List.append_assoc] at hLine
        obtain ⟨rfl, hc⟩ := List.append_inj' hLine rfl
        rw [List.concat_eq_append, ← List.append_assoc, hc]
        refine .cons ?_ hRest
        intro hMem
        apply hInner
        rcases List.mem_append.mp hMem with hMem | hMem <;> simp [hMem]
    · refine .last (by simp [hBefore]) ?_
      intro hMem
      apply hLine
      rcases List.mem_append.mp hMem with hMem | hMem <;> simp [hMem]
  | cons line pre ih =>
    rcases h.cons_cases with ⟨inner, rfl, hInner, hRest⟩ | ⟨-, -, hNil⟩
    · exact .cons hInner (ih hRest)
    · simp at hNil

/-- Deleting an argument in the lines of a body. The lines stay apart, and so do their tags. -/
theorem scanLines_remove {offset : Nat} {body : List Char} {tags tags' : List DocTag} {t : DocTag}
    {pre post : List Argument} {a : Argument}
    (h : scanLines offset (lines body) = tags ++ t :: tags')
    (hArguments : t.arguments = pre ++ a :: post) :
    ∃ before after, body = before ++ (a.word ++ after) ∧
      a.span = .ofBytes (offset + byteWidth before) (offset + byteWidth before + byteWidth a.word) ∧
      before ≠ [] ∧ (∀ c ∈ before.getLast?, c ≠ '*') ∧
      ∀ offset', (scanLines offset' (lines (before ++ after))).map (·.mapPositions .forget) =
        (tags ++ { t with arguments := pre ++ post } :: tags').map (·.mapPositions .forget) := by
  obtain ⟨above, line, below, hLines, rfl, hTag, rfl⟩ := exists_line h
  obtain ⟨before, after, rfl, hSpan, hBefore, hLast, hNe, hSolid, hRest⟩ :=
    scanLine?_remove hTag hArguments
  have hFeed : '\n' ∉ a.word := fun hMem => absurd (hSolid _ hMem) (by decide)
  have hBody : body = above.flatten ++ before ++ (a.word ++ (after ++ below.flatten)) := by
    rw [← lines_flatten body, hLines]
    simp
  have hKeeps := (areLines_lines body)
  rw [hLines] at hKeeps
  have hLines' := (hKeeps.remove hBefore hNe hFeed).lines_eq
  refine ⟨above.flatten ++ before, after ++ below.flatten, hBody, ?_, by simp [hBefore], ?_, ?_⟩
  · rw [hSpan]
    simp [Nat.add_assoc]
  · rw [Text.getLast?_append_of_ne_nil _ hBefore]
    exact hLast
  · intro offset'
    have hFlat : above.flatten ++ before ++ (after ++ below.flatten) =
        (above ++ (before ++ after) :: below).flatten := by
      simp
    have hTag' := congrArg Option.toList (hRest (offset' + byteWidth above.flatten))
    rw [Option.toList_map] at hTag'
    rw [hFlat, hLines', scanLines_append, scanLines, List.map_append, List.map_append, hTag',
      scanLines_forget above offset' offset, List.map_append, List.map_cons,
      scanLines_forget below _ (offset + byteWidth above.flatten
        + byteWidth (before ++ (a.word ++ after)))]
    rfl

/-! ## Comments -/

/-- Deleting an argument in the text of a comment leaves a comment without that argument. The text
before the argument ends neither with the opening nor with a star. -/
theorem parse_remove {offset : Nat} {text : List Char} {comment : DocComment}
    {tags tags' : List DocTag} {t : DocTag} {pre post : List Argument} {a : Argument}
    (h : parse text offset = .ok comment) (hTags : comment.tags = tags ++ t :: tags')
    (hArguments : t.arguments = pre ++ a :: post) :
    ∃ before after, text = '/' :: '*' :: '*' :: (before ++ (a.word ++ (after ++ ['*', '/']))) ∧
      a.span = .ofBytes (offset + 3 + byteWidth before)
        (offset + 3 + byteWidth before + byteWidth a.word) ∧
      before ≠ [] ∧ (∀ c ∈ before.getLast?, c ≠ '*') ∧
      ∀ offset', ∃ comment',
        parse ('/' :: '*' :: '*' :: (before ++ (after ++ ['*', '/']))) offset' = .ok comment' ∧
        comment'.tags.map (·.mapPositions .forget) =
          (tags ++ { t with arguments := pre ++ post } :: tags').map (·.mapPositions .forget) := by
  obtain ⟨body, hBody, rfl⟩ := exists_body_of_parse h
  obtain ⟨hStar, n, rfl⟩ := body?_eq_some_iff.mp hBody
  obtain ⟨before, after, rfl, hSpan, hBefore, hLast, hRest⟩ := scanLines_remove hTags hArguments
  refine ⟨before, after ++ List.replicate n '*', by simp, hSpan, hBefore, hLast, ?_⟩
  intro offset'
  have hBody' : body? ('/' :: '*' :: '*' ::
      (before ++ (after ++ List.replicate n '*' ++ ['*', '/']))) = some (before ++ after) := by
    refine body?_eq_some_iff.mpr ⟨?_, n, by simp⟩
    cases after with
    | nil =>
      rw [List.append_nil]
      exact hLast
    | cons d after =>
      rw [Text.getLast?_append_of_ne_nil _ (by simp), Text.getLast?_append_of_ne_nil _ (by simp)] at hStar
      rw [Text.getLast?_append_of_ne_nil _ (by simp)]
      exact hStar
  refine ⟨_, by rw [parse, hBody'], ?_⟩
  exact hRest _

end DocComment

end TagLint
