import Mathlib.Data.List.Basic
import TagLint.Proofs.ArgumentRemoval
import TagLint.Proofs.CarriageReturns
import TagLint.Proofs.OwnerHead
import TagLint.Proofs.Segments

/-!
# Items of a text with carriage returns

When every line feed of a source gets a carriage return before it, comments, tags, arguments and
owners are found again, each at the offset to which its place has moved. `Moves f offset cs` says
that `f` sends the offsets of the text `cs` to those of its new form.

* `scanLines_crlf`, `body?_crlf`: a comment is read as before.
* `headLexemes_crlf`, `codeComments_crlf`: so are the head behind a comment and the whole code.
* `documentedItems_crlf`: the items of the new source are the old ones, moved.
-/

namespace TagLint

open Text (byteWidth isBlank isInlineBlank Run crlf crlf_cons exists_run)

/-- The function sends the offset of every character of the text to its offset in the text with
carriage returns. -/
def Moves (f : Nat → Nat) (offset : Nat) (cs : List Char) : Prop :=
  ∀ before after, cs = before ++ after →
    f (offset + byteWidth before) = f offset + byteWidth (crlf before)

namespace Moves

variable {f : Nat → Nat} {offset : Nat} {as bs : List Char}

theorem left (h : Moves f offset (as ++ bs)) : Moves f offset as := by
  rintro before after rfl
  exact h before (after ++ bs) (by simp)

theorem eq (h : Moves f offset (as ++ bs)) :
    f (offset + byteWidth as) = f offset + byteWidth (crlf as) :=
  h as bs rfl

theorem right (h : Moves f offset (as ++ bs)) : Moves f (offset + byteWidth as) bs := by
  rintro before after rfl
  have hBoth := h (as ++ before) after (by simp)
  rw [Text.byteWidth_append, Text.crlf_append, Text.byteWidth_append] at hBoth
  rw [h.eq, Nat.add_assoc, Nat.add_assoc]
  exact hBoth

theorem of_standsAt {source text : List Char} (h : Moves f 0 source)
    (hText : StandsAt source text offset) : Moves f offset text := by
  obtain ⟨before, after, rfl, rfl⟩ := hText
  simpa using h.left.right

end Moves

/-! ## Comments -/

namespace DocComment

variable {f : Nat → Nat} {offset : Nat}

theorem scanArguments_crlf {cs : List Char} (h : Moves f offset cs) :
    scanArguments (f offset) (crlf cs) =
      (scanArguments offset cs).map (·.mapPositions (.mapByte f)) := by
  induction lineWords cs generalizing offset with
  | @ending blanks tail hBlanks hTail =>
    have hRun := run_inlineBlank_of_ending hBlanks hTail
    obtain ⟨hSelf, -⟩ := hRun.crlf_of_not (by decide) (by decide)
    -- the line ends at its carriage return now, where it ended at its line feed
    have hTail' : ∀ c ∈ (crlf tail).head?, isLineBreak c = true := by
      intro c hc
      rw [Text.head?_crlf] at hc
      split at hc
      · obtain rfl : '\r' = c := by simpa using hc
        rfl
      · exact hTail c hc
    rw [Text.crlf_append, hSelf, scanArguments_ending hBlanks hTail,
      scanArguments_ending hBlanks hTail']
    rfl
  | @word blanks word rest hBlanks hNe hWord _ ih =>
    obtain ⟨hBlanksSelf, -⟩ :=
      (run_inlineBlank_of_word hBlanks hNe hWord).crlf_of_not (by decide) (by decide)
    obtain ⟨hWordSelf, hWord'⟩ := hWord.crlf_of_not (by decide) (by decide)
    have hStart := h.eq
    have hStop := h.right.eq
    rw [hBlanksSelf] at hStart
    rw [hWordSelf, hStart] at hStop
    rw [Text.crlf_append, Text.crlf_append, hBlanksSelf, hWordSelf,
      scanArguments_word hBlanks hNe hWord', scanArguments_word hBlanks hNe hWord, List.map_cons,
      Argument.mapPositions_ofWord, Span.map_mapByte_ofBytes, hStart, hStop]
    have hRest := ih h.right.right
    rw [hStop] at hRest
    rw [hRest]

theorem scanTag?_crlf {content : List Char} (h : Moves f offset content) :
    scanTag? (f offset) (crlf content) =
      (scanTag? offset content).map (·.mapPositions (.mapByte f)) := by
  rcases content_cases content with ⟨letters, rest, rfl, hNe, hLetters⟩ | ⟨rest, rfl, hNone⟩ | hNone
  · obtain ⟨hSelf, hLetters'⟩ := hLetters.crlf_of_not (by decide) (by decide)
    rw [← List.cons_append] at h
    have hName := h.eq
    rw [crlf_cons (by decide), hSelf] at hName
    rw [crlf_cons (by decide), Text.crlf_append, hSelf, scanTag?_letters hNe hLetters',
      scanTag?_letters hNe hLetters, Option.map_some, tagAt_map hName (scanArguments_crlf h.right)]
  · rw [crlf_cons (by decide), scanTag?_no_letters hNone,
      scanTag?_no_letters (hNone.crlf_of_not (by decide) (by decide)).2]
    rfl
  · rw [scanTag?_no_sign hNone, scanTag?_no_sign]
    · rfl
    · rw [Ne, Text.head?_crlf_eq_iff (by decide) (by decide)]
      exact hNone

theorem lineMargin_crlf (line : List Char) :
    lineMargin (crlf line) = lineMargin line ∧ crlf (lineMargin line) = lineMargin line ∧
      lineContent (crlf line) = crlf (lineContent line) := by
  obtain ⟨blanks, afterBlanks, rfl, hBlanks⟩ := exists_run isInlineBlank line
  obtain ⟨stars, afterStars, rfl, hStars⟩ := exists_run (· == '*') afterBlanks
  obtain ⟨inner, content, rfl, hInner⟩ := exists_run isInlineBlank afterStars
  obtain ⟨hBlanksSelf, hBlanks'⟩ := hBlanks.crlf_of_not (by decide) (by decide)
  obtain ⟨hStarsSelf, hStars'⟩ := hStars.crlf_of_not (by decide) (by decide)
  obtain ⟨hInnerSelf, hInner'⟩ := hInner.crlf_of_not (by decide) (by decide)
  simp only [Text.crlf_append, hBlanksSelf, hStarsSelf, hInnerSelf] at hBlanks' hStars' ⊢
  obtain ⟨hMargin, hContent⟩ := lineMargin_of_runs hBlanks hStars hInner
  obtain ⟨hMargin', hContent'⟩ := lineMargin_of_runs hBlanks' hStars' hInner'
  rw [hMargin, hMargin', hContent, hContent', Text.crlf_append, Text.crlf_append, hBlanksSelf,
    hStarsSelf, hInnerSelf]
  exact ⟨rfl, rfl, rfl⟩

theorem scanLine?_crlf {line : List Char} (h : Moves f offset line) :
    scanLine? (f offset) (crlf line) =
      (scanLine? offset line).map (·.mapPositions (.mapByte f)) := by
  obtain ⟨hMargin, hSelf, hContent⟩ := lineMargin_crlf line
  rw [← lineMargin_append_lineContent line] at h
  have hStart := h.eq
  rw [hSelf] at hStart
  have hTag := scanTag?_crlf h.right
  rw [hStart] at hTag
  rw [scanLine?, hMargin, hContent]
  exact hTag

theorem scanLines_crlf {ls : List (List Char)} (h : Moves f offset ls.flatten) :
    scanLines (f offset) (ls.map crlf) =
      (scanLines offset ls).map (·.mapPositions (.mapByte f)) := by
  induction ls generalizing offset with
  | nil => rfl
  | cons line ls ih =>
    rw [List.flatten_cons] at h
    rw [List.map_cons, scanLines, scanLines, List.map_append, scanLine?_crlf h.left,
      Option.toList_map, ← h.eq, ih h.right]

theorem lines_crlf (cs : List Char) : lines (crlf cs) = (lines cs).map crlf := by
  fun_induction lines cs with
  | case1 => rfl
  | case2 cs ih =>
    have hFeed : ∀ cs, lines ('\r' :: '\n' :: cs) = ['\r', '\n'] :: lines cs := by
      intro cs
      simp [lines]
    rw [Text.crlf_feed, hFeed, ih]
    rfl
  | case3 c cs hc hNil ih =>
    rw [hNil] at ih
    simp [crlf_cons hc, lines, ih]
  | case4 c cs hc line rest hCons ih =>
    rw [hCons] at ih
    simp [crlf_cons hc, lines, ih]

theorem body?_crlf (text : List Char) : body? (crlf text) = (body? text).map crlf := by
  have hOpening : ∀ c ∈ ['/', '*', '*'], c ≠ '\r' ∧ c ≠ '\n' := by simp
  cases hBody : body? text with
  | some body =>
    obtain ⟨hLast, n, rfl⟩ := body?_eq_some_iff.mp hBody
    have hStars : crlf (List.replicate n '*') = List.replicate n '*' := by
      apply Text.crlf_eq_self
      intro hMem
      exact absurd (List.eq_of_mem_replicate hMem) (by decide)
    refine body?_eq_some_iff.mpr ⟨?_, n, ?_⟩
    · rw [Text.getLast?_crlf]
      exact hLast
    · rw [crlf_cons (by decide), crlf_cons (by decide), crlf_cons (by decide), Text.crlf_append,
        Text.crlf_append, hStars]
      rfl
  | none =>
    cases hBody' : body? (crlf text) with
    | none => rfl
    | some body =>
      -- the new text has both delimiters, and so has the old one
      obtain ⟨-, n, hText⟩ := body?_eq_some_iff.mp hBody'
      obtain ⟨inner, rfl, hInner⟩ := Text.crlf_eq_append hOpening hText
      have hEnd : crlf inner = body ++ List.replicate n '*' ++ ['*'] ++ ['/'] := by
        rw [← hInner]
        simp
      have hSlash : '/' ≠ '\n' := by decide
      have hStar : '*' ≠ '\n' := by decide
      obtain ⟨inner, rfl, hStars⟩ := Text.crlf_eq_concat hSlash hEnd
      obtain ⟨inner, rfl, -⟩ := Text.crlf_eq_concat hStar hStars.symm
      rw [List.append_assoc] at hBody
      exact absurd hBody (body?_closed_ne_none inner)

end DocComment

/-! ## Code -/

namespace Php

variable {f : Nat → Nat} {offset : Nat}

theorem headLexemes_space {run rest : List Char} (h : Run isCodeSpace run rest) (offset : Nat) :
    headLexemes offset (run ++ rest) = headLexemes (offset + byteWidth run) rest := by
  cases run with
  | nil => rfl
  | cons c run =>
    have hRun : Run isCodeSpace run rest := ⟨fun d hd => h.all d (List.mem_cons_of_mem _ hd), h.stops⟩
    exact headLexemes_trivia (Scanned.space (h.all c (by simp)) hRun).leads offset

/-- A carriage return before code is passed over. -/
theorem headLexemes_return (cs : List Char) (offset : Nat) :
    headLexemes offset ('\r' :: cs) = headLexemes (offset + 1) cs := by
  obtain ⟨run, rest, rfl, hRun⟩ := exists_run isCodeSpace cs
  have hAll : Run isCodeSpace (['\r'] ++ run) rest := .append (List.forall_mem_singleton.mpr rfl) hRun
  rw [headLexemes_space hRun, Nat.add_assoc]
  exact headLexemes_space hAll offset

theorem headLexemes_crlf {code : List Char} (h : Moves f offset code) :
    headLexemes (f offset) (crlf code) = (headLexemes offset code).map (·.map f) := by
  induction code using leads_induction generalizing offset with
  | nil => simp [headLexemes]
  | token token taken rest hLeads ih =>
    have hRest := ih rest (Nat.le_refl _) h.right
    have hStop := h.eq
    rcases hLeads.crlf with hLeads' | ⟨rfl, more, rfl, hLeads'⟩
    · rw [Text.crlf_append]
      by_cases hTrivia : token = .trivia
      · subst hTrivia
        rw [headLexemes_trivia hLeads', headLexemes_trivia hLeads, ← hStop, hRest]
      · cases hHead : token.continuesHead with
        | true =>
          rw [headLexemes_continue hLeads' hHead, headLexemes_continue hLeads hHead, ← hStop, hRest]
          rfl
        | false =>
          rw [headLexemes_last hLeads' hTrivia hHead, headLexemes_last hLeads hTrivia hHead, ← hStop]
          rfl
    · -- a line comment has taken the carriage return along, which is passed over either way
      have hCode : crlf (taken ++ '\n' :: more) =
          crlf taken ++ ['\r'] ++ '\n' :: crlf more := by
        simp
      have hReturn : byteWidth ['\r'] = 1 := rfl
      rw [hCode, headLexemes_trivia hLeads', headLexemes_trivia hLeads, Text.byteWidth_append, hReturn,
        ← Nat.add_assoc, ← headLexemes_return, ← hStop]
      exact hRest

theorem findOwner_crlf {code : List Char} (h : Moves f offset code) :
    findOwner (f offset) (crlf code) = (findOwner offset code).mapPositions (.mapByte f) := by
  rw [findOwner, headLexemes_crlf h]
  exact ownerOf_map f offset {} _

/-- A comment in the text with carriage returns. -/
def RawComment.crlf (f : Nat → Nat) (raw : RawComment) : RawComment :=
  ⟨f raw.start, Text.crlf raw.text, Text.crlf raw.following⟩

theorem codeComments_crlf {code : List Char} (h : Moves f offset code) :
    codeComments (f offset) (crlf code) = (codeComments offset code).map (·.crlf f) := by
  induction code using leads_induction generalizing offset with
  | nil => simp [codeComments]
  | token token taken rest hLeads ih =>
    have hStop := h.eq
    rcases hLeads.crlf with hLeads' | ⟨rfl, more, rfl, hLeads'⟩
    · rw [Text.crlf_append]
      by_cases hDoc : token = .docComment
      · subst hDoc
        rw [codeComments_docComment hLeads', codeComments_docComment hLeads, ← hStop,
          ih rest (Nat.le_refl _) h.right]
        rfl
      · by_cases hClose : token = .closeTag
        · subst hClose
          obtain ⟨html, code, rfl, hHtml⟩ := exists_cutHtml rest
          have hHtml' := cutHtml_crlf (html ++ code)
          rw [hHtml, Text.crlf_append] at hHtml'
          rw [Text.crlf_append] at hLeads' ⊢
          rw [codeComments_closeTag hLeads' hHtml', codeComments_closeTag hLeads hHtml, ← hStop,
            ← h.right.eq]
          exact ih code (by simp) h.right.right
        · rw [codeComments_skip hLeads' hDoc hClose, codeComments_skip hLeads hDoc hClose, ← hStop]
          exact ih rest (Nat.le_refl _) h.right
    · -- as in a head, it does not matter which token the carriage return belongs to
      have hCode : crlf (taken ++ '\n' :: more) =
          crlf taken ++ ['\r'] ++ '\n' :: crlf more := by
        simp
      have hPlain : PlainBefore '\r' ('\n' :: crlf more) := plainBefore_of_notMem (by decide) _
      have hReturn : byteWidth ['\r'] = '\r'.utf8Size := rfl
      rw [hCode, codeComments_skip hLeads' (by simp) (by simp),
        codeComments_skip hLeads (by simp) (by simp), Text.byteWidth_append, hReturn, ← Nat.add_assoc,
        ← codeComments_plain hPlain, ← hStop]
      exact ih _ (Nat.le_refl _) h.right

theorem RawComment.item?_crlf {raw : RawComment} (hText : Moves f raw.start raw.text)
    (hFollowing : Moves f raw.stop raw.following) :
    (raw.crlf f).item? = raw.item?.map (·.mapPositions (.mapByte f)) := by
  have hStop : f raw.stop = f raw.start + byteWidth (Text.crlf raw.text) :=
    hText raw.text [] (by simp)
  have hOwner : findOwner (raw.crlf f).stop (raw.crlf f).following =
      (findOwner raw.stop raw.following).mapPositions (.mapByte f) := by
    rw [← findOwner_crlf hFollowing, hStop]
    rfl
  have hSpan : Span.ofBytes (f raw.start) (f raw.start + byteWidth (Text.crlf raw.text)) =
      (Span.ofBytes raw.start (raw.start + byteWidth raw.text)).map (.mapByte f) := by
    rw [← hStop]
    rfl
  unfold RawComment.item? DocComment.parse
  rw [hOwner]
  dsimp only [RawComment.crlf]
  rw [DocComment.body?_crlf]
  cases hBody : DocComment.body? raw.text with
  | none =>
    rw [hSpan]
    rfl
  | some body =>
    obtain ⟨-, n, hRaw⟩ := DocComment.body?_eq_some_iff.mp hBody
    have hLines : Moves f (raw.start + 3) (DocComment.lines body).flatten := by
      rw [DocComment.lines_flatten]
      have hSplit : raw.text = ['/', '*', '*'] ++ (body ++ (List.replicate n '*' ++ ['*', '/'])) := by
        simp [hRaw]
      rw [hSplit] at hText
      exact hText.right.left
    have hStart : f raw.start + 3 = f (raw.start + 3) := by
      rw [hRaw] at hText
      exact (hText ['/', '*', '*'] _ rfl).symm
    dsimp only [Option.map_some]
    rw [DocComment.lines_crlf, hStart, DocComment.scanLines_crlf hLines, List.isEmpty_map, hSpan]
    split
    · rfl
    · rfl

theorem docComments_crlf {source : List Char} (h : Moves f 0 source) (hZero : f 0 = 0) :
    docComments (Text.crlf source) = (docComments source).map (·.crlf f) := by
  obtain ⟨html, code, rfl, hHtml⟩ := exists_cutHtml source
  have hHtml' := cutHtml_crlf (html ++ code)
  rw [hHtml, Text.crlf_append] at hHtml'
  have hCode := codeComments_crlf h.right
  rw [h.eq, hZero, Nat.zero_add, Nat.zero_add] at hCode
  rw [Text.crlf_append, docComments_of_cutHtml hHtml', docComments_of_cutHtml hHtml]
  exact hCode

/-- The items of a text with carriage returns are those of the text, moved. -/
theorem documentedItems_crlf {source : List Char} (h : Moves f 0 source) (hZero : f 0 = 0) :
    documentedItems (Text.crlf source) =
      (documentedItems source).map (·.mapPositions (.mapByte f)) := by
  rw [documentedItems, documentedItems, docComments_crlf h hZero, List.filterMap_map,
    List.map_filterMap]
  apply List.filterMap_congr
  intro raw hRaw
  obtain ⟨hText, hFollowing⟩ := docComments_standsAt hRaw
  exact RawComment.item?_crlf (h.of_standsAt hText) (h.of_standsAt hFollowing)

end Php

end TagLint
