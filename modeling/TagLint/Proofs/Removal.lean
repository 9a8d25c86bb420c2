import TagLint.Proofs.Agreement
import TagLint.Proofs.ArgumentRemoval
import TagLint.Proofs.OwnerHead

/-!
# Removing an argument from a source

A fix deletes the bytes of one argument. The comment that holds the argument stays a comment, the
code before it reads as before up to its opening, and the code behind it only moves. So the items of
the new source are the old ones, without the deleted argument.

* `items_before`, `items_behind`: the items of the code before and behind the changed comment.
* `failed_last`: only the last item can be a comment that was not read.
* `documentedItems_remove`: the result for every argument of every item.
-/

namespace TagLint

open Text (byteWidth slice?)

/-- The source without the bytes of a span, if the span fits. -/
def Span.remove? (source : List Char) (s : Span) : Option (List Char) := do
  let before ← slice? source 0 s.start.utf8
  let after ← slice? source s.stop.utf8 (byteWidth source)
  return before ++ after

theorem Span.remove?_ofBytes (before text after : List Char) :
    (Span.ofBytes (byteWidth before) (byteWidth before + byteWidth text)).remove?
      (before ++ (text ++ after)) = some (before ++ after) := by
  have hBefore : StandsAt (before ++ (text ++ after)) before 0 := ⟨[], text ++ after, rfl, rfl⟩
  have hAfter : StandsAt (before ++ (text ++ after)) after (byteWidth before + byteWidth text) :=
    ⟨before ++ text, [], by simp, by simp⟩
  have hFirst := hBefore.slice?_eq
  have hSecond := hAfter.slice?_eq
  have hWidth : byteWidth (before ++ (text ++ after)) =
      byteWidth before + byteWidth text + byteWidth after := by
    simp [Nat.add_assoc]
  rw [Nat.zero_add] at hFirst
  simp only [remove?, Span.ofBytes, Position.ofByte, hFirst, Option.bind_eq_bind, Option.bind_some]
  rw [hWidth, hSecond]
  rfl

namespace Php

/-! ## Items without places -/

/-- The items that comments make, without places. -/
def unplacedItems (raws : List RawComment) : List DocumentedItem :=
  (raws.filterMap (·.item?)).map (·.mapPositions .forget)

theorem unplacedItems_append (raws raws' : List RawComment) :
    unplacedItems (raws ++ raws') = unplacedItems raws ++ unplacedItems raws' := by
  simp [unplacedItems]

theorem unplacedItems_cons (raw : RawComment) (raws : List RawComment) :
    unplacedItems (raw :: raws) =
      (raw.item?.map (·.mapPositions .forget)).toList ++ unplacedItems raws := by
  unfold unplacedItems
  cases hItem : raw.item? with
  | none => simp [hItem]
  | some item => simp [hItem]

/-- What a comment says does not depend on its place, if the same head follows it. -/
theorem item?_congr {raw raw' : RawComment} (hText : raw.text = raw'.text)
    (hHead : (headLexemes raw.stop raw.following).map (·.token) =
      (headLexemes raw'.stop raw'.following).map (·.token)) :
    raw.item?.map (·.mapPositions .forget) = raw'.item?.map (·.mapPositions .forget) := by
  have hOwner := findOwner_congr hHead
  unfold RawComment.item? DocComment.parse
  rw [hText]
  dsimp only
  cases DocComment.body? raw'.text with
  | none => rfl
  | some body =>
    have hTags := DocComment.scanLines_forget (DocComment.lines body) (raw.start + 3) (raw'.start + 3)
    have hEmpty := congrArg List.isEmpty hTags
    rw [List.isEmpty_map, List.isEmpty_map] at hEmpty
    dsimp only
    rw [hEmpty]
    split
    · rfl
    · simp only [Option.map_some, DocumentedItem.mapPositions, DocComment.mapPositions, hOwner, hTags]
      rfl

/-! ## The code behind the comment -/

theorem headTokens_offset (code : List Char) (offset offset' : Nat) :
    (headLexemes offset code).map (·.token) = (headLexemes offset' code).map (·.token) := by
  induction code using leads_induction generalizing offset offset' with
  | nil => simp [headLexemes]
  | token token taken rest hLeads ih =>
    by_cases hTrivia : token = .trivia
    · subst hTrivia
      rw [headLexemes_trivia hLeads, headLexemes_trivia hLeads]
      exact ih rest (Nat.le_refl _) _ _
    · cases hHead : token.continuesHead with
      | true =>
        rw [headLexemes_continue hLeads hHead, headLexemes_continue hLeads hHead]
        exact congrArg (token :: ·) (ih rest (Nat.le_refl _) _ _)
      | false =>
        rw [headLexemes_last hLeads hTrivia hHead, headLexemes_last hLeads hTrivia hHead]
        rfl

/-- Where a code stands does not matter to what its comments say. -/
theorem items_behind (code : List Char) (offset offset' : Nat) :
    unplacedItems (codeComments offset code) = unplacedItems (codeComments offset' code) := by
  induction code using leads_induction generalizing offset offset' with
  | nil => simp [codeComments]
  | token token taken rest hLeads ih =>
    by_cases hDoc : token = .docComment
    · subst hDoc
      rw [codeComments_docComment hLeads, codeComments_docComment hLeads, unplacedItems_cons,
        unplacedItems_cons, ih rest (Nat.le_refl _)]
      congr 2
      exact item?_congr rfl (headTokens_offset rest _ _)
    · by_cases hClose : token = .closeTag
      · subst hClose
        obtain ⟨html, code, rfl, hHtml⟩ := exists_cutHtml rest
        rw [codeComments_closeTag hLeads hHtml, codeComments_closeTag hLeads hHtml]
        exact ih code (by simp) _ _
      · rw [codeComments_skip hLeads hDoc hClose, codeComments_skip hLeads hDoc hClose]
        exact ih rest (Nat.le_refl _) _ _

/-! ## The code before the comment -/

/-- The comments before a doc comment are found, with the same words, whatever that comment says. -/
theorem items_before {before rest rest' : List Char} (h : Reads before rest)
    (hDoc : StartsWithDoc rest) (hDoc' : StartsWithDoc rest') (offset : Nat) :
    ∃ pre pre', codeComments offset (before ++ rest) =
        pre ++ codeComments (offset + byteWidth before) rest ∧
      codeComments offset (before ++ rest') =
        pre' ++ codeComments (offset + byteWidth before) rest' ∧
      unplacedItems pre = unplacedItems pre' := by
  obtain ⟨pre, pre', hPre, hPre', hSame⟩ := comments_before h (hDoc.agreeToSlash hDoc') offset
  refine ⟨pre, pre', hPre, hPre', ?_⟩
  clear hPre hPre'
  induction hSame with
  | nil => rfl
  | @cons raw raw' pre pre' hRaw _ ih =>
    obtain ⟨hStart, hText, more, hMore, hFollowing, hFollowing'⟩ := hRaw
    have hStop : raw.stop = raw'.stop := by rw [RawComment.stop, RawComment.stop, hStart, hText]
    rw [unplacedItems_cons, unplacedItems_cons, ih]
    congr 2
    apply item?_congr hText
    rw [hFollowing, hFollowing', hStop]
    exact headTokens_congr hMore hDoc hDoc' _

/-! ## Comments that were not read -/

/-- Only the last item, if any, is a comment that could not be read. -/
def FailsLast (items : List DocumentedItem) : Prop :=
  ∀ pre e post, items = pre ++ .failed e :: post → post = []

/-- A comment that cannot be read has no end, so no code follows it. -/
theorem following_eq_nil {raw : RawComment} {e : Error}
    (hLeads : Token.docComment.Leads raw.text raw.following) (h : raw.item? = some (.failed e)) :
    raw.following = [] := by
  unfold RawComment.item? at h
  split at h
  · split at h
    · cases h
    · cases h
  · rename_i hParse
    obtain ⟨hBody, -⟩ := DocComment.parse_eq_error_iff.mp hParse
    obtain ⟨inner, hText, ⟨body, rfl, -⟩ | ⟨hNil, -⟩⟩ := exists_of_docComment_leads hLeads
    · rw [hText] at hBody
      exact absurd hBody (DocComment.body?_closed_ne_none body)
    · exact hNil

theorem failed_last (source : List Char) : FailsLast (documentedItems source) := by
  intro pre e post h
  obtain ⟨raws, rest, hRaws, -, hRest⟩ := List.filterMap_eq_append_iff.mp h
  obtain ⟨skipped, raw, after, rfl, -, hItem, rfl⟩ := List.filterMap_eq_cons_iff.mp hRest
  rw [← List.append_assoc] at hRaws
  obtain ⟨before, -, -, hLeads, -, rfl⟩ := exists_reads hRaws
  rw [following_eq_nil hLeads hItem]
  simp [codeComments]

/-! ## The changed comment -/

/-- Deleting an argument makes no new end of its comment. -/
theorem docComment_leads_remove {before word after rest : List Char} (hBefore : before ≠ [])
    (hLast : ∀ c ∈ before.getLast?, c ≠ '*')
    (h : Token.docComment.Leads
      ('/' :: '*' :: '*' :: (before ++ (word ++ (after ++ ['*', '/'])))) rest) :
    Token.docComment.Leads ('/' :: '*' :: '*' :: (before ++ (after ++ ['*', '/']))) rest := by
  obtain ⟨inner, hText, hCases⟩ := exists_of_docComment_leads h
  obtain rfl : before ++ (word ++ (after ++ ['*', '/'])) = inner := by simpa using hText
  have hOpen : ¬ ['*', '/'] <:+: '*' :: (before ++ (word ++ after)) := by
    rcases hCases with ⟨body, hBody, hEnd⟩ | ⟨-, hEnd⟩
    · have hBoth : before ++ (word ++ after) ++ ['*', '/'] = body ++ ['*', '/'] := by
        rw [← hBody]
        simp
      rw [List.append_cancel_right hBoth]
      exact hEnd
    · refine absurd ⟨'*' :: (before ++ (word ++ after)), [], ?_⟩ hEnd
      simp
  have hOpen' : ¬ ['*', '/'] <:+: '*' :: (before ++ after) := by
    intro hInfix
    rw [← List.cons_append] at hInfix
    rcases pair_infix_append hInfix with hInfix | hInfix | ⟨hStar, -⟩
    · exact hOpen (hInfix.trans ⟨[], word ++ after, by simp⟩)
    · exact hOpen (hInfix.trans ⟨'*' :: (before ++ word), [], by simp⟩)
    · rw [← List.singleton_append, Text.getLast?_append_of_ne_nil _ hBefore] at hStar
      exact hLast _ hStar rfl
  have hLeads := docComment_leads_closed hOpen' rest
  rw [List.append_assoc] at hLeads
  exact hLeads

theorem item?_eq_commented_iff {raw : RawComment} {owner : Declaration} {comment : DocComment} :
    raw.item? = some (.commented owner comment) ↔
      DocComment.parse raw.text raw.start = .ok comment ∧ comment.tags ≠ [] ∧
        owner = findOwner raw.stop raw.following := by
  unfold RawComment.item?
  cases DocComment.parse raw.text raw.start with
  | error e => simp
  | ok found =>
    dsimp only
    split
    · rename_i hEmpty
      simp only [List.isEmpty_iff] at hEmpty
      constructor
      · intro h
        cases h
      · rintro ⟨hFound, hTags, -⟩
        cases hFound
        exact absurd hEmpty hTags
    · rename_i hEmpty
      simp only [List.isEmpty_iff] at hEmpty
      constructor
      · intro h
        cases h
        exact ⟨rfl, hEmpty, rfl⟩
      · rintro ⟨hFound, -, rfl⟩
        cases hFound
        rfl

/-- The comment without one of its arguments, at the same place before the same code, is an item
without that argument. -/
theorem item?_remove {raw : RawComment} {owner : Declaration} {comment : DocComment}
    {tags tags' : List DocTag} {tag : DocTag} {left right : List Argument} {a : Argument}
    (hLeads : Token.docComment.Leads raw.text raw.following)
    (hItem : raw.item? = some (.commented owner comment))
    (hTags : comment.tags = tags ++ tag :: tags')
    (hArguments : tag.arguments = left ++ a :: right) :
    ∃ before after, raw.text = before ++ (a.word ++ after) ∧
      a.span = .ofBytes (raw.start + byteWidth before)
        (raw.start + byteWidth before + byteWidth a.word) ∧
      Token.docComment.Leads (before ++ after) raw.following ∧
      (RawComment.item? ⟨raw.start, before ++ after, raw.following⟩).map (·.mapPositions .forget) =
        some (DocumentedItem.mapPositions .forget (.commented owner
          { comment with tags := tags ++ { tag with arguments := left ++ right } :: tags' })) := by
  obtain ⟨hParse, -, rfl⟩ := item?_eq_commented_iff.mp hItem
  obtain ⟨before, after, hText, hSpan, hBefore, hLast, hRest⟩ :=
    DocComment.parse_remove hParse hTags hArguments
  obtain ⟨comment', hParse', hSame⟩ := hRest raw.start
  have hNe : comment'.tags ≠ [] := by
    intro hNil
    rw [hNil] at hSame
    simp at hSame
  rw [hText] at hLeads
  refine ⟨'/' :: '*' :: '*' :: before, after ++ ['*', '/'], hText, ?_,
    docComment_leads_remove hBefore hLast hLeads, ?_⟩
  · rw [hSpan]
    have hOpening : byteWidth ('/' :: '*' :: '*' :: before) = 3 + byteWidth before := by
      simp only [Text.byteWidth_cons]
      have hSlash : '/'.utf8Size = 1 := rfl
      have hStar : '*'.utf8Size = 1 := rfl
      omega
    rw [hOpening, ← Nat.add_assoc]
  · let raw' : RawComment := ⟨raw.start, '/' :: '*' :: '*' :: before ++ (after ++ ['*', '/']),
      raw.following⟩
    have hItem' : raw'.item? = some (.commented (findOwner raw'.stop raw.following) comment') :=
      item?_eq_commented_iff.mpr ⟨hParse', hNe, rfl⟩
    have hOwner := findOwner_congr (headTokens_offset raw.following raw'.stop raw.stop)
    rw [hItem', Option.map_some]
    simp only [DocumentedItem.mapPositions, DocComment.mapPositions, hOwner, hSame]
    rfl

/-! ## The whole source -/

/-- Deleting the bytes of an argument leaves every item as it was, but for that argument; and only
the last item can be a comment that was not read, before and after. -/
theorem documentedItems_remove {source : List Char} {pre post : List DocumentedItem}
    {owner : Declaration} {comment : DocComment} {tags tags' : List DocTag} {tag : DocTag}
    {left right : List Argument} {a : Argument}
    (hItems : documentedItems source = pre ++ .commented owner comment :: post)
    (hTags : comment.tags = tags ++ tag :: tags')
    (hArguments : tag.arguments = left ++ a :: right) :
    ∃ source', a.span.remove? source = some source' ∧
      (documentedItems source').map (·.mapPositions .forget) =
        (pre ++ .commented owner
          { comment with tags := tags ++ { tag with arguments := left ++ right } :: tags' }
          :: post).map (·.mapPositions .forget) ∧
      FailsLast (documentedItems source) ∧ FailsLast (documentedItems source') := by
  obtain ⟨raws, rest, hRaws, rfl, hRest⟩ := List.filterMap_eq_append_iff.mp hItems
  obtain ⟨skipped, raw, after, rfl, hSkipped, hItem, rfl⟩ := List.filterMap_eq_cons_iff.mp hRest
  obtain ⟨html, code, rfl, hHtml⟩ := exists_cutHtml source
  rw [← List.append_assoc, docComments_of_cutHtml hHtml] at hRaws
  obtain ⟨before, rfl, hReads, hLeads, hStart, rfl⟩ := exists_reads hRaws
  obtain ⟨textBefore, textAfter, hText, hSpan, hLeads', hItem'⟩ :=
    item?_remove hLeads hItem hTags hArguments
  have hDoc : StartsWithDoc (raw.text ++ raw.following) := ⟨_, _, rfl, hLeads⟩
  have hDoc' : StartsWithDoc (textBefore ++ textAfter ++ raw.following) := ⟨_, _, rfl, hLeads'⟩
  have hAgree := (hDoc.agreeToSlash hDoc').append_left before
  obtain ⟨found, found', hFound, hFound', hSame⟩ := items_before hReads hDoc hDoc' (byteWidth html)
  refine ⟨html ++ (before ++ (textBefore ++ textAfter ++ raw.following)), ?_, ?_, failed_last _,
    failed_last _⟩
  · have hSource : html ++ (before ++ (raw.text ++ raw.following)) =
        (html ++ before ++ textBefore) ++ (a.word ++ (textAfter ++ raw.following)) := by
      simp [hText]
    have hWidth : raw.start + byteWidth textBefore = byteWidth (html ++ before ++ textBefore) := by
      simp [hStart, Nat.add_assoc]
    rw [hSpan, hWidth, hSource, Span.remove?_ofBytes]
    simp
  · have hCut := cutHtml_congr hHtml hAgree
    -- what is found before the comment in the old source is what was found before it
    have hBefore : found = raws ++ skipped := by
      rw [hFound, ← hStart, codeComments_docComment hLeads] at hRaws
      exact List.append_cancel_right hRaws
    have hEmpty : unplacedItems skipped = [] := by
      rw [unplacedItems, List.filterMap_eq_nil_iff.mpr hSkipped, List.map_nil]
    show unplacedItems (docComments _) = _
    rw [docComments_of_cutHtml hCut, hFound', ← hStart, codeComments_docComment hLeads', unplacedItems_append,
      unplacedItems_cons, hItem', ← hSame, hBefore, unplacedItems_append, hEmpty, List.append_nil,
      items_behind raw.following _ raw.stop]
    simp [unplacedItems]

/-- A comment whose first argument is glued to the name of its tag, before it another comment and
behind it one without an end. -/
def gluedSource : List Char :=
  "<?php /** @x a */ $v; /** @y!b c**/ function f() {} /** @z".toList

/-- The tag with the glued argument, with some of its arguments. -/
def gluedTag (arguments : List Argument) : DocTag :=
  { name := "@y", nameSpan := .ofBytes 26 28, span := .ofBytes 26 32, arguments }

/-- The items of that source, with some of the arguments of that tag. -/
def gluedItems (arguments : List Argument) : List DocumentedItem :=
  [.commented ⟨.other, "v", .ofBytes 18 20⟩
      ⟨.ofBytes 6 17, [⟨"@x", .ofBytes 10 12, .ofBytes 10 14, [⟨"a", false, .ofBytes 13 14⟩]⟩]⟩]
    ++ .commented ⟨.function, "f", .ofBytes 36 46⟩ ⟨.ofBytes 22 35, [gluedTag arguments]⟩
    :: [.failed (.malformedComment (.ofBytes 52 58) DocComment.delimitersRequired)]

theorem documentedItems_gluedSource :
    documentedItems gluedSource =
      gluedItems [⟨"b", true, .ofBytes 28 30⟩, ⟨"c", false, .ofBytes 31 32⟩] := by
  decide +kernel

theorem documentedItems_remove_glued :
    ∃ source', Span.remove? gluedSource (.ofBytes 28 30) = some source' ∧
      (documentedItems source').map (·.mapPositions .forget) =
        (gluedItems [⟨"c", false, .ofBytes 31 32⟩]).map (·.mapPositions .forget) ∧
      FailsLast (documentedItems gluedSource) ∧ FailsLast (documentedItems source') :=
  @documentedItems_remove gluedSource _ _ _ _ [] [] _ [] _ ⟨"b", true, .ofBytes 28 30⟩
    documentedItems_gluedSource rfl rfl

end Php

end TagLint
