import Mathlib.Tactic.ByContra
import TagLint.Proofs.Removal
import TagLint.Proofs.SourceOrder

/-!
# Where comments end

A doc comment ends behind the first `*/` that stands behind its `/*`, or with the source if there is
none. The scanner that finds comments and the reader that takes them apart look for this end each in
its own way, one from the front and one from the back. They agree, so a comment cannot be read exactly
if it has no end, and such a comment is the last one.

* `docComment_cases`: a doc comment has a first end behind its opening, or none and nothing follows.
* `docComments_delimited`: how each doc comment starts and ends.
* `item?_of_terminated`, `item?_of_unterminated`: what a doc comment contributes to the items.
* `itemsAt_eq`: the items at the place of a doc comment are what it contributes.
* `documentedItems_unterminated`: which items are failures, and which comments are items.
-/

namespace TagLint

open Text (byteWidth)

/-- A text stands behind another one just where it occurs in what follows that one. -/
theorem standsAt_append_iff {before rest text : List Char} {k : Nat} (h : byteWidth before ≤ k) :
    StandsAt (before ++ rest) text k ↔
      ∃ pre post, rest = pre ++ (text ++ post) ∧ k = byteWidth before + byteWidth pre := by
  constructor
  · rintro ⟨front, post, hSource, rfl⟩
    rw [List.append_assoc] at hSource
    rcases List.append_eq_append_iff.mp hSource with ⟨pre, rfl, hRest⟩ | ⟨more, rfl, hRest⟩
    · exact ⟨pre, post, hRest, by simp⟩
    · -- the widths leave nothing between the two places
      obtain rfl : more = [] := by
        by_contra hNe
        have hPos := Text.byteWidth_pos hNe
        rw [Text.byteWidth_append] at h
        omega
      exact ⟨[], post, hRest.symm, by simp⟩
  · rintro ⟨pre, post, rfl, rfl⟩
    exact ⟨before ++ pre, post, by simp, by simp⟩

namespace Php

/-! ## The end of a comment -/

namespace RawComment

/-- An end of comments stands at the byte offset, behind the opening of this one. -/
def CanEndAt (source : List Char) (raw : RawComment) (k : Nat) : Prop :=
  raw.start + 2 ≤ k ∧ StandsAt source ['*', '/'] k

/-- No end of comments stands before this one. -/
def FirstEnd (source : List Char) (raw : RawComment) (k : Nat) : Prop :=
  raw.CanEndAt source k ∧ ∀ j, raw.CanEndAt source j → k ≤ j

/-- Some end of comments stands behind the opening. -/
def IsTerminated (source : List Char) (raw : RawComment) : Prop :=
  ∃ k, raw.CanEndAt source k

/-- The comment opens as a doc comment does, and it ends right behind the first end of comments or
else with the source. -/
structure Delimited (source : List Char) (raw : RawComment) : Prop where
  standsAt : StandsAt source raw.text raw.start
  opens : ['/', '*', '*'] <+: raw.text
  not_ordinary : ¬ ['/', '*', '*', '/'] <+: raw.text
  stop_of_firstEnd : ∀ k, raw.FirstEnd source k → raw.stop = k + 2
  stop_of_unterminated : ¬ raw.IsTerminated source → raw.stop = byteWidth source

end RawComment

theorem exists_before {source : List Char} {raw : RawComment} (h : raw ∈ docComments source) :
    ∃ before, source = before ++ (raw.text ++ raw.following) ∧ raw.start = byteWidth before ∧
      Token.docComment.Leads raw.text raw.following := by
  obtain ⟨html, code, rfl, hHtml⟩ := exists_cutHtml source
  rw [docComments_of_cutHtml hHtml] at h
  obtain ⟨pre, post, hSplit⟩ := List.append_of_mem h
  obtain ⟨before, rfl, -, hLeads, hStart, -⟩ := exists_reads hSplit
  exact ⟨html ++ before, by simp, by rw [hStart, Text.byteWidth_append], hLeads⟩

theorem canEndAt_iff {before inner : List Char} {raw : RawComment} {k : Nat}
    (hStart : raw.start = byteWidth before) (hText : raw.text = '/' :: '*' :: '*' :: inner) :
    raw.CanEndAt (before ++ (raw.text ++ raw.following)) k ↔
      ∃ pre post, '*' :: (inner ++ raw.following) = pre ++ (['*', '/'] ++ post) ∧
        k = raw.start + 2 + byteWidth pre := by
  have hSource : before ++ (raw.text ++ raw.following) =
      (before ++ ['/', '*']) ++ '*' :: (inner ++ raw.following) := by simp [hText]
  have hWidth : byteWidth (before ++ ['/', '*']) = raw.start + 2 := by
    rw [Text.byteWidth_append, hStart]
    rfl
  rw [hSource, RawComment.CanEndAt, ← hWidth]
  constructor
  · rintro ⟨hBehind, hStands⟩
    exact (standsAt_append_iff hBehind).mp hStands
  · rintro ⟨pre, post, hRest, rfl⟩
    have hBehind := Nat.le_add_right (byteWidth (before ++ ['/', '*'])) (byteWidth pre)
    exact ⟨hBehind, (standsAt_append_iff hBehind).mpr ⟨pre, post, hRest, rfl⟩⟩

/-- An end behind a text without any does not start inside of that text. -/
theorem byteWidth_le_of_end {body rest pre post : List Char} (hBody : ¬ ['*', '/'] <:+: body)
    (h : body ++ '*' :: rest = pre ++ (['*', '/'] ++ post)) : byteWidth body ≤ byteWidth pre := by
  rcases List.append_eq_append_iff.mp h with ⟨more, rfl, -⟩ | ⟨more, rfl, hMore⟩
  · simp
  · match more, hMore with
    | [], _ => simp
    | [c], hMore => simp at hMore
    | c :: d :: more, hMore =>
      obtain ⟨rfl, rfl, -⟩ : '*' = c ∧ '/' = d ∧ _ := by simpa using hMore
      exact absurd ⟨pre, more, by simp⟩ hBody

/-- A doc comment is closed by the first end behind its opening, or there is no end and nothing
follows. -/
theorem docComment_cases {source : List Char} {raw : RawComment} (h : raw ∈ docComments source) :
    ∃ inner, raw.text = '/' :: '*' :: '*' :: inner ∧
      ((∃ body k, inner = body ++ ['*', '/'] ∧ ¬ ['*', '/'] <:+: '*' :: body ∧
          raw.FirstEnd source k ∧ raw.stop = k + 2) ∨
        (raw.following = [] ∧ ¬ ['*', '/'] <:+: '*' :: inner ∧ ¬ raw.IsTerminated source)) := by
  obtain ⟨before, hSource, hStart, hLeads⟩ := exists_before h
  obtain ⟨inner, hText, hCases⟩ := exists_of_docComment_leads hLeads
  refine ⟨inner, hText, ?_⟩
  rw [hSource]
  rcases hCases with ⟨body, rfl, hBody⟩ | ⟨hNil, hInner⟩
  · left
    refine ⟨body, raw.start + 2 + byteWidth ('*' :: body), rfl, hBody, ⟨?_, ?_⟩, ?_⟩
    · exact (canEndAt_iff hStart hText).mpr ⟨'*' :: body, raw.following, by simp, rfl⟩
    · intro k hk
      obtain ⟨pre, post, hRest, rfl⟩ := (canEndAt_iff hStart hText).mp hk
      have hFirst : ('*' :: body) ++ '*' :: '/' :: raw.following = pre ++ (['*', '/'] ++ post) := by
        rw [← hRest]
        simp
      have hLe := byteWidth_le_of_end hBody hFirst
      omega
    · have hParts : raw.text = ['/', '*'] ++ (('*' :: body) ++ ['*', '/']) := by simp [hText]
      have hWidth : byteWidth raw.text = 2 + (byteWidth ('*' :: body) + 2) := by
        rw [hParts, Text.byteWidth_append, Text.byteWidth_append]
        rfl
      rw [RawComment.stop, hWidth]
      omega
  · right
    refine ⟨hNil, hInner, ?_⟩
    rintro ⟨k, hk⟩
    obtain ⟨pre, post, hRest, -⟩ := (canEndAt_iff hStart hText).mp hk
    rw [hNil, List.append_nil] at hRest
    exact hInner ⟨pre, post, by rw [hRest, List.append_assoc]⟩

theorem RawComment.FirstEnd.eq {source : List Char} {raw : RawComment} {j k : Nat}
    (h : raw.FirstEnd source k) (h' : raw.FirstEnd source j) : k = j :=
  Nat.le_antisymm (h.2 j h'.1) (h'.2 k h.1)

theorem docComments_delimited {source : List Char} {raw : RawComment}
    (h : raw ∈ docComments source) : raw.Delimited source := by
  obtain ⟨before, hSource, hStart, -⟩ := exists_before h
  obtain ⟨inner, hText, hCases⟩ := docComment_cases h
  refine ⟨(docComments_standsAt h).1, ⟨inner, hText.symm⟩, ?_, ?_, ?_⟩
  · -- otherwise the star of the opening would close the comment
    rintro ⟨more, hMore⟩
    obtain rfl : '/' :: more = inner := by simpa [hText] using hMore
    rcases hCases with ⟨body, k, hInner, hBody, -, -⟩ | ⟨-, hInner, -⟩
    · cases body with
      | nil => simp at hInner
      | cons c body =>
        obtain rfl : '/' = c := (List.cons.inj hInner).1
        exact hBody ⟨[], body, rfl⟩
    · exact hInner ⟨[], more, rfl⟩
  · intro k hFirst
    rcases hCases with ⟨-, j, -, -, hEnd, hStop⟩ | ⟨-, -, hNone⟩
    · rw [hStop, hEnd.eq hFirst]
    · exact absurd ⟨k, hFirst.1⟩ hNone
  · intro hNone
    rcases hCases with ⟨-, k, -, -, hEnd, -⟩ | ⟨hNil, -, -⟩
    · exact absurd ⟨k, hEnd.1⟩ hNone
    · rw [hSource, hNil, List.append_nil, Text.byteWidth_append, ← hStart, RawComment.stop]

/-! ## What a comment contributes -/

theorem parse_of_terminated {source : List Char} {raw : RawComment} (h : raw ∈ docComments source)
    (hEnd : raw.IsTerminated source) :
    ∃ comment, DocComment.parse raw.text raw.start = .ok comment := by
  obtain ⟨inner, hText, ⟨body, -, rfl, -⟩ | ⟨-, -, hNone⟩⟩ := docComment_cases h
  · cases hParse : DocComment.parse raw.text raw.start with
    | ok comment => exact ⟨comment, rfl⟩
    | error e =>
      obtain ⟨hBody, -⟩ := DocComment.parse_eq_error_iff.mp hParse
      rw [hText] at hBody
      exact absurd hBody (DocComment.body?_closed_ne_none body)
  · exact absurd hEnd hNone

theorem item?_of_terminated {raw : RawComment} {comment : DocComment}
    (h : DocComment.parse raw.text raw.start = .ok comment) :
    raw.item? = if comment.tags = [] then none
      else some (.commented (findOwner raw.stop raw.following) comment) := by
  simp [RawComment.item?, h]

theorem item?_of_unterminated {source : List Char} {raw : RawComment} (h : raw ∈ docComments source)
    (hEnd : ¬ raw.IsTerminated source) :
    raw.item? = some (.failed (.malformedComment (.ofBytes raw.start (byteWidth source))
      DocComment.delimitersRequired)) := by
  have hStop := (docComments_delimited h).stop_of_unterminated hEnd
  have hBody : DocComment.body? raw.text = none := by
    obtain ⟨inner, hText, ⟨-, k, -, -, hFirst, -⟩ | ⟨-, hInner, -⟩⟩ := docComment_cases h
    · exact absurd ⟨k, hFirst.1⟩ hEnd
    · cases hBody : DocComment.body? raw.text with
      | none => rfl
      | some body =>
        obtain ⟨-, n, hClosed⟩ := DocComment.body?_eq_some_iff.mp hBody
        obtain rfl : inner = body ++ List.replicate n '*' ++ ['*', '/'] := by
          simpa [hText] using hClosed
        exact absurd ⟨'*' :: (body ++ List.replicate n '*'), [], by simp⟩ hInner
  have hParse : DocComment.parse raw.text raw.start =
      .error (.malformedComment (.ofBytes raw.start raw.stop) DocComment.delimitersRequired) :=
    DocComment.parse_eq_error_iff.mpr ⟨hBody, rfl⟩
  rw [RawComment.item?, hParse, hStop]

/-! ## The items at a comment -/

/-- The items whose comment stands where this one does. -/
def itemsAt (source : List Char) (raw : RawComment) : List DocumentedItem :=
  (documentedItems source).filter (·.commentSpan = .ofBytes raw.start raw.stop)

theorem commentSpan_of_item? {raw : RawComment} {item : DocumentedItem} (h : raw.item? = some item) :
    item.commentSpan = .ofBytes raw.start raw.stop := by
  rcases raw.item?_cases h with ⟨comment, hParse, rfl⟩ | rfl
  · exact (DocComment.parse_ordered hParse).1
  · rfl

theorem filter_items_elsewhere {raws : List RawComment} {raw : RawComment}
    (h : ∀ other ∈ raws, other.start ≠ raw.start) :
    (raws.filterMap (·.item?)).filter (·.commentSpan = .ofBytes raw.start raw.stop) = [] := by
  rw [List.filter_eq_nil_iff]
  intro item hItem hSpan
  obtain ⟨other, hOther, hRead⟩ := List.mem_filterMap.mp hItem
  rw [decide_eq_true_eq, commentSpan_of_item? hRead] at hSpan
  exact h other hOther (congrArg (·.start.utf8) hSpan)

theorem docComments_apart (source : List Char) :
    (docComments source).Pairwise fun raw raw' => raw.start < raw.stop ∧ raw.stop ≤ raw'.start := by
  have hPairs : (docComments source).Pairwise RawComment.Precedes := codeComments_pairwise _ _
  apply hPairs.imp_of_mem
  intro raw raw' hRaw _ hBefore
  exact ⟨Nat.lt_add_of_pos_right (Text.byteWidth_pos (docComments_text_ne_nil hRaw)), hBefore.1⟩

theorem itemsAt_eq {source : List Char} {raw : RawComment} (h : raw ∈ docComments source) :
    itemsAt source raw = raw.item?.toList := by
  obtain ⟨pre, post, hSplit⟩ := List.append_of_mem h
  have hApart := docComments_apart source
  rw [hSplit, List.pairwise_append, List.pairwise_cons] at hApart
  obtain ⟨-, ⟨hPost, -⟩, hPre⟩ := hApart
  have hBefore : ∀ other ∈ pre, other.start ≠ raw.start := by
    intro other hOther
    have := hPre other hOther raw List.mem_cons_self
    omega
  have hBehind : ∀ other ∈ post, other.start ≠ raw.start := by
    intro other hOther
    have := hPost other hOther
    omega
  have hHere : raw.item?.toList.filter (·.commentSpan = .ofBytes raw.start raw.stop) =
      raw.item?.toList := by
    rw [List.filter_eq_self]
    intro item hItem
    rw [decide_eq_true_eq]
    exact commentSpan_of_item? (Option.mem_toList.mp hItem)
  rw [itemsAt, documentedItems, hSplit, List.filterMap_append, List.filter_append,
    filter_items_elsewhere hBefore, List.nil_append]
  cases hItem : raw.item? with
  | none => rw [List.filterMap_cons_none hItem, filter_items_elsewhere hBehind, Option.toList_none]
  | some item =>
    rw [hItem, Option.toList_some] at hHere
    rw [List.filterMap_cons_some hItem, ← List.singleton_append, List.filter_append, hHere,
      filter_items_elsewhere hBehind, Option.toList_some, List.append_nil]

theorem exists_unterminated {source : List Char} {e : Error}
    (h : .failed e ∈ documentedItems source) :
    ∃ raw ∈ docComments source, ¬ raw.IsTerminated source ∧
      e = .malformedComment (.ofBytes raw.start (byteWidth source)) DocComment.delimitersRequired := by
  obtain ⟨raw, hRaw, hItem⟩ := List.mem_filterMap.mp h
  by_cases hEnd : raw.IsTerminated source
  · obtain ⟨comment, hParse⟩ := parse_of_terminated hRaw hEnd
    rw [item?_of_terminated hParse] at hItem
    split at hItem <;> cases hItem
  · rw [item?_of_unterminated hRaw hEnd] at hItem
    exact ⟨raw, hRaw, hEnd, (DocumentedItem.failed.inj (Option.some.inj hItem)).symm⟩

/-- **Failures come from unterminated comments.** Each doc comment opens with `/**`, but not as
`/**/`, and ends right behind the first `*/` behind its `/*`, or with the source; the comments follow
one another. Some item is a failure exactly if some comment has no end. There is one failure at most;
it is the last item, and it reaches from the opening of its comment to the end of the source. A
comment with an end is read: it is the one item at its place if it has a tag, and otherwise there is
none. Every item stands at the place of some comment. -/
theorem documentedItems_unterminated (source : List Char) :
    (∀ raw ∈ docComments source, raw.Delimited source) ∧
    ((docComments source).Pairwise fun raw raw' => raw.start < raw.stop ∧ raw.stop ≤ raw'.start) ∧
    ((∃ e, .failed e ∈ documentedItems source) ↔
      ∃ raw ∈ docComments source, ¬ raw.IsTerminated source) ∧
    (∀ pre e post, documentedItems source = pre ++ .failed e :: post →
      post = [] ∧ (∀ e', .failed e' ∉ pre) ∧
        ∃ raw ∈ docComments source, ¬ raw.IsTerminated source ∧
          e = .malformedComment (.ofBytes raw.start (byteWidth source))
            DocComment.delimitersRequired) ∧
    (∀ raw ∈ docComments source, raw.IsTerminated source →
      ∃ comment, DocComment.parse raw.text raw.start = .ok comment ∧
        itemsAt source raw = if comment.tags = [] then []
          else [.commented (findOwner raw.stop raw.following) comment]) ∧
    (∀ item ∈ documentedItems source, ∃ raw ∈ docComments source, item ∈ itemsAt source raw) := by
  refine ⟨fun raw hRaw => docComments_delimited hRaw, docComments_apart source, ⟨?_, ?_⟩, ?_, ?_, ?_⟩
  · rintro ⟨e, hFailed⟩
    obtain ⟨raw, hRaw, hEnd, -⟩ := exists_unterminated hFailed
    exact ⟨raw, hRaw, hEnd⟩
  · rintro ⟨raw, hRaw, hEnd⟩
    exact ⟨_, List.mem_filterMap.mpr ⟨raw, hRaw, item?_of_unterminated hRaw hEnd⟩⟩
  · intro pre e post hItems
    refine ⟨failed_last source pre e post hItems, ?_, ?_⟩
    · -- a failure in front would be the last item itself
      intro e' hFailed
      obtain ⟨pre', post', rfl⟩ := List.append_of_mem hFailed
      have hLast := failed_last source pre' e' (post' ++ .failed e :: post) (by simp [hItems])
      simp at hLast
    · exact exists_unterminated (by simp [hItems])
  · intro raw hRaw hEnd
    obtain ⟨comment, hParse⟩ := parse_of_terminated hRaw hEnd
    refine ⟨comment, hParse, ?_⟩
    rw [itemsAt_eq hRaw, item?_of_terminated hParse]
    split <;> rfl
  · intro item hItem
    obtain ⟨raw, hRaw, hRead⟩ := List.mem_filterMap.mp hItem
    exact ⟨raw, hRaw, by rw [itemsAt_eq hRaw, hRead, Option.toList_some, List.mem_singleton]⟩

/-- The first comment is closed, and the second one is not. -/
theorem documentedItems_unterminated_second :
    let source := "<?php /** @a é */ function f(); /** @b".toList
    let first : RawComment := ⟨6, "/** @a é */".toList, " function f(); /** @b".toList⟩
    let second : RawComment := ⟨33, "/** @b".toList, []⟩
    let items : List DocumentedItem := [
      .commented { kind := .function, name := "f", span := .ofBytes 19 29 } {
        span := .ofBytes 6 18
        tags := [{
          name := "@a"
          nameSpan := .ofBytes 10 12
          span := .ofBytes 10 15
          arguments := [{ name := "é", span := .ofBytes 13 15 }] }] },
      .failed (.malformedComment (.ofBytes 33 39) DocComment.delimitersRequired)]
    docComments source = [first, second] ∧ first.IsTerminated source ∧
      ¬ second.IsTerminated source ∧ documentedItems source = items := by
  intro source first second items
  have hComments : docComments source = [first, second] := by decide +kernel
  have hItems : documentedItems source = items := by decide +kernel
  have hFirst : first.IsTerminated source :=
    ⟨16, by decide, "<?php /** @a é ".toList, " function f(); /** @b".toList, rfl, rfl⟩
  obtain ⟨-, -, -, hFailed, -⟩ := documentedItems_unterminated source
  obtain ⟨-, -, raw, hRaw, hEnd, -⟩ := hFailed [_] _ [] hItems
  rw [hComments] at hRaw
  rcases List.mem_pair.mp hRaw with rfl | rfl
  · exact absurd hFirst hEnd
  · exact ⟨hComments, hFirst, hEnd, hItems⟩

end Php

end TagLint
