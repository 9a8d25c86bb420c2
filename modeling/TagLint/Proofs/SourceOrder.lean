import TagLint.Proofs.Agreement
import TagLint.Proofs.SpanFidelity

/-!
# The order of items

Items come in the order of their source. A comment ends before the head of its owner starts, and the
search for that head stops at the next doc comment or close tag at the latest, so the head ends before
the comment of any later item. Inside a comment the tags follow one another, and inside a tag its
arguments do.

* `headLexemes_before_doc`: no token of a head, but a doc comment, reaches behind the next comment.
* `parse_ordered`: the tags of a comment and their arguments follow one another.
* `documentedItems_ordered`, `documentedItems_apart`: the items of a source, each and in pairs.
* `parseSource_ordered`, `parseSource_apart`: the same with full positions.
-/

namespace TagLint

open Text (byteWidth IsBoundary)

/-! ## Heads of declarations -/

namespace Php

theorem InOrder.start_of_mem {source : List Char} {offset : Nat} {xs : List Lexeme}
    (h : InOrder source offset xs) {x : Lexeme} (hx : x ∈ xs) : offset ≤ x.start := by
  induction h with
  | nil => cases hx
  | cons hBehind hOrdered _ _ _ ih =>
    rcases List.mem_cons.mp hx with rfl | hx
    · exact hBehind
    · have := ih hx
      omega

theorem le_ownerOf_start {low anchor : Nat} {s : HeadState} {xs : List Lexeme}
    (hAnchor : low ≤ anchor) (hState : ∀ start ∈ s.start, low ≤ start)
    (h : ∀ x ∈ xs, low ≤ x.start) : low ≤ (ownerOf anchor s xs).span.start.utf8 := by
  induction xs generalizing s with
  | nil => exact hAnchor
  | cons x xs ih =>
    have hStart : low ≤ x.start := h x (by simp)
    have hFirst : low ≤ s.start.getD x.start := by
      cases hs : s.start with
      | none => exact hStart
      | some start => exact hState start hs
    have hNext : ∀ start ∈ some (s.start.getD x.start), low ≤ start := by
      rintro start ⟨⟩
      exact hFirst
    have hRest : ∀ y ∈ xs, low ≤ y.start := by
      intro y hy
      exact h y (List.mem_cons_of_mem _ hy)
    unfold ownerOf
    dsimp only
    split
    · split
      · exact ih hNext hRest
      · exact ih hNext hRest
      · exact hFirst
      · split
        · exact ih hNext hRest
        · exact hStart
    · exact hFirst
    · split
      · exact ih hNext hRest
      · exact hStart
    · exact hAnchor
    · exact hStart
    · exact hStart
    · exact hStart

theorem declare_stop_le {high start stop : Nat} {s : HeadState} {kind : DeclarationKind}
    {xs : List Lexeme} (hStop : stop ≤ high)
    (h : ∀ x ∈ xs, x.token ≠ .docComment → x.start ≤ high ∧ x.stop ≤ high) :
    (declare s kind start stop xs).span.stop.utf8 ≤ high := by
  unfold declare
  dsimp only
  cases hName : declaredName? kind xs with
  | none => exact hStop
  | some found =>
    obtain ⟨name, nameStop⟩ := found
    obtain ⟨x, hx, hWord, rfl⟩ := declaredName?_mem hName
    exact (h x hx (by simp [hWord])).2

/-- A doc comment puts the owner at the anchor, so its own ends do not matter. -/
theorem ownerOf_stop_le {high anchor : Nat} {s : HeadState} {xs : List Lexeme}
    (hAnchor : anchor ≤ high)
    (h : ∀ x ∈ xs, x.token ≠ .docComment → x.start ≤ high ∧ x.stop ≤ high) :
    (ownerOf anchor s xs).span.stop.utf8 ≤ high := by
  induction xs generalizing s with
  | nil => exact hAnchor
  | cons x xs ih =>
    have hFirst := h x (by simp)
    have hRest : ∀ y ∈ xs, y.token ≠ .docComment → y.start ≤ high ∧ y.stop ≤ high := by
      intro y hy
      exact h y (List.mem_cons_of_mem _ hy)
    unfold ownerOf
    dsimp only
    cases hToken : x.token with
    | docComment => exact hAnchor
    | word word =>
      have hEnds := hFirst (by simp [hToken])
      dsimp only
      split
      · exact ih hRest
      · exact ih hRest
      · exact declare_stop_le hEnds.2 hRest
      · split
        · exact ih hRest
        · exact hEnds.2
    | variable_ name => exact (hFirst (by simp [hToken])).2
    | punctuation c =>
      dsimp only
      split
      · exact ih hRest
      · exact (hFirst (by simp [hToken])).1
    | trivia => exact (hFirst (by simp [hToken])).1
    | closeTag => exact (hFirst (by simp [hToken])).1
    | literal => exact (hFirst (by simp [hToken])).1

/-- The search for a head does not run past the next doc comment, nor past a close tag before it. -/
theorem headLexemes_before_doc {before rest : List Char} (h : Reads before rest)
    (hDoc : StartsWithDoc rest) (offset : Nat) :
    ∀ x ∈ headLexemes offset (before ++ rest), x.token ≠ .docComment →
      x.start ≤ offset + byteWidth before ∧ x.stop ≤ offset + byteWidth before := by
  induction h generalizing offset with
  | done =>
    obtain ⟨text, more, rfl, hLeads⟩ := hDoc
    rw [List.nil_append, headLexemes_last hLeads (by simp) rfl]
    intro x hx hToken
    obtain rfl := List.mem_singleton.mp hx
    exact absurd rfl hToken
  | @token token taken more rest hLeads _ _ ih =>
    have hTail := ih hDoc (offset + byteWidth taken)
    rw [List.append_assoc, Text.byteWidth_append, ← Nat.add_assoc]
    intro x hx hToken
    by_cases hTrivia : token = .trivia
    · subst hTrivia
      rw [headLexemes_trivia hLeads] at hx
      exact hTail x hx hToken
    · cases hHead : token.continuesHead with
      | true =>
        rw [headLexemes_continue hLeads hHead] at hx
        rcases List.mem_cons.mp hx with rfl | hx
        · dsimp only
          omega
        · exact hTail x hx hToken
      | false =>
        rw [headLexemes_last hLeads hTrivia hHead] at hx
        obtain rfl := List.mem_singleton.mp hx
        dsimp only
        omega
  | @html taken html more rest hLeads _ _ _ =>
    have hCode : taken ++ (html ++ more) ++ rest = taken ++ (html ++ (more ++ rest)) := by simp
    rw [hCode, headLexemes_last hLeads (by simp) rfl, Text.byteWidth_append]
    intro x hx _
    obtain rfl := List.mem_singleton.mp hx
    dsimp only
    omega

theorem findOwner_stop_le {before rest : List Char} (h : Reads before rest)
    (hDoc : StartsWithDoc rest) (offset : Nat) :
    (findOwner offset (before ++ rest)).span.stop.utf8 ≤ offset + byteWidth before :=
  ownerOf_stop_le (Nat.le_add_right _ _) (headLexemes_before_doc h hDoc offset)

theorem le_findOwner_start {source code : List Char} {offset : Nat}
    (h : StandsAt source code offset) : offset ≤ (findOwner offset code).span.start.utf8 := by
  apply le_ownerOf_start (Nat.le_refl _) (by simp)
  intro x hx
  exact (headLexemes_inOrder h).start_of_mem hx

/-! ## Comments of a code -/

/-- The comment and the head of its owner end before the other comment starts. -/
def RawComment.Precedes (raw raw' : RawComment) : Prop :=
  raw.stop ≤ raw'.start ∧ (findOwner raw.stop raw.following).span.stop.utf8 ≤ raw'.start

theorem codeComments_pairwise (code : List Char) (offset : Nat) :
    (codeComments offset code).Pairwise RawComment.Precedes := by
  induction code using leads_induction generalizing offset with
  | nil => simp [codeComments]
  | token token taken rest hLeads ih =>
    by_cases hDoc : token = .docComment
    · subst hDoc
      rw [codeComments_docComment hLeads]
      refine List.pairwise_cons.mpr ⟨?_, ih rest (Nat.le_refl _) _⟩
      intro raw hRaw
      obtain ⟨pre, post, hSplit⟩ := List.append_of_mem hRaw
      obtain ⟨before, rfl, hReads, hNext, hStart, -⟩ := exists_reads hSplit
      have hOwner := findOwner_stop_le hReads ⟨_, _, rfl, hNext⟩ (offset + byteWidth taken)
      rw [RawComment.Precedes, hStart]
      exact ⟨Nat.le_add_right _ _, hOwner⟩
    · by_cases hClose : token = .closeTag
      · subst hClose
        obtain ⟨html, code, rfl, hHtml⟩ := exists_cutHtml rest
        rw [codeComments_closeTag hLeads hHtml]
        exact ih code (by simp) _
      · rw [codeComments_skip hLeads hDoc hClose]
        exact ih rest (Nat.le_refl _) _

theorem docComments_text_ne_nil {source : List Char} {raw : RawComment}
    (hRaw : raw ∈ docComments source) : raw.text ≠ [] := by
  obtain ⟨html, code, rfl, hHtml⟩ := exists_cutHtml source
  rw [docComments_of_cutHtml hHtml] at hRaw
  obtain ⟨pre, post, hSplit⟩ := List.append_of_mem hRaw
  obtain ⟨-, -, -, hLeads, -, -⟩ := exists_reads hSplit
  exact hLeads.ne_nil

end Php

/-! ## Spans that follow one another -/

/-- The spans stand between two byte offsets, each behind the one before it. -/
inductive Successive : Nat → Nat → List Span → Prop
  | nil {low high : Nat} (h : low ≤ high) : Successive low high []
  | cons {low high : Nat} {s : Span} {ss : List Span} (hBehind : low ≤ s.start.utf8)
      (hOrdered : s.start.utf8 ≤ s.stop.utf8) (hRest : Successive s.stop.utf8 high ss) :
      Successive low high (s :: ss)

namespace Successive

variable {low mid high : Nat} {ss ts : List Span}

theorem le (h : Successive low high ss) : low ≤ high := by
  induction h with
  | nil h => exact h
  | cons hBehind hOrdered _ ih => omega

theorem of_le (h : Successive mid high ss) (hLe : low ≤ mid) : Successive low high ss := by
  cases h with
  | nil h => exact .nil (Nat.le_trans hLe h)
  | cons hBehind hOrdered hRest => exact .cons (Nat.le_trans hLe hBehind) hOrdered hRest

theorem append (h : Successive low mid ss) (h' : Successive mid high ts) :
    Successive low high (ss ++ ts) := by
  induction h with
  | nil h => exact h'.of_le h
  | cons hBehind hOrdered _ ih => exact .cons hBehind hOrdered (ih h')

/-- The last of the spans may bound them all. -/
theorem to_last (h : Successive low high ss) :
    Successive low ((ss.getLast?.map (·.stop.utf8)).getD low) ss ∧
      (ss.getLast?.map (·.stop.utf8)).getD low ≤ high := by
  induction h with
  | nil h => exact ⟨.nil (Nat.le_refl _), h⟩
  | @cons low high s ss hBehind hOrdered _ ih =>
    have hLast : ((s :: ss).getLast?.map (·.stop.utf8)).getD low =
        (ss.getLast?.map (·.stop.utf8)).getD s.stop.utf8 := by
      cases ss with
      | nil => rfl
      | cons t ss => simp [List.getLast?_cons]
    rw [hLast]
    exact ⟨.cons hBehind hOrdered ih.1, ih.2⟩

theorem map {source : List Char} {f : Position → Position} (hf : KeepsBoundaries source f)
    (h : Successive low high ss) (hFits : ∀ s ∈ ss, s.Fits source) :
    Successive low high (ss.map (·.map f)) := by
  induction h with
  | nil h => exact .nil h
  | @cons low high s ss hBehind hOrdered _ ih =>
    have hs := hFits s (by simp)
    have hStart := hf s.start hs.start_isBoundary
    have hStop := hf s.stop hs.stop_isBoundary
    refine .cons ?_ ?_ ?_
    · rwa [Span.map_start, hStart]
    · rwa [Span.map_start, Span.map_stop, hStart, hStop]
    · rw [Span.map_stop, hStop]
      exact ih fun t ht => hFits t (List.mem_cons_of_mem _ ht)

end Successive

/-- The arguments of the tag follow one another inside its span. -/
def DocTag.Ordered (t : DocTag) : Prop :=
  Successive t.span.start.utf8 t.span.stop.utf8 (t.arguments.map (·.span))

namespace DocComment

theorem scanArguments_successive (offset : Nat) (cs : List Char) :
    Successive offset (offset + byteWidth cs) ((scanArguments offset cs).map (·.span)) := by
  induction lineWords cs generalizing offset with
  | ending hBlanks hTail =>
    rw [scanArguments_ending hBlanks hTail]
    exact .nil (Nat.le_add_right _ _)
  | @word blanks word rest hBlanks hNe hWord _ ih =>
    have hWidth : offset + byteWidth (blanks ++ (word ++ rest)) =
        offset + byteWidth blanks + byteWidth word + byteWidth rest := by
      simp [Nat.add_assoc]
    rw [scanArguments_word hBlanks hNe hWord, List.map_cons, Argument.span_ofWord, hWidth]
    exact .cons (Nat.le_add_right _ _) (Nat.le_add_right _ _) (ih _)

theorem scanTag?_ordered {offset : Nat} {content : List Char} {t : DocTag}
    (h : scanTag? offset content = some t) :
    Successive offset (offset + byteWidth content) [t.span] ∧ t.Ordered := by
  rcases content_cases content with ⟨letters, rest, rfl, hNe, hLetters⟩ | ⟨rest, rfl, hNone⟩ | hNone
  · rw [scanTag?_letters hNe hLetters] at h
    obtain rfl := Option.some.inj h
    have hArguments := scanArguments_successive (offset + byteWidth ('@' :: letters)) rest
    obtain ⟨hLast, hBound⟩ := hArguments.to_last
    rw [List.getLast?_map, Option.map_map] at hLast hBound
    have hWidth : byteWidth ('@' :: (letters ++ rest)) = byteWidth ('@' :: letters) + byteWidth rest := by
      rw [← List.cons_append, Text.byteWidth_append]
    rw [hWidth, ← Nat.add_assoc]
    have hStop : offset ≤ (tagAt offset letters rest).span.stop.utf8 :=
      Nat.le_trans (Nat.le_add_right _ _) hLast.le
    exact ⟨.cons (Nat.le_refl _) hStop (.nil hBound), hLast.of_le (Nat.le_add_right _ _)⟩
  · rw [scanTag?_no_letters hNone] at h
    cases h
  · rw [scanTag?_no_sign hNone] at h
    cases h

theorem scanLine?_ordered {offset : Nat} {line : List Char} {t : DocTag}
    (h : scanLine? offset line = some t) :
    Successive offset (offset + byteWidth line) [t.span] ∧ t.Ordered := by
  obtain ⟨hSpan, hArguments⟩ := scanTag?_ordered h
  have hWidth : byteWidth line = byteWidth (lineMargin line) + byteWidth (lineContent line) := by
    rw [← Text.byteWidth_append, lineMargin_append_lineContent]
  rw [hWidth, ← Nat.add_assoc]
  exact ⟨hSpan.of_le (Nat.le_add_right _ _), hArguments⟩

theorem scanLines_ordered (offset : Nat) (ls : List (List Char)) :
    Successive offset (offset + byteWidth ls.flatten) ((scanLines offset ls).map (·.span)) ∧
      ∀ t ∈ scanLines offset ls, t.Ordered := by
  induction ls generalizing offset with
  | nil => exact ⟨.nil (Nat.le_refl _), by simp [scanLines]⟩
  | cons line ls ih =>
    obtain ⟨hRest, hTags⟩ := ih (offset + byteWidth line)
    rw [scanLines, List.map_append, List.flatten_cons, Text.byteWidth_append, ← Nat.add_assoc]
    cases hTag : scanLine? offset line with
    | none =>
      rw [Option.toList_none, List.map_nil, List.nil_append]
      exact ⟨hRest.of_le (Nat.le_add_right _ _), by simpa using hTags⟩
    | some t =>
      obtain ⟨hSpan, hOrdered⟩ := scanLine?_ordered hTag
      refine ⟨hSpan.append hRest, ?_⟩
      intro u hu
      rcases List.mem_cons.mp hu with rfl | hu
      · exact hOrdered
      · exact hTags u hu

theorem parse_ordered {text : List Char} {offset : Nat} {comment : DocComment}
    (h : parse text offset = .ok comment) :
    comment.span = .ofBytes offset (offset + byteWidth text) ∧
      Successive offset (offset + byteWidth text) (comment.tags.map (·.span)) ∧
      ∀ t ∈ comment.tags, t.Ordered := by
  obtain ⟨body, hBody, rfl⟩ := exists_body_of_parse h
  obtain ⟨hTags, hOrdered⟩ := scanLines_ordered (offset + 3) (lines body)
  obtain ⟨-, n, hText⟩ := body?_eq_some_iff.mp hBody
  have hWidth : offset + 3 + byteWidth body ≤ offset + byteWidth text := by
    have hOpening : byteWidth ['/', '*', '*'] = 3 := rfl
    have hSplit : text = ['/', '*', '*'] ++ (body ++ (List.replicate n '*' ++ ['*', '/'])) := by
      simp [hText]
    have hSum := congrArg byteWidth hSplit
    rw [Text.byteWidth_append, Text.byteWidth_append, hOpening] at hSum
    omega
  rw [lines_flatten] at hTags
  have hAll := (hTags.append (.nil hWidth)).of_le (Nat.le_add_right offset 3)
  rw [List.append_nil] at hAll
  exact ⟨rfl, hAll, hOrdered⟩

end DocComment

/-! ## Items of a source -/

namespace DocumentedItem

/-- The comment of an item, whether it could be read or not. -/
def commentSpan : DocumentedItem → Span
  | .commented _ comment => comment.span
  | .failed error => error.span?.getD {}

/-- Where an item ends: behind the head of its owner, or behind a comment that has none. -/
def stop : DocumentedItem → Position
  | .commented owner _ => owner.span.stop
  | .failed error => (error.span?.getD {}).stop

/-- The parts of an item stand in the order comment, owner, and the tags in order inside the
comment. -/
def Ordered : DocumentedItem → Prop
  | .commented owner comment =>
    comment.span.start.utf8 < comment.span.stop.utf8 ∧
      comment.span.stop.utf8 ≤ owner.span.start.utf8 ∧
      owner.span.start.utf8 ≤ owner.span.stop.utf8 ∧
      Successive comment.span.start.utf8 comment.span.stop.utf8 (comment.tags.map (·.span)) ∧
      ∀ t ∈ comment.tags, t.Ordered
  | .failed error =>
    ∃ span reason, error = .malformedComment span reason ∧ span.start.utf8 < span.stop.utf8

/-- The first item ends before the comment of the second starts. -/
def Precedes (a b : DocumentedItem) : Prop :=
  a.stop.utf8 ≤ b.commentSpan.start.utf8

end DocumentedItem

namespace Php

theorem RawComment.item?_cases {raw : RawComment} {item : DocumentedItem}
    (h : raw.item? = some item) :
    (∃ comment, DocComment.parse raw.text raw.start = .ok comment ∧
      item = .commented (findOwner raw.stop raw.following) comment) ∨
    item = .failed (.malformedComment (.ofBytes raw.start raw.stop) DocComment.delimitersRequired) := by
  unfold RawComment.item? at h
  cases hParse : DocComment.parse raw.text raw.start with
  | ok comment =>
    rw [hParse] at h
    dsimp only at h
    split at h
    · cases h
    · exact .inl ⟨comment, rfl, (Option.some.inj h).symm⟩
  | error e =>
    rw [hParse] at h
    obtain ⟨-, rfl⟩ := DocComment.parse_eq_error_iff.mp hParse
    exact .inr (Option.some.inj h).symm

theorem RawComment.item?_ordered {source : List Char} {raw : RawComment} {item : DocumentedItem}
    (hText : raw.text ≠ []) (hFollowing : StandsAt source raw.following raw.stop)
    (h : raw.item? = some item) : item.Ordered := by
  have hWidth : raw.start < raw.stop := Nat.lt_add_of_pos_right (Text.byteWidth_pos hText)
  rcases raw.item?_cases h with ⟨comment, hParse, rfl⟩ | rfl
  · obtain ⟨hSpan, hTags, hOrdered⟩ := DocComment.parse_ordered hParse
    have hOwner := le_findOwner_start hFollowing
    refine ⟨?_, ?_, (findOwner_fits hFollowing).ordered, ?_, hOrdered⟩
    · rw [hSpan]
      exact hWidth
    · rw [hSpan]
      exact hOwner
    · rw [hSpan]
      exact hTags
  · exact ⟨_, _, rfl, hWidth⟩

theorem RawComment.Precedes.item? {raw raw' : RawComment} (h : raw.Precedes raw')
    {item item' : DocumentedItem} (hItem : raw.item? = some item)
    (hItem' : raw'.item? = some item') : item.Precedes item' := by
  have hStart : item'.commentSpan.start.utf8 = raw'.start := by
    rcases raw'.item?_cases hItem' with ⟨comment, hParse, rfl⟩ | rfl
    · exact congrArg (·.start.utf8) (DocComment.parse_ordered hParse).1
    · rfl
  rw [DocumentedItem.Precedes, hStart]
  rcases raw.item?_cases hItem with ⟨comment, -, rfl⟩ | rfl
  · exact h.2
  · exact h.1

theorem documentedItems_ordered (source : List Char) :
    ∀ item ∈ documentedItems source, item.Ordered := by
  intro item hItem
  obtain ⟨raw, hRaw, hRead⟩ := List.mem_filterMap.mp hItem
  exact raw.item?_ordered (docComments_text_ne_nil hRaw) (docComments_standsAt hRaw).2 hRead

theorem documentedItems_apart (source : List Char) :
    (documentedItems source).Pairwise DocumentedItem.Precedes := by
  have hRaws : (docComments source).Pairwise RawComment.Precedes := codeComments_pairwise _ _
  apply hRaws.filterMap
  intro raw raw' hBefore item hItem item' hItem'
  exact hBefore.item? hItem hItem'

end Php

/-! ## Full positions -/

section Map

variable {source : List Char} {f : Position → Position} {item item' : DocumentedItem}

theorem DocTag.Ordered.map {t : DocTag} (h : t.Ordered) (hPlaced : t.Placed source)
    (hf : KeepsBoundaries source f) : (t.mapPositions f).Ordered := by
  obtain ⟨more, hMore⟩ := hPlaced.span_covers
  have hArguments := Successive.map hf h (by
    intro s hs
    obtain ⟨a, ha, rfl⟩ := List.mem_map.mp hs
    exact (hPlaced.arguments_cover a ha).fits)
  unfold DocTag.Ordered DocTag.mapPositions
  dsimp only
  rw [Span.map_start, Span.map_stop, hf _ hMore.fits.start_isBoundary,
    hf _ hMore.fits.stop_isBoundary]
  rw [List.map_map] at hArguments ⊢
  exact hArguments

theorem DocumentedItem.Ordered.map (h : item.Ordered) (hPlaced : item.Placed source)
    (hf : KeepsBoundaries source f) : (item.mapPositions f).Ordered := by
  cases item with
  | commented owner comment =>
    obtain ⟨hComment, hBehind, hOwner, hTags, hOrdered⟩ := h
    obtain ⟨hOwnerFits, hCommentFits, hTagsPlaced⟩ := hPlaced
    have hSpans := Successive.map hf hTags (by
      intro s hs
      obtain ⟨t, ht, rfl⟩ := List.mem_map.mp hs
      obtain ⟨more, hMore⟩ := (hTagsPlaced t ht).span_covers
      exact hMore.fits)
    unfold DocumentedItem.Ordered DocumentedItem.mapPositions Declaration.mapPositions
      DocComment.mapPositions
    dsimp only
    simp only [Span.map_start, Span.map_stop, hf _ hCommentFits.start_isBoundary,
      hf _ hCommentFits.stop_isBoundary, hf _ hOwnerFits.start_isBoundary,
      hf _ hOwnerFits.stop_isBoundary]
    refine ⟨hComment, hBehind, hOwner, ?_, ?_⟩
    · rw [List.map_map] at hSpans ⊢
      exact hSpans
    · intro t ht
      obtain ⟨u, hu, rfl⟩ := List.mem_map.mp ht
      exact (hOrdered u hu).map (hTagsPlaced u hu) hf
  | failed error =>
    obtain ⟨span, reason, text, rfl, hCovers⟩ := hPlaced
    obtain ⟨span', reason', hError, hWidth⟩ := h
    obtain ⟨rfl, rfl⟩ := Error.malformedComment.inj hError
    refine ⟨span.map f, reason, rfl, ?_⟩
    rw [Span.map_start, Span.map_stop, hf _ hCovers.fits.start_isBoundary,
      hf _ hCovers.fits.stop_isBoundary]
    exact hWidth

theorem DocumentedItem.utf8_stop_map (h : item.Placed source) (hf : KeepsBoundaries source f) :
    (item.mapPositions f).stop.utf8 = item.stop.utf8 := by
  cases item with
  | commented owner comment => exact hf _ h.1.stop_isBoundary
  | failed error =>
    obtain ⟨span, reason, text, rfl, hCovers⟩ := h
    exact hf _ hCovers.fits.stop_isBoundary

theorem DocumentedItem.utf8_commentStart_map (h : item.Placed source)
    (hf : KeepsBoundaries source f) :
    (item.mapPositions f).commentSpan.start.utf8 = item.commentSpan.start.utf8 := by
  cases item with
  | commented owner comment => exact hf _ h.2.1.start_isBoundary
  | failed error =>
    obtain ⟨span, reason, text, rfl, hCovers⟩ := h
    exact hf _ hCovers.fits.start_isBoundary

end Map

namespace Php

/-- An item of a file was read from one of its comments, and has full positions. -/
theorem parseSource_cases {source : List Char} {item : DocumentedItem}
    (h : item ∈ parseSource source) :
    ∃ raw ∈ docComments source,
      (∃ comment, DocComment.parse raw.text raw.start = .ok comment ∧
        item = (DocumentedItem.commented (findOwner raw.stop raw.following) comment).mapPositions
          fun p => locate source p.utf8) ∨
      item = (DocumentedItem.failed (.malformedComment (.ofBytes raw.start raw.stop)
        DocComment.delimitersRequired)).mapPositions fun p => locate source p.utf8 := by
  rw [parseSource, complete_eq_map] at h
  obtain ⟨unplaced, hUnplaced, rfl⟩ := List.mem_map.mp h
  obtain ⟨raw, hRaw, hRead⟩ := List.mem_filterMap.mp hUnplaced
  rcases raw.item?_cases hRead with ⟨comment, hParse, rfl⟩ | rfl
  · exact ⟨raw, hRaw, .inl ⟨comment, hParse, rfl⟩⟩
  · exact ⟨raw, hRaw, .inr rfl⟩

theorem parseSource_ordered (source : List Char) : ∀ item ∈ parseSource source, item.Ordered := by
  intro item hItem
  rw [parseSource, complete_eq_map] at hItem
  obtain ⟨raw, hRaw, rfl⟩ := List.mem_map.mp hItem
  exact (documentedItems_ordered source raw hRaw).map (documentedItems_placed source raw hRaw)
    (keepsBoundaries_locate source)

theorem parseSource_apart (source : List Char) :
    (parseSource source).Pairwise DocumentedItem.Precedes := by
  rw [parseSource, complete_eq_map, List.pairwise_map]
  have hf := keepsBoundaries_locate source
  apply (documentedItems_apart source).imp_of_mem
  intro a b ha hb hBefore
  rw [DocumentedItem.Precedes, DocumentedItem.utf8_stop_map (documentedItems_placed source a ha) hf,
    DocumentedItem.utf8_commentStart_map (documentedItems_placed source b hb) hf]
  exact hBefore

end Php

end TagLint
