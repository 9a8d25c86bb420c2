import TagLint.Proofs.Agreement
import TagLint.Proofs.Positions
import TagLint.Proofs.ShiftedItems

/-!
# Plain text around code

Plain text is passed over up to the next open tag, whatever it holds: it only moves the code behind
it. A close tag separates: no token, comment or head before it depends on what follows, and what
follows is read like a file of its own.

* `documentedItems_append_closed`: a text that ends with a close tag, before any other text.
* `documentedItems_plain`: plain text before code.
* `documentedItems_plainText`: so plain text, at the start or between two codes, changes no item but
  by moving those behind it.
-/

namespace TagLint.Php

open Text (byteWidth Cut)

/-! ## Codes that end with a close tag -/

/-- Whether the search for doc comments ends right behind a close tag: this is the last token of the
code, and no text follows it. -/
def endsClosed : List Char → Bool
  | [] => false
  | c :: cs =>
    let step := Token.scan c cs
    match step.1 with
    | .closeTag => step.2.rest.isEmpty || endsClosed (cutHtml step.2.rest).rest
    | _ => endsClosed step.2.rest
termination_by cs => cs.length
decreasing_by
  · exact Nat.lt_of_le_of_lt (Cut.rest_length_le_of_text (cutHtml_text _))
      (Token.scan_rest_length c cs)
  · exact Token.scan_rest_length c cs

/-- Whether a file ends with the close tag of its last code. -/
def closesCode (source : List Char) : Bool :=
  endsClosed (cutHtml source).rest

theorem endsClosed_skip {token : Token} {taken rest : List Char} (h : token.Leads taken rest)
    (hClose : token ≠ .closeTag) : endsClosed (taken ++ rest) = endsClosed rest := by
  obtain ⟨c, cs, rfl, hScan⟩ := h
  rw [List.cons_append, endsClosed, hScan]
  cases token <;> simp_all

theorem endsClosed_closeTag {taken html rest : List Char}
    (h : Token.closeTag.Leads taken (html ++ rest))
    (hHtml : cutHtml (html ++ rest) = ⟨html, rest⟩) :
    endsClosed (taken ++ (html ++ rest)) = ((html ++ rest).isEmpty || endsClosed rest) := by
  obtain ⟨c, cs, rfl, hScan⟩ := h
  rw [List.cons_append, endsClosed, hScan]
  simp [hHtml]

theorem closeTag_leads (rest : List Char) : Token.closeTag.Leads ['?', '>'] rest :=
  (Scanned.closeTag rest).leads

theorem ofBlockComment_ne_closeTag (code : List Char) : Token.ofBlockComment code ≠ .closeTag := by
  unfold Token.ofBlockComment
  split <;> simp

theorem taken_of_closeTag_leads {taken rest : List Char} (h : Token.closeTag.Leads taken rest) :
    taken = ['?', '>'] := by
  generalize hToken : Token.closeTag = token at h
  cases h.scanned with
  | closeTag => rfl
  | blockComment _ => exact absurd hToken.symm (ofBlockComment_ne_closeTag _)
  | _ => cases hToken

theorem exists_reads_of_endsClosed {code : List Char} (h : endsClosed code = true) :
    ∃ before, code = before ++ ['?', '>'] ∧ Reads before ['?', '>'] := by
  induction code using leads_induction with
  | nil => simp [endsClosed] at h
  | token token taken rest hLeads ih =>
    by_cases hClose : token = .closeTag
    · subst hClose
      obtain ⟨html, code, rfl, hHtml⟩ := exists_cutHtml rest
      rw [endsClosed_closeTag hLeads hHtml, Bool.or_eq_true, List.isEmpty_iff] at h
      rcases h with hNil | h
      · refine ⟨[], ?_, .done _⟩
        rw [hNil, List.append_nil, taken_of_closeTag_leads hLeads]
        rfl
      · obtain ⟨before, rfl, hReads⟩ := ih code (by simp) h
        exact ⟨taken ++ (html ++ before), by simp, .html hLeads hHtml hReads⟩
    · rw [endsClosed_skip hLeads hClose] at h
      obtain ⟨before, rfl, hReads⟩ := ih rest (Nat.le_refl _) h
      exact ⟨taken ++ before, by simp, .token hLeads hClose hReads⟩

/-! ## Items before a close tag -/

theorem agreeTo_closeTag (rest rest' : List Char) :
    AgreeTo .closeTag (['?', '>'] ++ rest) (['?', '>'] ++ rest') :=
  ⟨[], rest, rest', rfl, rfl⟩

/-- A head does not go on behind a close tag. -/
theorem findOwner_before_closeTag {more rest : List Char} (rest' : List Char)
    (h : Reads more (['?', '>'] ++ rest)) (offset : Nat) :
    findOwner offset (more ++ (['?', '>'] ++ rest)) =
      findOwner offset (more ++ (['?', '>'] ++ rest')) := by
  have hHead := headLexemes_congr id h (agreeTo_closeTag rest rest') (by
    intro offset
    rw [headLexemes_last (closeTag_leads rest) (by simp) rfl,
      headLexemes_last (closeTag_leads rest') (by simp) rfl]) offset
  rw [List.map_id, List.map_id] at hHead
  rw [findOwner, findOwner, hHead]

theorem RawComment.SameBefore.item?_eq {rest rest' : List Char} {raw raw' : RawComment}
    (h : RawComment.SameBefore (['?', '>'] ++ rest) (['?', '>'] ++ rest') raw raw') :
    raw.item? = raw'.item? := by
  obtain ⟨hStart, hText, more, hMore, hFollowing, hFollowing'⟩ := h
  have hStop : raw.stop = raw'.stop := by rw [RawComment.stop, RawComment.stop, hStart, hText]
  have hOwner : findOwner raw.stop raw.following = findOwner raw'.stop raw'.following := by
    rw [hFollowing, hFollowing', hStop]
    exact findOwner_before_closeTag rest' hMore _
  rw [RawComment.item?, RawComment.item?, hOwner, hStart, hText]

theorem items_before_closeTag {before rest : List Char} (rest' : List Char)
    (h : Reads before (['?', '>'] ++ rest)) (offset : Nat) :
    ∃ items, (codeComments offset (before ++ (['?', '>'] ++ rest))).filterMap (·.item?) =
        items ++ (codeComments (offset + byteWidth before) (['?', '>'] ++ rest)).filterMap (·.item?) ∧
      (codeComments offset (before ++ (['?', '>'] ++ rest'))).filterMap (·.item?) =
        items ++ (codeComments (offset + byteWidth before) (['?', '>'] ++ rest')).filterMap (·.item?) := by
  obtain ⟨pre, pre', hPre, hPre', hSame⟩ := comments_before h (agreeTo_closeTag rest rest') offset
  have hItems : pre.filterMap (·.item?) = pre'.filterMap (·.item?) := by
    clear hPre hPre'
    induction hSame with
    | nil => rfl
    | cons hRaw _ ih => rw [List.filterMap_cons, List.filterMap_cons, hRaw.item?_eq, ih]
  refine ⟨pre.filterMap (·.item?), ?_, ?_⟩
  · rw [hPre, List.filterMap_append]
  · rw [hPre', List.filterMap_append, hItems]

/-! ## Items behind plain text -/

/-- What follows a close tag is read like a file of its own. -/
theorem items_behind_closeTag (offset : Nat) (rest : List Char) :
    (codeComments offset (['?', '>'] ++ rest)).filterMap (·.item?) =
      (documentedItems rest).map (·.mapPositions (.shift (offset + byteWidth ['?', '>']))) := by
  obtain ⟨html, code, rfl, hHtml⟩ := exists_cutHtml rest
  rw [codeComments_closeTag (closeTag_leads _) hHtml, documentedItems, docComments_of_cutHtml hHtml]
  exact items_shift _ _ code

theorem cutHtml_append {html rest : List Char} (hHtml : ¬ ['<', '?'] <:+: html)
    (hRest : rest = [] ∨ ['<', '?'] <+: rest) :
    cutHtml (html ++ rest) = (cutHtml rest).pushAll html := by
  induction html with
  | nil => rfl
  | cons c html ih =>
    have hTail : ¬ ['<', '?'] <:+: html := fun hInfix => hHtml (List.infix_cons hInfix)
    rw [List.cons_append, cutHtml, ih hTail]
    · rfl
    · -- the text holds no open tag, and none starts with its last character
      rintro more rfl hMore
      cases html with
      | nil =>
        rw [List.nil_append] at hMore
        subst hMore
        rcases hRest with hNil | ⟨tail, hTag⟩
        · cases hNil
        · cases hTag
      | cons d html =>
        obtain rfl : d = '?' := (List.cons.inj hMore).1
        exact hHtml ⟨[], html, rfl⟩

theorem documentedItems_plain {html rest : List Char} (hHtml : ¬ ['<', '?'] <:+: html)
    (hRest : rest = [] ∨ ['<', '?'] <+: rest) :
    documentedItems (html ++ rest) =
      (documentedItems rest).map (·.mapPositions (.shift (byteWidth html))) := by
  rw [documentedItems, documentedItems, docComments, docComments, cutHtml_append hHtml hRest,
    Cut.pushAll_taken, Cut.pushAll_rest, Text.byteWidth_append]
  exact items_shift _ _ _

theorem documentedItems_append_closed {source : List Char} (h : closesCode source = true)
    (rest : List Char) :
    documentedItems (source ++ rest) =
      documentedItems source ++
        (documentedItems rest).map (·.mapPositions (.shift (byteWidth source))) := by
  obtain ⟨html, code, rfl, hHtml⟩ := exists_cutHtml source
  rw [closesCode, hHtml] at h
  obtain ⟨before, rfl, hReads⟩ := exists_reads_of_endsClosed h
  have hAgree := agreeTo_closeTag [] rest
  have hHtml' := cutHtml_congr hHtml (hAgree.append_left before)
  obtain ⟨items, hAlone, hBefore⟩ := items_before_closeTag rest hReads (byteWidth html)
  have hSource : html ++ (before ++ ['?', '>']) ++ rest = html ++ (before ++ (['?', '>'] ++ rest)) := by
    simp
  have hWidth : byteWidth (html ++ (before ++ ['?', '>'])) =
      byteWidth html + byteWidth before + byteWidth ['?', '>'] := by
    simp [Nat.add_assoc]
  have hNone : (codeComments (byteWidth html + byteWidth before)
      (['?', '>'] ++ [])).filterMap (·.item?) = [] := by
    rw [items_behind_closeTag]
    simp [documentedItems, docComments, cutHtml, codeComments]
  rw [hNone, List.append_nil, List.append_nil] at hAlone
  rw [hSource, hWidth, documentedItems, docComments_of_cutHtml hHtml', hBefore, items_behind_closeTag]
  congr 1
  rw [documentedItems, docComments_of_cutHtml hHtml]
  exact hAlone.symm

theorem items_shift_shift (items : List DocumentedItem) (k l : Nat) :
    (items.map (·.mapPositions (.shift l))).map (·.mapPositions (.shift k)) =
      items.map (·.mapPositions (.shift (k + l))) := by
  rw [List.map_map]
  apply List.map_congr_left
  intro item _
  rw [Function.comp_apply, DocumentedItem.mapPositions_comp]
  congr 1
  funext p
  exact congrArg Position.ofByte (Nat.add_assoc k l p.utf8).symm

theorem documentedItems_between {source html rest : List Char} (hClosed : closesCode source = true)
    (hHtml : ¬ ['<', '?'] <:+: html) (hRest : rest = [] ∨ ['<', '?'] <+: rest) :
    documentedItems (source ++ (html ++ rest)) =
      documentedItems source ++
        (documentedItems rest).map (·.mapPositions (.shift (byteWidth source + byteWidth html))) := by
  rw [documentedItems_append_closed hClosed, documentedItems_plain hHtml hRest, items_shift_shift]

/-- Plain text is opaque. At the start of a file it moves the items behind it by its width. Behind a
close tag it does the same and leaves the items before it as they are, so that two files which differ
in such a text alone have the same items, and those behind it are apart by the difference of the two
widths. -/
theorem documentedItems_plainText {html html' rest : List Char} (hHtml : ¬ ['<', '?'] <:+: html)
    (hHtml' : ¬ ['<', '?'] <:+: html') (hRest : rest = [] ∨ ['<', '?'] <+: rest) :
    documentedItems (html ++ rest) =
        (documentedItems rest).map (·.mapPositions (.shift (byteWidth html))) ∧
      ∀ source, closesCode source = true →
        documentedItems (source ++ html ++ rest) = documentedItems source ++
            (documentedItems rest).map
              (·.mapPositions (.shift (byteWidth source + byteWidth html))) ∧
          documentedItems (source ++ html' ++ rest) = documentedItems source ++
            (documentedItems rest).map
              (·.mapPositions (.shift (byteWidth source + byteWidth html'))) := by
  refine ⟨documentedItems_plain hHtml hRest, ?_⟩
  intro source hClosed
  rw [List.append_assoc, List.append_assoc]
  exact ⟨documentedItems_between hClosed hHtml hRest, documentedItems_between hClosed hHtml' hRest⟩

/-- The plain text may hold what would open a string, a comment or a heredoc in code. -/
theorem documentedItems_plainText_openers :
    let source := "<?php /** @a b */ class C // ?>".toList
    let html := "é'/** @d e */ <<<F #[".toList
    let rest := "<?php /** @g h */ class I".toList
    (documentedItems source).length = 1 ∧ (documentedItems rest).length = 1 ∧
      documentedItems (source ++ html ++ rest) = documentedItems source ++
        (documentedItems rest).map (·.mapPositions (.shift 53)) ∧
      documentedItems (source ++ [] ++ rest) = documentedItems source ++
        (documentedItems rest).map (·.mapPositions (.shift 31)) := by
  intro source html rest
  have hHtml : ¬ ['<', '?'] <:+: html := by decide +kernel
  have hNone : ¬ ['<', '?'] <:+: ([] : List Char) := by decide
  have hRest : ['<', '?'] <+: rest := by decide +kernel
  have hClosed : closesCode source = true := by decide +kernel
  have hWidth : byteWidth source = 31 := by decide +kernel
  have hWidth' : byteWidth html = 22 := by decide +kernel
  have hBoth := (documentedItems_plainText hHtml hNone (.inr hRest)).2 source hClosed
  rw [hWidth, hWidth'] at hBoth
  exact ⟨by decide +kernel, by decide +kernel, hBoth⟩

end TagLint.Php
