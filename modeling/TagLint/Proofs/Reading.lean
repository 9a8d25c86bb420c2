import TagLint.Php.Document
import TagLint.Proofs.Places

/-!
# Reading code token by token

`token.Leads taken rest` says that the code `taken ++ rest` starts with the token, which takes the
first text and leaves the second. Both walks over code, the search for doc comments and the search
for the head of a declaration, go from one such place to the next, so their equations and their
induction are stated for it. `Reads taken rest` says that the walk over the code `taken ++ rest`
comes to the place between the two texts.

* `leads_induction`: a code is empty or starts with a token that leaves a shorter code.
* `exists_reads`: every doc comment that is found stands at a place that the walk comes to, and the
  comments after it are those of the code that follows it.
* `codeComments_standsAt`: a doc comment stands in its source where it was found.
-/

namespace TagLint.Php

open Text (byteWidth Cut)

/-- The code made of the two texts starts with the token, which takes the first of them. -/
def Token.Leads (token : Token) (taken rest : List Char) : Prop :=
  ∃ c cs, taken = c :: cs ∧ Token.scan c (cs ++ rest) = (token, ⟨c :: cs, rest⟩)

theorem Token.Leads.ne_nil {token : Token} {taken rest : List Char} (h : token.Leads taken rest) :
    taken ≠ [] := by
  obtain ⟨c, cs, rfl, -⟩ := h
  simp

theorem leads_scan (c : Char) (cs : List Char) :
    ∃ taken rest, c :: cs = taken ++ rest ∧ (Token.scan c cs).1.Leads taken rest := by
  obtain ⟨c', taken, hTaken⟩ := List.exists_cons_of_ne_nil (Token.scan_taken_ne_nil c cs)
  have hText := Token.scan_text c cs
  rw [Cut.text, hTaken, List.cons_append, List.cons.injEq] at hText
  obtain ⟨rfl, hRest⟩ := hText
  refine ⟨c' :: taken, (Token.scan c' cs).2.rest, by simp [hRest], c', taken, rfl, ?_⟩
  rw [hRest, ← hTaken]

/-- Induction over a code: it is empty or starts with a token that leaves a shorter code. -/
@[elab_as_elim]
theorem leads_induction {motive : List Char → Prop} (nil : motive [])
    (token : ∀ (token : Token) (taken rest : List Char), token.Leads taken rest →
      (∀ code, code.length ≤ rest.length → motive code) → motive (taken ++ rest))
    (code : List Char) : motive code := by
  cases code with
  | nil => exact nil
  | cons c cs =>
    obtain ⟨taken, rest, hCode, hLeads⟩ := leads_scan c cs
    rw [hCode]
    exact token _ taken rest hLeads fun code _ => leads_induction nil token code
termination_by code.length
decreasing_by
  have hPos := List.length_pos_iff.mpr hLeads.ne_nil
  simp only [hCode, List.length_append]
  omega

/-! ## The walk to the doc comments -/

theorem codeComments_docComment {taken rest : List Char} (h : Token.docComment.Leads taken rest)
    (offset : Nat) :
    codeComments offset (taken ++ rest) =
      ⟨offset, taken, rest⟩ :: codeComments (offset + byteWidth taken) rest := by
  obtain ⟨c, cs, rfl, hScan⟩ := h
  rw [List.cons_append, codeComments, hScan]

theorem codeComments_skip {token : Token} {taken rest : List Char} (h : token.Leads taken rest)
    (hDoc : token ≠ .docComment) (hClose : token ≠ .closeTag) (offset : Nat) :
    codeComments offset (taken ++ rest) = codeComments (offset + byteWidth taken) rest := by
  obtain ⟨c, cs, rfl, hScan⟩ := h
  rw [List.cons_append, codeComments, hScan]
  cases token <;> simp_all

theorem codeComments_closeTag {taken html rest : List Char}
    (h : Token.closeTag.Leads taken (html ++ rest)) (hHtml : cutHtml (html ++ rest) = ⟨html, rest⟩)
    (offset : Nat) :
    codeComments offset (taken ++ (html ++ rest)) =
      codeComments (offset + byteWidth taken + byteWidth html) rest := by
  obtain ⟨c, cs, rfl, hScan⟩ := h
  rw [List.cons_append, codeComments, hScan]
  simp [hHtml]

theorem exists_cutHtml (cs : List Char) :
    ∃ html rest, cs = html ++ rest ∧ cutHtml (html ++ rest) = ⟨html, rest⟩ := by
  have hText := cutHtml_text cs
  refine ⟨(cutHtml cs).taken, (cutHtml cs).rest, hText.symm, ?_⟩
  rw [← Cut.text, hText]

/-- The walk over the code made of the two texts comes to the place between them. A close tag takes
along the plain text up to the next open tag. -/
inductive Reads : List Char → List Char → Prop
  | done (rest : List Char) : Reads [] rest
  | token {token : Token} {taken more rest : List Char} (hLeads : token.Leads taken (more ++ rest))
      (hOpen : token ≠ .closeTag) (hMore : Reads more rest) : Reads (taken ++ more) rest
  | html {taken html more rest : List Char}
      (hLeads : Token.closeTag.Leads taken (html ++ (more ++ rest)))
      (hHtml : cutHtml (html ++ (more ++ rest)) = ⟨html, more ++ rest⟩)
      (hMore : Reads more rest) : Reads (taken ++ (html ++ more)) rest

/-- A doc comment that is found stands at a place that the walk comes to, and what is found after it
is found in the code that follows it. -/
theorem exists_reads {offset : Nat} {code : List Char} {pre post : List RawComment}
    {raw : RawComment} (h : codeComments offset code = pre ++ raw :: post) :
    ∃ before, code = before ++ (raw.text ++ raw.following) ∧
      Reads before (raw.text ++ raw.following) ∧ Token.docComment.Leads raw.text raw.following ∧
      raw.start = offset + byteWidth before ∧ post = codeComments raw.stop raw.following := by
  induction code using leads_induction generalizing offset pre with
  | nil => simp [codeComments] at h
  | token token taken rest hLeads ih =>
    by_cases hDoc : token = .docComment
    · subst hDoc
      rw [codeComments_docComment hLeads] at h
      cases pre with
      | nil =>
        obtain ⟨rfl, rfl⟩ := List.cons.inj h
        exact ⟨[], rfl, .done _, hLeads, rfl, rfl⟩
      | cons first pre =>
        obtain ⟨-, h⟩ := List.cons.inj h
        obtain ⟨before, rfl, hReads, hRaw, hStart, hPost⟩ := ih rest (Nat.le_refl _) h
        refine ⟨taken ++ before, by simp, .token hLeads (by simp) hReads, hRaw, ?_, hPost⟩
        simp [hStart, Nat.add_assoc]
    · by_cases hClose : token = .closeTag
      · subst hClose
        obtain ⟨html, code, rfl, hHtml⟩ := exists_cutHtml rest
        rw [codeComments_closeTag hLeads hHtml] at h
        obtain ⟨before, rfl, hReads, hRaw, hStart, hPost⟩ := ih code (by simp) h
        refine ⟨taken ++ (html ++ before), by simp, .html hLeads hHtml hReads, hRaw, ?_, hPost⟩
        simp [hStart, Nat.add_assoc]
      · rw [codeComments_skip hLeads hDoc hClose] at h
        obtain ⟨before, rfl, hReads, hRaw, hStart, hPost⟩ := ih rest (Nat.le_refl _) h
        refine ⟨taken ++ before, by simp, .token hLeads hClose hReads, hRaw, ?_, hPost⟩
        simp [hStart, Nat.add_assoc]

theorem codeComments_standsAt {source code : List Char} {offset : Nat}
    (h : StandsAt source code offset) {raw : RawComment} (hRaw : raw ∈ codeComments offset code) :
    StandsAt source raw.text raw.start ∧ StandsAt source raw.following raw.stop := by
  obtain ⟨pre, post, hSplit⟩ := List.append_of_mem hRaw
  obtain ⟨before, rfl, -, -, hStart, -⟩ := exists_reads hSplit
  have hBoth := h.right
  rw [← hStart] at hBoth
  exact ⟨hBoth.left, hBoth.right⟩

theorem docComments_of_cutHtml {html code : List Char} (h : cutHtml (html ++ code) = ⟨html, code⟩) :
    docComments (html ++ code) = codeComments (byteWidth html) code := by
  rw [docComments, h]

theorem docComments_standsAt {source : List Char} {raw : RawComment}
    (hRaw : raw ∈ docComments source) :
    StandsAt source raw.text raw.start ∧ StandsAt source raw.following raw.stop := by
  obtain ⟨html, code, rfl, hHtml⟩ := exists_cutHtml source
  rw [docComments_of_cutHtml hHtml] at hRaw
  have hCode := (StandsAt.whole (html ++ code)).right
  rw [Nat.zero_add] at hCode
  exact codeComments_standsAt hCode hRaw

/-! ## The walk over the head of a declaration -/

theorem headLexemes_trivia {taken rest : List Char} (h : Token.trivia.Leads taken rest)
    (offset : Nat) :
    headLexemes offset (taken ++ rest) = headLexemes (offset + byteWidth taken) rest := by
  obtain ⟨c, cs, rfl, hScan⟩ := h
  rw [List.cons_append, headLexemes, hScan]
  simp

theorem headLexemes_continue {token : Token} {taken rest : List Char} (h : token.Leads taken rest)
    (hHead : token.continuesHead = true) (offset : Nat) :
    headLexemes offset (taken ++ rest) =
      ⟨token, offset, offset + byteWidth taken⟩
        :: headLexemes (offset + byteWidth taken) rest := by
  obtain ⟨c, cs, rfl, hScan⟩ := h
  rw [List.cons_append, headLexemes, hScan]
  cases token <;> simp_all [Token.continuesHead]

theorem headLexemes_last {token : Token} {taken rest : List Char} (h : token.Leads taken rest)
    (hTrivia : token ≠ .trivia) (hHead : token.continuesHead = false) (offset : Nat) :
    headLexemes offset (taken ++ rest) = [⟨token, offset, offset + byteWidth taken⟩] := by
  obtain ⟨c, cs, rfl, hScan⟩ := h
  rw [List.cons_append, headLexemes, hScan]
  simp [hTrivia, hHead]

end TagLint.Php
