import Mathlib.Data.List.Forall2
import TagLint.Proofs.Lookahead

/-!
# Codes that agree

Tokens that no delimiter closes look ahead, but never past a slash or a close tag, which belong to no
word, blank or open tag. So a change behind such a mark leaves all the tokens before it as they are,
and with them the comments and the heads that are found there.

* `AgreeTo`: two codes that are the same up to a mark.
* `Token.Leads.congr`: the first token is the same before codes that agree to a mark.
* `Reads.congr`: the walk over code comes to the same places.
* `headLexemes_congr`, `comments_before`: the heads and the comments before the mark.
-/

namespace TagLint.Php

open Text (byteWidth Cut Run)

/-! ## Codes that agree to a mark -/

/-- A text that no token looks past. -/
inductive Mark
  | slash
  | closeTag

/-- The text of a mark. -/
def Mark.text : Mark → List Char
  | .slash => ['/']
  | .closeTag => ['?', '>']

/-- The first character of a mark. -/
def Mark.first : Mark → Char
  | .slash => '/'
  | .closeTag => '?'

theorem Mark.exists_cons (mark : Mark) (rest : List Char) :
    ∃ more, mark.text ++ rest = mark.first :: more := by
  cases mark with
  | slash => exact ⟨rest, rfl⟩
  | closeTag => exact ⟨'>' :: rest, rfl⟩

/-- Both codes start with the same text and a mark. -/
def AgreeTo (mark : Mark) (code code' : List Char) : Prop :=
  ∃ shared rest rest', code = shared ++ (mark.text ++ rest) ∧ code' = shared ++ (mark.text ++ rest')

namespace AgreeTo

variable {mark : Mark} {code code' : List Char}

theorem symm (h : AgreeTo mark code code') : AgreeTo mark code' code := by
  obtain ⟨shared, rest, rest', hCode, hCode'⟩ := h
  exact ⟨shared, rest', rest, hCode', hCode⟩

theorem append_left (h : AgreeTo mark code code') (before : List Char) :
    AgreeTo mark (before ++ code) (before ++ code') := by
  obtain ⟨shared, rest, rest', rfl, rfl⟩ := h
  exact ⟨before ++ shared, rest, rest', by simp, by simp⟩

theorem ne_nil (h : AgreeTo mark code code') : code ≠ [] := by
  obtain ⟨shared, rest, rest', rfl, -⟩ := h
  obtain ⟨more, hMore⟩ := mark.exists_cons rest
  simp [hMore]

theorem head?_eq (h : AgreeTo mark code code') : code.head? = code'.head? := by
  obtain ⟨shared, rest, rest', rfl, rfl⟩ := h
  cases shared with
  | nil =>
    obtain ⟨more, hMore⟩ := mark.exists_cons rest
    obtain ⟨more', hMore'⟩ := mark.exists_cons rest'
    rw [hMore, hMore']
    rfl
  | cons c shared => rfl

/-- What starts one of the codes before its mark starts the other. -/
theorem prefix_of_prefix (h : AgreeTo mark code code') {start : List Char}
    (hMark : mark.first ∉ start) (hStart : start <+: code) : start <+: code' := by
  obtain ⟨shared, rest, rest', rfl, rfl⟩ := h
  obtain ⟨more, hMore⟩ := mark.exists_cons rest
  rw [hMore] at hStart
  exact (prefix_of_prefix_append_cons hMark hStart).trans (List.prefix_append _ _)

/-- Behind a shared character that starts no mark the codes still agree. -/
theorem of_cons {c : Char} (h : AgreeTo mark (c :: code) (c :: code')) (hc : c ≠ mark.first) :
    AgreeTo mark code code' := by
  obtain ⟨shared, rest, rest', hCode, hCode'⟩ := h
  cases shared with
  | nil =>
    obtain ⟨more, hMore⟩ := mark.exists_cons rest
    rw [List.nil_append, hMore] at hCode
    exact absurd (List.cons.inj hCode).1 hc
  | cons d shared => exact ⟨shared, rest, rest', (List.cons.inj hCode).2, (List.cons.inj hCode').2⟩

theorem opensHeredoc (h : AgreeTo mark code code') (hOpens : OpensHeredoc code) :
    OpensHeredoc code' := by
  obtain ⟨indent, quote, c, more, rfl, hIndent, hQuote, hc⟩ := hOpens
  have hMark : mark.first ∉ indent ++ (quote ++ [c]) := by
    intro hMem
    rcases List.mem_append.mp hMem with hMem | hMem
    · exact absurd (hIndent _ hMem) (by cases mark <;> decide)
    · rcases List.mem_append.mp hMem with hMem | hMem
      · rcases hQuote with rfl | rfl | rfl
        · cases hMem
        · exact absurd hMem (by cases mark <;> decide)
        · exact absurd hMem (by cases mark <;> decide)
      · obtain rfl := List.mem_singleton.mp hMem
        exact absurd hc (by cases mark <;> decide)
  obtain ⟨more', rfl⟩ := h.prefix_of_prefix hMark ⟨more, by simp⟩
  exact ⟨indent, quote, c, more', by simp, hIndent, hQuote, hc⟩

theorem closeTag_prefix (h : AgreeTo mark code code') (hClose : ['?', '>'] <+: code) :
    ['?', '>'] <+: code' := by
  cases mark with
  | slash => exact h.prefix_of_prefix (by decide) hClose
  | closeTag =>
    -- the close tag of the code stands in the shared text or is the mark itself
    obtain ⟨shared, rest, rest', rfl, rfl⟩ := h
    match shared with
    | [] => exact ⟨rest', rfl⟩
    | [c] => simp [Mark.text] at hClose
    | c :: d :: shared =>
      simp only [List.cons_append, List.cons_prefix_cons] at hClose ⊢
      exact ⟨hClose.1, hClose.2.1, List.nil_prefix⟩

theorem endsLineComment (h : AgreeTo mark code code') (hEnds : EndsLineComment code) :
    EndsLineComment code' := by
  rcases hEnds with hNil | hFeed | hClose
  · exact absurd hNil h.ne_nil
  · exact .inr (.inl (h.head?_eq ▸ hFeed))
  · exact .inr (.inr (h.closeTag_prefix hClose))

theorem isOpenTag (h : AgreeTo mark code code') {tag : List Char} (hTag : IsOpenTag tag code) :
    IsOpenTag tag code' := by
  rcases hTag with hTag | hTag | ⟨hTag, hEquals, hPhp⟩
  · exact .inl hTag
  · exact .inr (.inl hTag)
  · refine .inr (.inr ⟨hTag, h.head?_eq ▸ hEquals, ?_⟩)
    intro hPhp'
    -- the letters stand before the mark, so the other code has them too
    have hMark : mark.first ∉ code'.take 3 := by
      intro hMem
      have hLower := List.mem_map_of_mem (f := Char.toLower) hMem
      rw [hPhp'] at hLower
      exact absurd hLower (by cases mark <;> decide)
    have hStart := h.symm.prefix_of_prefix hMark (List.take_prefix 3 code')
    have hLength : (code'.take 3).length = 3 := by simpa using congrArg List.length hPhp'
    have hTake := List.prefix_iff_eq_take.mp hStart
    rw [hLength] at hTake
    rw [hTake] at hPhp'
    exact hPhp hPhp'

theorem run (h : AgreeTo mark code code') {p : Char → Bool} {taken : List Char}
    (hRun : Run p taken code) : Run p taken code' :=
  hRun.of_head?_eq h.head?_eq.symm

theorem standsAlone (h : AgreeTo mark code code') {c : Char} (hAlone : StandsAlone c code) :
    StandsAlone c code' := by
  have hHead := h.head?_eq
  refine ⟨hAlone.not_space, hAlone.not_quote, hAlone.not_ident, hAlone.not_hash,
    hHead ▸ hAlone.not_comment, hHead ▸ hAlone.not_close, hHead ▸ hAlone.not_variable, ?_⟩
  rintro hc more rfl
  have hMark : '<' ≠ mark.first := by cases mark <;> decide
  have hOutside : mark.first ∉ ['<', '<'] := by cases mark <;> decide
  obtain ⟨more', rfl⟩ := h.symm.prefix_of_prefix hOutside ⟨more, rfl⟩
  have hAgree : AgreeTo mark more' more := (h.of_cons hMark).of_cons hMark
  have hNone := cutHeredoc?_eq_none_iff.mp (hAlone.not_heredoc hc more' rfl)
  exact cutHeredoc?_eq_none_iff.mpr fun hOpens => hNone (hAgree.symm.opensHeredoc hOpens)

end AgreeTo

/-! ## Tokens and plain text -/

/-- The first token and what it takes do not depend on the code behind a mark. -/
theorem Token.Leads.congr {mark : Mark} {token : Token} {taken rest rest' : List Char}
    (h : token.Leads taken rest) (hAgree : AgreeTo mark rest rest') : token.Leads taken rest' := by
  have hRest := hAgree.ne_nil
  cases h.scanned with
  | @blockComment code _ _ h =>
    obtain rfl : _ = code := by simpa [h] using cutBlockComment_text code
    rcases cutBlockComment_cases h with ⟨body, rfl, hBody⟩ | ⟨hNil, -⟩
    · have hLeads := (Scanned.blockComment (cutBlockComment_closed hBody rest')).leads
      rw [ofBlockComment_congr body rest' rest] at hLeads
      simpa using hLeads
    · exact absurd hNil hRest
  | attributes h => exact (Scanned.attributes (cutBrackets_congr h hRest)).leads
  | slashComment h =>
    obtain ⟨hFeed, hClose, hEnds⟩ := cutLineComment_cases h
    have hCut := cutLineComment_closed hFeed hClose (hAgree.endsLineComment hEnds)
    exact (Scanned.slashComment hCut).leads
  | @hashComment code inner _ hNext h =>
    obtain rfl : _ = code := by simpa [h] using cutLineComment_text code
    obtain ⟨hFeed, hClose, hEnds⟩ := cutLineComment_cases h
    have hCut := cutLineComment_closed hFeed hClose (hAgree.endsLineComment hEnds)
    refine (Scanned.hashComment ?_ hCut).leads
    rw [← (hAgree.append_left inner).head?_eq]
    exact hNext
  | closeTag => exact (Scanned.closeTag rest').leads
  | heredoc h =>
    obtain ⟨parts, rfl, hStops⟩ := exists_heredoc h hRest
    rw [hAgree.head?_eq] at hStops
    exact (Scanned.heredoc (cutHeredoc?_closed parts hStops)).leads
  | variable_ hNe h => exact (Scanned.variable_ hNe (hAgree.run h)).leads
  | space hc h => exact (Scanned.space hc (hAgree.run h)).leads
  | string hQuote h =>
    exact (Scanned.string hQuote (cutString_congr (ne_escape_of_isQuote hQuote) h hRest)).leads
  | word hc h => exact (Scanned.word hc (hAgree.run h)).leads
  | punctuation h => exact (Scanned.punctuation (hAgree.standsAlone h)).leads

/-- So does the plain text before a code. -/
theorem cutHtml_congr {mark : Mark} {taken rest rest' : List Char}
    (h : cutHtml (taken ++ rest) = ⟨taken, rest⟩) (hAgree : AgreeTo mark rest rest') :
    cutHtml (taken ++ rest') = ⟨taken, rest'⟩ := by
  obtain ⟨html, tag, rfl, hHtml, hTag⟩ := exists_openTag h hAgree.ne_nil
  have hCut := cutHtml_closed hHtml (hAgree.isOpenTag hTag)
  simpa using hCut

/-! ## Walks over code -/

/-- The walk over code comes to a place whatever is behind the next mark. -/
theorem Reads.congr {mark : Mark} {taken rest rest' : List Char} (h : Reads taken rest)
    (hAgree : AgreeTo mark rest rest') : Reads taken rest' := by
  induction h with
  | done => exact .done rest'
  | token hLeads hOpen _ ih => exact .token (hLeads.congr (hAgree.append_left _)) hOpen (ih hAgree)
  | @html taken html more rest hLeads hHtml _ ih =>
    have hMore := hAgree.append_left more
    exact .html (hLeads.congr (hMore.append_left _)) (cutHtml_congr hHtml hMore) (ih hAgree)

/-- Of a head that goes on to a place, as much is the same as is the same behind that place. -/
theorem headLexemes_congr {β : Type} {mark : Mark} {taken rest rest' : List Char} (g : Lexeme → β)
    (h : Reads taken rest) (hAgree : AgreeTo mark rest rest')
    (hEnds : ∀ offset, (headLexemes offset rest).map g = (headLexemes offset rest').map g)
    (offset : Nat) :
    (headLexemes offset (taken ++ rest)).map g = (headLexemes offset (taken ++ rest')).map g := by
  induction h generalizing offset with
  | done => exact hEnds offset
  | @token token taken more rest hLeads _ _ ih =>
    have hLeads' := hLeads.congr (hAgree.append_left more)
    have hTail := ih hAgree hEnds
    rw [List.append_assoc, List.append_assoc]
    by_cases hTrivia : token = .trivia
    · subst hTrivia
      rw [headLexemes_trivia hLeads, headLexemes_trivia hLeads']
      exact hTail _
    · cases hHead : token.continuesHead with
      | true =>
        rw [headLexemes_continue hLeads hHead, headLexemes_continue hLeads' hHead]
        exact congrArg (g _ :: ·) (hTail _)
      | false =>
        rw [headLexemes_last hLeads hTrivia hHead, headLexemes_last hLeads' hTrivia hHead]
  | @html taken html more rest hLeads _ _ _ =>
    have hLeads' := hLeads.congr ((hAgree.append_left more).append_left html)
    have hCode : ∀ rest, taken ++ (html ++ more) ++ rest = taken ++ (html ++ (more ++ rest)) := by
      simp
    rw [hCode, hCode, headLexemes_last hLeads (by simp) rfl, headLexemes_last hLeads' (by simp) rfl]

/-- The same comment before two codes, which go on alike to the place where they start to differ. -/
def RawComment.SameBefore (rest rest' : List Char) (raw raw' : RawComment) : Prop :=
  raw.start = raw'.start ∧ raw.text = raw'.text ∧
    ∃ more, Reads more rest ∧ raw.following = more ++ rest ∧ raw'.following = more ++ rest'

/-- The comments before a place are found whatever is behind the next mark. -/
theorem comments_before {mark : Mark} {before rest rest' : List Char} (h : Reads before rest)
    (hAgree : AgreeTo mark rest rest') (offset : Nat) :
    ∃ pre pre', codeComments offset (before ++ rest) =
        pre ++ codeComments (offset + byteWidth before) rest ∧
      codeComments offset (before ++ rest') =
        pre' ++ codeComments (offset + byteWidth before) rest' ∧
      List.Forall₂ (RawComment.SameBefore rest rest') pre pre' := by
  induction h generalizing offset with
  | done => exact ⟨[], [], rfl, rfl, .nil⟩
  | @token token taken more rest hLeads hOpen hMore ih =>
    have hLeads' := hLeads.congr (hAgree.append_left more)
    obtain ⟨pre, pre', hPre, hPre', hSame⟩ := ih hAgree (offset + byteWidth taken)
    rw [List.append_assoc, List.append_assoc, Text.byteWidth_append, ← Nat.add_assoc]
    by_cases hToken : token = .docComment
    · subst hToken
      refine ⟨⟨offset, taken, more ++ rest⟩ :: pre, ⟨offset, taken, more ++ rest'⟩ :: pre', ?_, ?_,
        .cons ⟨rfl, rfl, more, hMore, rfl, rfl⟩ hSame⟩
      · rw [codeComments_docComment hLeads, hPre]
        rfl
      · rw [codeComments_docComment hLeads', hPre']
        rfl
    · refine ⟨pre, pre', ?_, ?_, hSame⟩
      · rw [codeComments_skip hLeads hToken hOpen, hPre]
      · rw [codeComments_skip hLeads' hToken hOpen, hPre']
  | @html taken html more rest hLeads hHtml hMore ih =>
    have hRest := hAgree.append_left more
    have hLeads' := hLeads.congr (hRest.append_left html)
    obtain ⟨pre, pre', hPre, hPre', hSame⟩ := ih hAgree (offset + byteWidth taken + byteWidth html)
    have hCode : ∀ rest, taken ++ (html ++ more) ++ rest = taken ++ (html ++ (more ++ rest)) := by
      simp
    rw [hCode, hCode, Text.byteWidth_append, Text.byteWidth_append, ← Nat.add_assoc, ← Nat.add_assoc]
    refine ⟨pre, pre', ?_, ?_, hSame⟩
    · rw [codeComments_closeTag hLeads hHtml, hPre]
    · rw [codeComments_closeTag hLeads' (cutHtml_congr hHtml hRest), hPre']

/-! ## Codes that start with a doc comment -/

theorem exists_star_of_docComment {code : List Char}
    (h : Token.ofBlockComment code = .docComment) : ∃ more, code = '*' :: more := by
  unfold Token.ofBlockComment at h
  split at h
  · cases h
  · exact ⟨_, rfl⟩
  · cases h

/-- A doc comment is closed, or it takes all the code that is left. -/
theorem exists_of_docComment_leads {text rest : List Char} (h : Token.docComment.Leads text rest) :
    ∃ inner, text = '/' :: '*' :: '*' :: inner ∧
      ((∃ body, inner = body ++ ['*', '/'] ∧ ¬ ['*', '/'] <:+: '*' :: body) ∨
        (rest = [] ∧ ¬ ['*', '/'] <:+: '*' :: inner)) := by
  generalize hToken : Token.docComment = token at h
  cases h.scanned with
  | @blockComment code taken _ hCut =>
    have hText := cutBlockComment_text code
    rw [hCut, Cut.text_mk] at hText
    obtain ⟨more, rfl⟩ := exists_star_of_docComment hToken.symm
    rcases cutBlockComment_cases hCut with ⟨body, rfl, hBody⟩ | ⟨rfl, hOpen⟩
    · cases body with
      | nil =>
        -- the comment of two stars is none of these
        rw [← hText] at hToken
        cases hToken
      | cons c body =>
        obtain rfl : c = '*' := (List.cons.inj hText).1
        exact ⟨body ++ ['*', '/'], rfl, .inl ⟨body, rfl, hBody⟩⟩
    · rw [List.append_nil] at hText
      subst hText
      exact ⟨more, rfl, .inr ⟨rfl, hOpen⟩⟩
  | _ => cases hToken

/-- The code starts with a doc comment. -/
def StartsWithDoc (code : List Char) : Prop :=
  ∃ text rest, code = text ++ rest ∧ Token.docComment.Leads text rest

theorem StartsWithDoc.agreeToSlash {code code' : List Char} (h : StartsWithDoc code)
    (h' : StartsWithDoc code') : AgreeTo .slash code code' := by
  obtain ⟨text, rest, rfl, hLeads⟩ := h
  obtain ⟨text', rest', rfl, hLeads'⟩ := h'
  obtain ⟨inner, rfl, -⟩ := exists_of_docComment_leads hLeads
  obtain ⟨inner', rfl, -⟩ := exists_of_docComment_leads hLeads'
  exact ⟨[], _, _, rfl, rfl⟩

/-- A head that a doc comment ends has the same tokens whatever that comment says. -/
theorem headTokens_congr {taken rest rest' : List Char} (h : Reads taken rest)
    (hDoc : StartsWithDoc rest) (hDoc' : StartsWithDoc rest') (offset : Nat) :
    (headLexemes offset (taken ++ rest)).map (·.token) =
      (headLexemes offset (taken ++ rest')).map (·.token) := by
  refine headLexemes_congr (·.token) h (hDoc.agreeToSlash hDoc') ?_ offset
  intro offset
  obtain ⟨text, more, rfl, hLeads⟩ := hDoc
  obtain ⟨text', more', rfl, hLeads'⟩ := hDoc'
  rw [headLexemes_last hLeads (by simp) rfl, headLexemes_last hLeads' (by simp) rfl]
  rfl

end TagLint.Php
