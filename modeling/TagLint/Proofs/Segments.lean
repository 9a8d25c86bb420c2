import TagLint.Proofs.Constructs
import TagLint.Proofs.LeadingTokens

/-!
# Code made of segments

A PHP code is written as a row of segments: the constructs that hide what is in them, doc comments,
plain characters, and stretches of plain text between a close tag and the next open tag. A segment is
told without the scanner, so the theorem here says what the search for doc comments finds, and not
only that it finds what it finds.

* `codeComments_segment`: the search passes over one segment exactly, whatever its kind.
* `docComments_eq_comments`: the doc comments of a file are its doc comment segments, each at its
  place, and nothing else.
-/

namespace TagLint.Php

open Text (byteWidth Cut Run isSpaceOrTab)

/-! ## Plain characters -/

/-- The character opens no construct before the rest of the code. -/
structure PlainBefore (c : Char) (rest : List Char) : Prop where
  not_quote : isQuote c = false
  not_hash : c ≠ '#'
  not_comment : c = '/' → rest.head? ≠ some '/' ∧ rest.head? ≠ some '*'
  not_close : c = '?' → rest.head? ≠ some '>'
  not_heredoc : c = '<' → ∀ more, rest = '<' :: '<' :: more → ¬ OpensHeredoc more

/-- Only seven characters can open a construct. -/
theorem plainBefore_of_notMem {c : Char} (h : c ∉ ['\'', '"', '`', '#', '/', '?', '<'])
    (rest : List Char) : PlainBefore c rest := by
  simp only [List.mem_cons, List.not_mem_nil, or_false, not_or] at h
  obtain ⟨hSingle, hDouble, hBacktick, hHash, hSlash, hQuestion, hLess⟩ := h
  refine ⟨by simp [isQuote, hSingle, hDouble, hBacktick], hHash, ?_, ?_, ?_⟩
  · intro hc
    exact absurd hc hSlash
  · intro hc
    exact absurd hc hQuestion
  · intro hc
    exact absurd hc hLess

/-- The characters of a word can be passed over one by one, or not at all. -/
theorem codeComments_word {run rest : List Char} (h : Run isIdentChar run rest) (offset : Nat) :
    codeComments offset (run ++ rest) = codeComments (offset + byteWidth run) rest := by
  cases run with
  | nil => rfl
  | cons c run =>
    have hRun : Run isIdentChar run rest := ⟨fun d hd => h.all d (List.mem_cons_of_mem _ hd), h.stops⟩
    exact codeComments_skip (Scanned.word (h.all c (by simp)) hRun).leads (by simp) (by simp) offset

theorem codeComments_space {run rest : List Char} (h : Run isCodeSpace run rest) (offset : Nat) :
    codeComments offset (run ++ rest) = codeComments (offset + byteWidth run) rest := by
  cases run with
  | nil => rfl
  | cons c run =>
    have hRun : Run isCodeSpace run rest := ⟨fun d hd => h.all d (List.mem_cons_of_mem _ hd), h.stops⟩
    exact codeComments_skip (Scanned.space (h.all c (by simp)) hRun).leads (by simp) (by simp) offset

/-- A plain character may belong to a longer token, which ends at the same place when the search
starts behind the character. -/
theorem codeComments_plain {c : Char} {rest : List Char} (h : PlainBefore c rest) (offset : Nat) :
    codeComments offset (c :: rest) = codeComments (offset + c.utf8Size) rest := by
  by_cases hSpace : isCodeSpace c = true
  · obtain ⟨run, rest, rfl, hRun⟩ := Text.exists_run isCodeSpace rest
    have hAll : Run isCodeSpace ([c] ++ run) rest := .append (by simpa using hSpace) hRun
    rw [codeComments_space hRun, Nat.add_assoc]
    exact codeComments_space hAll offset
  by_cases hIdent : isIdentChar c = true
  · obtain ⟨run, rest, rfl, hRun⟩ := Text.exists_run isIdentChar rest
    have hAll : Run isIdentChar ([c] ++ run) rest := .append (by simpa using hIdent) hRun
    rw [codeComments_word hRun, Nat.add_assoc]
    exact codeComments_word hAll offset
  by_cases hName : c = '$' ∧ ∃ d ∈ rest.head?, isIdentChar d = true
  · obtain ⟨rfl, d, hd, hIdent⟩ := hName
    obtain ⟨run, rest, rfl, hRun⟩ := Text.exists_run isIdentChar rest
    have hNe : run ≠ [] := by
      rintro rfl
      exact absurd hIdent (by simp [hRun.stops d hd])
    have hLeads := (Scanned.variable_ hNe hRun).leads
    rw [← List.cons_append, codeComments_skip hLeads (by simp) (by simp), codeComments_word hRun,
      Text.byteWidth_cons, Nat.add_assoc]
  · have hAlone : StandsAlone c rest := by
      refine ⟨by simpa using hSpace, h.not_quote, by simpa using hIdent, h.not_hash, h.not_comment,
        h.not_close, ?_, ?_⟩
      · intro hc d hd
        cases hOpen : isIdentChar d with
        | false => rfl
        | true => exact absurd ⟨hc, d, hd, hOpen⟩ hName
      · intro hc more hMore
        exact cutHeredoc?_eq_none_iff.mpr (h.not_heredoc hc more hMore)
    exact codeComments_skip (Scanned.punctuation hAlone).leads (by simp) (by simp) offset

/-! ## Segments -/

/-- How a comment that runs to the end of its line opens. -/
inductive LineOpening
  | slashes
  | hash
deriving Repr, DecidableEq

/-- The characters of an opening. -/
def LineOpening.text : LineOpening → List Char
  | .slashes => ['/', '/']
  | .hash => ['#']

/-- One stretch of PHP code. -/
inductive Segment
  | quoted (quote : Char) (body : List Char) (hQuote : isQuote quote = true)
      (hBody : StringBody quote body)
  | heredoc (parts : Heredoc)
  | lineComment (opening : LineOpening) (text : List Char) (hFeed : '\n' ∉ text)
      (hClose : ¬ ['?', '>'] <:+: text) (hGroup : opening = .hash → text.head? ≠ some '[')
  | blockComment (body : List Char) (hEnd : ¬ ['*', '/'] <:+: body) (hDoc : body.head? ≠ some '*')
  | attributes (body : List Char) (hBody : BracketBody body)
  /-- A comment that opens with `/**` and is not `/**/`. Its first star may not be part of an end. -/
  | docComment (body : List Char) (hEnd : ¬ ['*', '/'] <:+: '*' :: body)
  | plain (c : Char)
  /-- A close tag, plain text and the next open tag. -/
  | html (text tag : List Char) (hText : ¬ ['<', '?'] <:+: text)

namespace Segment

/-- The characters of a segment. -/
def text : Segment → List Char
  | .quoted quote body _ _ => quote :: (body ++ [quote])
  | .heredoc parts => '<' :: '<' :: '<' :: parts.inner
  | .lineComment opening text _ _ _ => opening.text ++ text
  | .blockComment body _ _ => '/' :: '*' :: (body ++ ['*', '/'])
  | .attributes body _ => '#' :: '[' :: (body ++ [']'])
  | .docComment body _ => '/' :: '*' :: '*' :: (body ++ ['*', '/'])
  | .plain c => [c]
  | .html text tag _ => '?' :: '>' :: (text ++ '<' :: '?' :: tag)

/-- Whether the segment is a doc comment. -/
def isDocComment : Segment → Bool
  | .docComment _ _ => true
  | _ => false

/-- The segment ends where it says before this code. Most segments do before every code. -/
def MayPrecede (rest : List Char) : Segment → Prop
  | .heredoc _ => ∀ c ∈ rest.head?, isIdentChar c = false
  | .lineComment .. => EndsLineComment rest
  | .plain c => PlainBefore c rest
  | .html _ tag _ => IsOpenTag tag rest
  | _ => True

/-- The code that segments make. -/
def code (segments : List Segment) : List Char :=
  segments.flatMap (·.text)

/-- Every segment may precede the code of those after it. -/
def Joined : List Segment → Prop
  | [] => True
  | s :: more => s.MayPrecede (code more) ∧ Joined more

/-- The doc comments among segments, the first of which has a byte offset. -/
def comments (offset : Nat) : List Segment → List RawComment
  | [] => []
  | s :: more =>
    (if s.isDocComment then [⟨offset, s.text, code more⟩] else [])
      ++ comments (offset + byteWidth s.text) more

end Segment

namespace Segment

/-- The search passes over one segment and takes it along if it is a doc comment. -/
theorem codeComments_segment (s : Segment) {rest : List Char} (h : s.MayPrecede rest)
    (offset : Nat) :
    codeComments offset (s.text ++ rest) =
      (if s.isDocComment then [⟨offset, s.text, rest⟩] else [])
        ++ codeComments (offset + byteWidth s.text) rest := by
  -- all but the last two kinds are single tokens of the scanner
  cases s with
  | quoted quote body hQuote hBody =>
    have hCut := cutString_closed (ne_escape_of_isQuote hQuote) hBody rest
    exact codeComments_skip (Scanned.string hQuote hCut).leads (by simp) (by simp) offset
  | heredoc parts =>
    have hCut := cutHeredoc?_closed parts h
    exact codeComments_skip (Scanned.heredoc hCut).leads (by simp) (by simp) offset
  | lineComment opening text hFeed hClose hGroup =>
    have hCut := cutLineComment_closed hFeed hClose h
    cases opening with
    | slashes =>
      exact codeComments_skip (Scanned.slashComment hCut).leads (by simp) (by simp) offset
    | hash =>
      have hNext : (text ++ rest).head? ≠ some '[' := by
        cases text with
        | nil =>
          rcases h with rfl | h | ⟨more, rfl⟩
          · simp
          · simp [h]
          · simp
        | cons c text => simpa using hGroup rfl
      exact codeComments_skip (Scanned.hashComment hNext hCut).leads (by simp) (by simp) offset
  | blockComment body hEnd hDoc =>
    have hCut := cutBlockComment_closed hEnd rest
    have hLeads := (Scanned.blockComment hCut).leads
    rw [ofBlockComment_eq_trivia hDoc] at hLeads
    exact codeComments_skip hLeads (by simp) (by simp) offset
  | attributes body hBody =>
    have hCut := cutBrackets_closed hBody rest
    exact codeComments_skip (Scanned.attributes hCut).leads (by simp) (by simp) offset
  | docComment body hEnd =>
    exact codeComments_docComment (docComment_leads_closed hEnd rest) offset
  | plain c => exact codeComments_plain h offset
  | html text tag hText =>
    have hCut := cutHtml_closed hText h
    have hLeads := (Scanned.closeTag (text ++ '<' :: '?' :: tag ++ rest)).leads
    have hSkip := codeComments_closeTag hLeads (by simpa using hCut) offset
    simpa [Segment.text, isDocComment, Nat.add_assoc] using hSkip

theorem codeComments_code {segments : List Segment} (h : Joined segments) (offset : Nat) :
    codeComments offset (code segments) = comments offset segments := by
  induction segments generalizing offset with
  | nil => simp [code, comments, codeComments]
  | cons s more ih =>
    have hCode : code (s :: more) = s.text ++ code more := List.flatMap_cons
    rw [hCode, codeComments_segment s h.1, ih h.2]
    rfl

end Segment

/-- The doc comments of a file that is made of segments behind its first open tag are the doc comment
segments, in their order, each with its place and the code after it. -/
theorem docComments_eq_comments {html tag : List Char} {segments : List Segment}
    (hHtml : ¬ ['<', '?'] <:+: html) (hTag : IsOpenTag tag (Segment.code segments))
    (hJoined : Segment.Joined segments) :
    docComments (html ++ '<' :: '?' :: (tag ++ Segment.code segments)) =
      Segment.comments (byteWidth (html ++ '<' :: '?' :: tag)) segments := by
  unfold docComments
  rw [cutHtml_closed hHtml hTag]
  exact Segment.codeComments_code hJoined _

/-- A doc comment without a text, which other constructs can hide. -/
def emptyDoc : List Char :=
  ['/', '*', '*', '*', '/']

theorem stringBody_emptyDoc : StringBody '\'' emptyDoc :=
  .plain (by decide) (by decide) (.plain (by decide) (by decide) (.plain (by decide) (by decide)
    (.plain (by decide) (by decide) (.plain (by decide) (by decide) .nil))))

theorem not_closesWith_emptyDoc : ¬ ClosesWith ['E'] emptyDoc := by
  rintro ⟨indent, rest, hLine, hIndent, -⟩
  cases indent with
  | nil => exact absurd (List.cons.inj hLine).1 (by decide)
  | cons d indent =>
    obtain rfl : '/' = d := (List.cons.inj hLine).1
    exact absurd (hIndent '/' (by simp)) (by decide)

/-- The heredoc whose only line is a doc comment. -/
def hidingHeredoc : Heredoc where
  indent := []
  quote := ['"']
  label := ['E']
  first := ['"']
  body := emptyDoc ++ '\n' :: ([' '] ++ ['E'])
  indent_blank := by simp
  quote_cases := by simp
  label_ne_nil := by simp
  label_ident := List.forall_mem_singleton.mpr rfl
  first_stops := by
    rintro c ⟨⟩
    rfl
  first_line := by simp
  body_closes :=
    .line (by decide) not_closesWith_emptyDoc (.last (List.forall_mem_singleton.mpr rfl))

/-- Constructs that each hide a doc comment, and one doc comment that none of them hides. -/
def hidingSegments : List Segment :=
  [.quoted '\'' ('\\' :: '\'' :: emptyDoc) rfl (.escape _ stringBody_emptyDoc),
    .heredoc hidingHeredoc,
    .plain ';',
    .attributes ('[' :: ([] ++ ']' :: ('\'' :: (emptyDoc ++ '\'' :: []))))
      (.group .nil (.string (.inl rfl) stringBody_emptyDoc .nil)),
    .lineComment .slashes emptyDoc (by decide) (by decide) (by decide),
    .plain '\n',
    .docComment " @a ".toList (by decide),
    .plain 'f']

theorem joined_hidingSegments : Segment.Joined hidingSegments := by
  refine ⟨trivial, ?_, plainBefore_of_notMem (by decide) _, trivial, ?_,
    plainBefore_of_notMem (by decide) _, trivial, plainBefore_of_notMem (by decide) _, trivial⟩
  · rintro c ⟨⟩
    rfl
  · exact .inr (.inl rfl)

theorem docComments_hidingSegments :
    docComments ('<' :: '?' :: Segment.code hidingSegments) =
      [⟨47, "/** @a */".toList, ['f']⟩] := by
  have h := @docComments_eq_comments [] [] hidingSegments (by decide)
    (.inr (.inr ⟨rfl, by decide, by decide⟩)) joined_hidingSegments
  have hComments : Segment.comments 2 hidingSegments = [⟨47, "/** @a */".toList, ['f']⟩] := by
    decide
  exact h.trans hComments

end TagLint.Php
