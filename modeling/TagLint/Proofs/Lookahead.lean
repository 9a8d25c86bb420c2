import TagLint.Proofs.Constructs
import TagLint.Proofs.LeadingTokens

/-!
# Constructs that leave code

A construct that leaves code behind it is closed, so it is taken again before any other code.

* `cutString_congr`, `cutBrackets_congr`: strings and attribute groups are taken again.
* `cutBlockComment_cases`, `cutLineComment_cases`: what a comment holds and where it ends.
* `exists_heredoc`, `exists_openTag`: the parts of a heredoc, and of plain text before code.
-/

namespace TagLint.Php

open Text (Cut Run isSpaceOrTab)

/-! ## Constructs that leave code -/

theorem not_pair_infix_cons {a b c : Char} {cs : List Char} (h : ¬ [a, b] <:+: cs)
    (hHead : ¬ (c = a ∧ cs.head? = some b)) : ¬ [a, b] <:+: c :: cs := by
  intro hInfix
  rcases List.infix_cons_iff.mp hInfix with ⟨rest, hRest⟩ | hInfix
  · obtain ⟨rfl, rfl⟩ := List.cons.inj hRest
    exact hHead ⟨rfl, rfl⟩
  · exact h hInfix

theorem pair_infix_append {a b : Char} {xs ys : List Char} (h : [a, b] <:+: xs ++ ys) :
    [a, b] <:+: xs ∨ [a, b] <:+: ys ∨ (xs.getLast? = some a ∧ ys.head? = some b) := by
  induction xs with
  | nil => exact .inr (.inl h)
  | cons c xs ih =>
    rcases List.infix_cons_iff.mp h with ⟨rest, hRest⟩ | h
    · obtain ⟨rfl, hNext⟩ := List.cons.inj hRest
      cases xs with
      | nil =>
        obtain rfl : b :: rest = ys := hNext
        exact .inr (.inr ⟨rfl, rfl⟩)
      | cons d xs =>
        obtain rfl : b = d := (List.cons.inj hNext).1
        exact .inl ⟨[], xs, rfl⟩
    · rcases ih h with h | h | ⟨hLast, hHead⟩
      · exact .inl (List.infix_cons h)
      · exact .inr (.inl h)
      · refine .inr (.inr ⟨?_, hHead⟩)
        have hNe : xs ≠ [] := by
          rintro rfl
          cases hLast
        rw [← List.singleton_append, Text.getLast?_append_of_ne_nil _ hNe]
        exact hLast

/-- A cut character goes to the part that was taken. -/
theorem push_eq_mk {c : Char} {k : Cut} {taken rest : List Char} (h : k.push c = ⟨taken, rest⟩) :
    ∃ more, taken = c :: more ∧ k = ⟨more, rest⟩ := by
  cases h
  exact ⟨k.taken, rfl, rfl⟩

theorem pushAll_eq_mk {cs : List Char} {k : Cut} {taken rest : List Char}
    (h : k.pushAll cs = ⟨taken, rest⟩) : ∃ more, taken = cs ++ more ∧ k = ⟨more, rest⟩ := by
  cases h
  exact ⟨k.taken, rfl, rfl⟩

/-- A string that leaves code has a closing quote. -/
theorem exists_stringBody {quote : Char} {cs taken rest : List Char}
    (h : cutString quote cs = ⟨taken, rest⟩) (hRest : rest ≠ []) :
    ∃ body, taken = body ++ [quote] ∧ StringBody quote body := by
  fun_induction cutString quote cs generalizing taken with
  | case1 =>
    cases h
    exact absurd rfl hRest
  | case2 =>
    cases h
    exact absurd rfl hRest
  | case3 c cs ih =>
    obtain ⟨taken, rfl, hCut⟩ := pushAll_eq_mk h
    obtain ⟨body, hTaken, hBody⟩ := ih hCut
    exact ⟨'\\' :: c :: body, by simp [hTaken], .escape c hBody⟩
  | case4 cs =>
    cases h
    exact ⟨[], rfl, .nil⟩
  | case5 c cs hLast hEscape hQuote ih =>
    obtain ⟨taken, rfl, hCut⟩ := push_eq_mk h
    obtain ⟨body, hTaken, hBody⟩ := ih hCut
    exact ⟨c :: body, by simp [hTaken], .plain hQuote (ne_escape_of_cases hLast hEscape) hBody⟩

theorem cutString_congr {quote : Char} {cs taken rest rest' : List Char} (hQuote : quote ≠ '\\')
    (h : cutString quote cs = ⟨taken, rest⟩) (hRest : rest ≠ []) :
    cutString quote (taken ++ rest') = ⟨taken, rest'⟩ := by
  obtain ⟨body, rfl, hBody⟩ := exists_stringBody h hRest
  rw [List.append_assoc]
  exact cutString_closed hQuote hBody rest'

/-- A block comment has an end or runs to the end of the code. -/
theorem cutBlockComment_cases {cs taken rest : List Char}
    (h : cutBlockComment cs = ⟨taken, rest⟩) :
    (∃ body, taken = body ++ ['*', '/'] ∧ ¬ ['*', '/'] <:+: body) ∨
      (rest = [] ∧ ¬ ['*', '/'] <:+: taken) := by
  fun_induction cutBlockComment cs generalizing taken with
  | case1 =>
    cases h
    exact .inr ⟨rfl, by simp⟩
  | case2 cs =>
    cases h
    exact .inl ⟨[], rfl, by simp⟩
  | case3 c cs hEnd ih =>
    have hText := cutBlockComment_text cs
    obtain ⟨taken, rfl, hCut⟩ := push_eq_mk h
    rw [hCut] at hText
    -- the character and what was taken after it are no end, since the code starts with both
    have hHead : ∀ body, body <+: cs → ¬ (c = '*' ∧ body.head? = some '/') := by
      rintro body ⟨more, rfl⟩ ⟨hc, hNext⟩
      obtain ⟨body, rfl⟩ := head?_eq_some_iff_exists.mp hNext
      exact hEnd _ hc rfl
    rcases ih hCut with ⟨body, hTaken, hBody⟩ | ⟨rfl, hOpen⟩
    · refine .inl ⟨c :: body, by simp [hTaken], not_pair_infix_cons hBody (hHead body ?_)⟩
      exact ⟨['*', '/'] ++ rest, by rw [← hText, hTaken]; simp⟩
    · refine .inr ⟨rfl, not_pair_infix_cons hOpen (hHead _ ?_)⟩
      exact ⟨[], by rw [← hText]; simp⟩

/-- A line comment holds neither a line feed nor a close tag and stops before one of them. -/
theorem cutLineComment_cases {cs taken rest : List Char}
    (h : cutLineComment cs = ⟨taken, rest⟩) :
    '\n' ∉ taken ∧ ¬ ['?', '>'] <:+: taken ∧ EndsLineComment rest := by
  fun_induction cutLineComment cs generalizing taken with
  | case1 =>
    cases h
    exact ⟨by simp, by simp, .inl rfl⟩
  | case2 cs =>
    cases h
    exact ⟨by simp, by simp, .inr (.inl rfl)⟩
  | case3 cs =>
    cases h
    exact ⟨by simp, by simp, .inr (.inr ⟨cs, rfl⟩)⟩
  | case4 c cs hFeed hClose ih =>
    have hText := cutLineComment_text cs
    obtain ⟨taken, rfl, hCut⟩ := push_eq_mk h
    obtain ⟨hLine, hOpen, hEnds⟩ := ih hCut
    refine ⟨?_, not_pair_infix_cons hOpen ?_, hEnds⟩
    · intro hMem
      rcases List.mem_cons.mp hMem with hc | hMem
      · exact hFeed hc.symm
      · exact hLine hMem
    · rintro ⟨hc, hNext⟩
      obtain ⟨more, hMore⟩ := head?_eq_some_iff_exists.mp hNext
      rw [hCut, Cut.text_mk, hMore, List.cons_append] at hText
      exact hClose _ hc hText.symm

/-- An attribute group that leaves code is closed, at every depth. -/
theorem cutBrackets_congr {depth : Nat} {cs taken rest rest' : List Char}
    (h : cutBrackets depth cs = ⟨taken, rest⟩) (hRest : rest ≠ []) :
    cutBrackets depth (taken ++ rest') = ⟨taken, rest'⟩ := by
  fun_induction cutBrackets depth cs generalizing taken with
  | case1 =>
    cases h
    exact absurd rfl hRest
  | case2 cs =>
    cases h
    exact cutBrackets_last rest'
  | case3 cs depth ih =>
    obtain ⟨taken, rfl, hCut⟩ := push_eq_mk h
    rw [List.cons_append, cutBrackets_close, ih hCut]
    rfl
  | case4 depth cs _ ih =>
    obtain ⟨taken, rfl, hCut⟩ := push_eq_mk h
    rw [List.cons_append, cutBrackets_open, ih hCut]
    rfl
  | case5 depth c cs _ _ hQuote string =>
    rename_i ih
    obtain ⟨taken, rfl, hCut⟩ := pushAll_eq_mk h
    have hEscape : c ≠ '\\' := by rcases hQuote with rfl | rfl <;> decide
    have hString : string.rest ≠ [] := by
      intro hNil
      rw [hNil, cutBrackets] at hCut
      exact hRest (congrArg Cut.rest hCut).symm
    have hInner : cutString c cs = ⟨string.taken, string.rest⟩ := rfl
    rw [List.cons_append, List.cons_append, List.append_assoc, cutBrackets_string _ _ hQuote,
      cutString_congr hEscape hInner hString]
    dsimp only
    rw [ih hCut]
    rfl
  | case6 depth c cs hClose hOpen hQuote ih =>
    obtain ⟨taken, rfl, hCut⟩ := push_eq_mk h
    rw [List.cons_append, cutBrackets_plain _ _ hOpen hClose hQuote, ih hCut]
    rfl

/-! ## Heredocs and plain text that leave code -/

/-- A line that is passed over does not close the heredoc. -/
theorem not_closesWith_of_run {label indent line more : List Char} (hNe : label ≠ [])
    (hLabel : ∀ c ∈ label, isIdentChar c = true)
    (hIndent : Run isSpaceOrTab indent (line ++ '\n' :: more))
    (h : closesHeredoc label (line ++ '\n' :: more) = false) :
    ¬ ClosesWith label (indent ++ line) := by
  rintro ⟨blanks, after, hLine, hBlanks, hAfter⟩
  obtain ⟨c, label', rfl⟩ := List.exists_cons_of_ne_nil hNe
  have hRun : Run isSpaceOrTab blanks (c :: label' ++ (after ++ '\n' :: more)) := by
    refine ⟨hBlanks, ?_⟩
    intro d hd
    obtain rfl : c = d := by simpa using hd
    exact not_isSpaceOrTab_of_isIdentChar (hLabel c (by simp))
  have hCode : indent ++ (line ++ '\n' :: more) =
      blanks ++ (c :: label' ++ (after ++ '\n' :: more)) := by
    rw [← List.append_assoc, hLine]
    simp
  -- both are the longest run of blanks at the start of the line
  have hSame : indent = blanks := by
    rw [← hIndent.takeWhile_eq, hCode, hRun.takeWhile_eq]
  rw [hSame, List.append_cancel_left_eq] at hCode
  have hCloses : closesHeredoc (c :: label') (line ++ '\n' :: more) = true := by
    refine closesHeredoc_iff.mpr ⟨_, hCode, ?_⟩
    intro d hd
    cases after with
    | nil =>
      obtain rfl : '\n' = d := by simpa using hd
      rfl
    | cons e after => exact hAfter d (by simpa using hd)
  rw [h] at hCloses
  cases hCloses

theorem notMem_takeWhile_ne (c : Char) (cs : List Char) : c ∉ cs.takeWhile (· != c) := by
  intro hMem
  simpa using Text.all_takeWhile _ _ c hMem

theorem exists_heredocBody {label cs taken rest : List Char} (hNe : label ≠ [])
    (hLabel : ∀ c ∈ label, isIdentChar c = true)
    (h : cutHeredocLines label cs = ⟨taken, rest⟩) (hRest : rest ≠ []) :
    ∃ first body, taken = first ++ '\n' :: body ∧ '\n' ∉ first ∧ HeredocBody label body ∧
      ∀ c ∈ rest.head?, isIdentChar c = false := by
  fun_induction cutHeredocLines label cs generalizing taken with
  | case1 =>
    cases h
    exact absurd rfl hRest
  | case2 cs newline line hLine indent before =>
    rename_i hCloses
    obtain ⟨after, hAfter, hNext⟩ := closesHeredoc_iff.mp hCloses
    obtain rfl : newline = '\n' := by
      simpa using Text.head?_dropWhile_stops (· != '\n') cs newline (by rw [hLine]; rfl)
    cases h
    refine ⟨cs.takeWhile (· != '\n'), indent.taken ++ label, by simp [before],
      notMem_takeWhile_ne _ _, .last (Text.all_takeWhile _ _), ?_⟩
    rw [hAfter, List.drop_left]
    exact hNext
  | case3 cs newline line hLine indent before =>
    rename_i hOpen ih
    obtain rfl : newline = '\n' := by
      simpa using Text.head?_dropWhile_stops (· != '\n') cs newline (by rw [hLine]; rfl)
    have hText := cutHeredocLines_text label indent.rest
    obtain ⟨taken, rfl, hCut⟩ := pushAll_eq_mk h
    obtain ⟨first, body, rfl, hFirst, hBody, hNext⟩ := ih hCut
    rw [hCut, Cut.text_mk, List.append_assoc, List.cons_append] at hText
    have hRun : Run isSpaceOrTab indent.taken (first ++ '\n' :: (body ++ rest)) := by
      rw [hText]
      exact Text.run_takeWhile isSpaceOrTab line
    rw [Bool.not_eq_true, ← hText] at hOpen
    refine ⟨cs.takeWhile (· != '\n'), indent.taken ++ first ++ '\n' :: body, by simp [before],
      notMem_takeWhile_ne _ _, .line ?_ (not_closesWith_of_run hNe hLabel hRun hOpen) hBody, hNext⟩
    intro hMem
    rcases List.mem_append.mp hMem with hMem | hMem
    · exact absurd (hRun.all _ hMem) (by decide)
    · exact hFirst hMem

/-- A heredoc that leaves code has its closing label. -/
theorem exists_heredoc {cs taken rest : List Char} (h : cutHeredoc? cs = some ⟨taken, rest⟩)
    (hRest : rest ≠ []) :
    ∃ parts : Heredoc, taken = parts.inner ∧ ∀ c ∈ rest.head?, isIdentChar c = false := by
  obtain ⟨indent, cs, rfl, hIndent⟩ := Text.exists_run isSpaceOrTab cs
  obtain ⟨label, lines, hCut, hLabel⟩ := Text.exists_run isIdentChar (cutLabelQuote cs).rest
  unfold cutHeredoc? at h
  rw [hIndent.cut_eq] at h
  dsimp only at h
  rw [hCut, hLabel.cut_eq] at h
  dsimp only at h
  split at h
  · cases h
  · rename_i hNe
    have hNe : label ≠ [] := by simpa using hNe
    obtain ⟨inner, rfl, hLines⟩ := pushAll_eq_mk (Option.some.inj h)
    obtain ⟨first, body, rfl, hFirst, hBody, hNext⟩ := exists_heredocBody hNe hLabel.all hLines hRest
    have hText := cutHeredocLines_text label lines
    rw [hLines, Cut.text_mk] at hText
    refine ⟨⟨indent, (cutLabelQuote cs).taken, label, first, body, hIndent.all,
      cutLabelQuote_cases cs, hNe, hLabel.all, ?_, hFirst, hBody⟩, by simp [Heredoc.inner], hNext⟩
    intro c hc
    apply hLabel.stops
    rw [← hText]
    cases first with
    | nil => cases hc
    | cons d first => simpa using hc

theorem isOpenTag_of_cut {cs tag rest : List Char} (h : cutOpenTag cs = ⟨tag, rest⟩) :
    IsOpenTag tag rest := by
  unfold cutOpenTag at h
  split at h
  · cases h
    exact .inl rfl
  · rename_i a b c cs hEquals
    split at h
    · rename_i hPhp
      cases h
      exact .inr (.inl hPhp)
    · rename_i hPhp
      cases h
      refine .inr (.inr ⟨rfl, ?_, by simpa using hPhp⟩)
      intro hHead
      obtain rfl : a = '=' := by simpa using hHead
      exact hEquals rfl
  · rename_i hEquals hShort
    obtain ⟨rfl, rfl⟩ := Cut.mk.inj h
    refine .inr (.inr ⟨rfl, ?_, ?_⟩)
    · intro hHead
      obtain ⟨more, rfl⟩ := head?_eq_some_iff_exists.mp hHead
      exact hEquals _ rfl
    · intro hPhp
      have hLength := congrArg List.length hPhp
      match cs with
      | [] => simp at hLength
      | [a] => simp at hLength
      | [a, b] => simp at hLength
      | a :: b :: c :: more => exact hShort a b c more rfl

/-- Plain text that leaves code ends with an open tag. -/
theorem exists_openTag {cs taken rest : List Char} (h : cutHtml cs = ⟨taken, rest⟩)
    (hRest : rest ≠ []) :
    ∃ html tag, taken = html ++ '<' :: '?' :: tag ∧ ¬ ['<', '?'] <:+: html ∧
      IsOpenTag tag rest := by
  fun_induction cutHtml cs generalizing taken with
  | case1 =>
    cases h
    exact absurd rfl hRest
  | case2 cs =>
    obtain ⟨tag, rfl, hCut⟩ := pushAll_eq_mk h
    exact ⟨[], tag, rfl, by simp, isOpenTag_of_cut hCut⟩
  | case3 c cs hOpen ih =>
    have hText := cutHtml_text cs
    obtain ⟨taken, rfl, hCut⟩ := push_eq_mk h
    obtain ⟨html, tag, rfl, hHtml, hTag⟩ := ih hCut
    rw [hCut, Cut.text_mk] at hText
    refine ⟨c :: html, tag, rfl, not_pair_infix_cons hHtml ?_, hTag⟩
    rintro ⟨hc, hNext⟩
    obtain ⟨more, rfl⟩ := head?_eq_some_iff_exists.mp hNext
    rw [List.cons_append, List.cons_append] at hText
    exact hOpen _ hc hText.symm

/-! ## The token of a block comment -/

theorem ofBlockComment_pair (c d : Char) (cs : List Char) :
    Token.ofBlockComment (c :: d :: cs) = if c = '*' ∧ d ≠ '/' then .docComment else .trivia := by
  unfold Token.ofBlockComment
  split
  · rename_i h
    obtain ⟨rfl, rfl⟩ : c = '*' ∧ d = '/' := by simp_all
    rfl
  · rename_i hEnd h
    obtain ⟨rfl, rfl⟩ := List.cons.inj h
    rw [if_pos ⟨rfl, fun hd => hEnd cs (by rw [hd])⟩]
  · rename_i hStar
    rw [if_neg fun h => hStar (d :: cs) (by rw [h.1])]

theorem ofBlockComment_congr (body rest rest' : List Char) :
    Token.ofBlockComment (body ++ '*' :: '/' :: rest) =
      Token.ofBlockComment (body ++ '*' :: '/' :: rest') := by
  match body with
  | [] => rfl
  | [c] => exact (ofBlockComment_pair c '*' _).trans (ofBlockComment_pair c '*' _).symm
  | c :: d :: body => exact (ofBlockComment_pair c d _).trans (ofBlockComment_pair c d _).symm

end TagLint.Php
