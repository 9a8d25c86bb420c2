import TagLint.Proofs.Constructs
import TagLint.Proofs.Reading

/-!
# The token at the start of a code

What one step of the scanner can do, said once: `Scanned token taken rest` lists the alternatives in
the order in which they are tried, each with the cut that it makes. Facts about one token are proved
by cases on it and never open the scanner again.

* `Token.Leads.scanned`: what the scanner does is one of the alternatives.
* `Scanned.leads`: each alternative is what the scanner does.
-/

namespace TagLint.Php

open Text (Cut Run)

/-- The character opens no construct before the rest of the code, and belongs to no word. -/
structure StandsAlone (c : Char) (rest : List Char) : Prop where
  not_space : isCodeSpace c = false
  not_quote : isQuote c = false
  not_ident : isIdentChar c = false
  not_hash : c ≠ '#'
  not_comment : c = '/' → rest.head? ≠ some '/' ∧ rest.head? ≠ some '*'
  not_close : c = '?' → rest.head? ≠ some '>'
  not_variable : c = '$' → ∀ d ∈ rest.head?, isIdentChar d = false
  not_heredoc : c = '<' → ∀ more, rest = '<' :: '<' :: more → cutHeredoc? more = none

/-- One step of the scanner: a token, the text that it takes and the code that it leaves. -/
inductive Scanned : Token → List Char → List Char → Prop
  | blockComment {code taken rest : List Char} (h : cutBlockComment code = ⟨taken, rest⟩) :
      Scanned (.ofBlockComment code) ('/' :: '*' :: taken) rest
  | attributes {code taken rest : List Char} (h : cutBrackets 0 code = ⟨taken, rest⟩) :
      Scanned .trivia ('#' :: '[' :: taken) rest
  | slashComment {code taken rest : List Char} (h : cutLineComment code = ⟨taken, rest⟩) :
      Scanned .trivia ('/' :: '/' :: taken) rest
  | hashComment {code taken rest : List Char} (hNext : code.head? ≠ some '[')
      (h : cutLineComment code = ⟨taken, rest⟩) : Scanned .trivia ('#' :: taken) rest
  | closeTag (rest : List Char) : Scanned .closeTag ['?', '>'] rest
  | heredoc {code taken rest : List Char} (h : cutHeredoc? code = some ⟨taken, rest⟩) :
      Scanned .literal ('<' :: '<' :: '<' :: taken) rest
  | variable_ {name rest : List Char} (hNe : name ≠ []) (h : Run isIdentChar name rest) :
      Scanned (.variable_ name) ('$' :: name) rest
  | space {c : Char} {run rest : List Char} (hc : isCodeSpace c = true)
      (h : Run isCodeSpace run rest) : Scanned .trivia (c :: run) rest
  | string {quote : Char} {code taken rest : List Char} (hQuote : isQuote quote = true)
      (h : cutString quote code = ⟨taken, rest⟩) : Scanned .literal (quote :: taken) rest
  | word {c : Char} {run rest : List Char} (hc : isIdentChar c = true)
      (h : Run isIdentChar run rest) : Scanned (.word (c :: run)) (c :: run) rest
  | punctuation {c : Char} {rest : List Char} (h : StandsAlone c rest) :
      Scanned (.punctuation c) [c] rest

theorem head?_eq_some_iff_exists {cs : List Char} {c : Char} :
    cs.head? = some c ↔ ∃ rest, cs = c :: rest := by
  cases cs <;> simp

theorem scanned_scan (c : Char) (cs : List Char) :
    Scanned (Token.scan c cs).1 (Token.scan c cs).2.taken (Token.scan c cs).2.rest := by
  unfold Token.scan
  split
  · exact .blockComment rfl
  · exact .attributes rfl
  · exact .slashComment rfl
  · rename_i hNext
    refine .hashComment ?_ rfl
    intro hHead
    obtain ⟨rest, rfl⟩ := head?_eq_some_iff_exists.mp hHead
    exact hNext rest rfl
  · exact .closeTag _
  · rename_i rest
    cases hCut : cutHeredoc? rest with
    | some heredoc => exact .heredoc hCut
    | none =>
      refine .punctuation ⟨by decide, by decide, by decide, by decide, by simp, by simp, by simp, ?_⟩
      rintro - more hMore
      obtain rfl : rest = more := by simpa using hMore
      exact hCut
  · dsimp only
    split
    · rename_i hEmpty
      refine .punctuation ⟨by decide, by decide, by decide, by decide, by simp, by simp, ?_, by simp⟩
      rintro - d hd
      have hNone : cs.takeWhile isIdentChar = [] := List.isEmpty_iff.mp hEmpty
      have hSplit := List.takeWhile_append_dropWhile (p := isIdentChar) (l := cs)
      rw [hNone, List.nil_append] at hSplit
      apply Text.head?_dropWhile_stops isIdentChar cs
      rw [hSplit]
      exact hd
    · rename_i hEmpty
      exact .variable_ (by simpa using hEmpty) (Text.run_takeWhile _ _)
  · rename_i hHash hDollar hBlock _ hLine hClose hHeredoc
    split
    · rename_i hSpace
      exact .space hSpace (Text.run_takeWhile _ _)
    · split
      · rename_i hQuote
        exact .string hQuote rfl
      · split
        · rename_i hIdent
          exact .word hIdent (Text.run_takeWhile _ _)
        · rename_i hSpace hQuote hIdent
          refine .punctuation ⟨by simpa using hSpace, by simpa using hQuote, by simpa using hIdent,
            hHash, ?_, ?_, ?_, ?_⟩
          · rintro rfl
            constructor
            · intro hHead
              obtain ⟨rest, rfl⟩ := head?_eq_some_iff_exists.mp hHead
              exact hLine rest rfl rfl
            · intro hHead
              obtain ⟨rest, rfl⟩ := head?_eq_some_iff_exists.mp hHead
              exact hBlock rest rfl rfl
          · rintro rfl hHead
            obtain ⟨rest, rfl⟩ := head?_eq_some_iff_exists.mp hHead
            exact hClose rest rfl rfl
          · intro h
            exact absurd h hDollar
          · rintro rfl more hMore
            exact (hHeredoc more rfl hMore).elim

theorem Token.Leads.scanned {token : Token} {taken rest : List Char} (h : token.Leads taken rest) :
    Scanned token taken rest := by
  obtain ⟨c, cs, rfl, hScan⟩ := h
  have hScanned := scanned_scan c (cs ++ rest)
  rw [hScan] at hScanned
  exact hScanned

/-! ## From an alternative to the token -/

theorem scan_hash {cs : List Char} (h : cs.head? ≠ some '[') :
    Token.scan '#' cs = (.trivia, (cutLineComment cs).push '#') := by
  unfold Token.scan
  split
  case h_2 => exact absurd rfl h
  case h_4 => rfl
  all_goals contradiction

theorem scan_space {c : Char} (hc : isCodeSpace c = true) (cs : List Char) :
    Token.scan c cs = (.trivia, (Cut.takeWhile isCodeSpace cs).push c) := by
  unfold Token.scan
  split
  case h_8 => rw [if_pos hc]
  all_goals exact absurd hc (by decide)

theorem not_isCodeSpace_of_isQuote {c : Char} (h : isQuote c = true) : isCodeSpace c = false := by
  simp only [isQuote, Bool.or_eq_true, beq_iff_eq] at h
  rcases h with (rfl | rfl) | rfl <;> decide

theorem not_isCodeSpace_of_isIdentChar {c : Char} (h : isIdentChar c = true) :
    isCodeSpace c = false := by
  cases hSpace : isCodeSpace c with
  | false => rfl
  | true =>
    simp only [isCodeSpace, Bool.or_eq_true, beq_iff_eq] at hSpace
    rcases hSpace with ((rfl | rfl) | rfl) | rfl <;> exact absurd h (by decide)

theorem not_isQuote_of_isIdentChar {c : Char} (h : isIdentChar c = true) : isQuote c = false := by
  cases hQuote : isQuote c with
  | false => rfl
  | true =>
    simp only [isQuote, Bool.or_eq_true, beq_iff_eq] at hQuote
    rcases hQuote with (rfl | rfl) | rfl <;> exact absurd h (by decide)

theorem ne_escape_of_isQuote {c : Char} (h : isQuote c = true) : c ≠ '\\' := by
  rintro rfl
  exact absurd h (by decide)

theorem scan_string {c : Char} (hc : isQuote c = true) (cs : List Char) :
    Token.scan c cs = (.literal, (cutString c cs).push c) := by
  have hSpace := not_isCodeSpace_of_isQuote hc
  unfold Token.scan
  split
  case h_8 => simp [hSpace, hc]
  all_goals exact absurd hc (by decide)

theorem scan_word {c : Char} (hc : isIdentChar c = true) (cs : List Char) :
    Token.scan c cs =
      (.word (c :: cs.takeWhile isIdentChar), (Cut.takeWhile isIdentChar cs).push c) := by
  have hSpace := not_isCodeSpace_of_isIdentChar hc
  have hQuote := not_isQuote_of_isIdentChar hc
  unfold Token.scan
  split
  case h_8 => simp [hSpace, hQuote, hc, Cut.takeWhile]
  all_goals exact absurd hc (by decide)

theorem scan_variable {name rest : List Char} (hNe : name ≠ []) (h : Run isIdentChar name rest) :
    Token.scan '$' (name ++ rest) = (.variable_ name, ⟨'$' :: name, rest⟩) := by
  have hEmpty : name.isEmpty = false := by simpa using hNe
  simp [Token.scan, h.cut_eq, hEmpty, Cut.push]

theorem scan_punctuation {c : Char} {rest : List Char} (h : StandsAlone c rest) :
    Token.scan c rest = (.punctuation c, ⟨[c], rest⟩) := by
  unfold Token.scan
  split
  · exact absurd rfl (h.not_comment rfl).2
  · exact absurd rfl h.not_hash
  · exact absurd rfl (h.not_comment rfl).1
  · exact absurd rfl h.not_hash
  · exact absurd rfl (h.not_close rfl)
  · rename_i more
    rw [h.not_heredoc rfl more rfl]
  · have hStops : Run isIdentChar [] rest := .nil (h.not_variable rfl)
    have hCut := hStops.cut_eq
    rw [List.nil_append] at hCut
    simp [hCut]
  · simp [h.not_space, h.not_quote, h.not_ident]

theorem Scanned.leads {token : Token} {taken rest : List Char} (h : Scanned token taken rest) :
    token.Leads taken rest := by
  cases h with
  | @blockComment code taken _ h =>
    obtain rfl : taken ++ rest = code := by simpa [h] using cutBlockComment_text code
    refine ⟨'/', '*' :: taken, rfl, ?_⟩
    rw [List.cons_append, Token.scan, h]
    rfl
  | @attributes code taken _ h =>
    obtain rfl : taken ++ rest = code := by simpa [h] using cutBrackets_text 0 code
    refine ⟨'#', '[' :: taken, rfl, ?_⟩
    rw [List.cons_append, Token.scan, h]
    rfl
  | @slashComment code taken _ h =>
    obtain rfl : taken ++ rest = code := by simpa [h] using cutLineComment_text code
    refine ⟨'/', '/' :: taken, rfl, ?_⟩
    rw [List.cons_append, Token.scan, h]
    rfl
  | @hashComment code taken _ hNext h =>
    obtain rfl : taken ++ rest = code := by simpa [h] using cutLineComment_text code
    refine ⟨'#', taken, rfl, ?_⟩
    rw [scan_hash hNext, h]
    rfl
  | closeTag => exact ⟨'?', ['>'], rfl, rfl⟩
  | @heredoc code taken _ h =>
    obtain rfl : taken ++ rest = code := cutHeredoc?_text h
    refine ⟨'<', '<' :: '<' :: taken, rfl, ?_⟩
    rw [List.cons_append, List.cons_append, Token.scan, h]
    rfl
  | @variable_ name _ hNe h => exact ⟨'$', name, rfl, scan_variable hNe h⟩
  | @space c run _ hc h =>
    refine ⟨c, run, rfl, ?_⟩
    rw [scan_space hc, h.cut_eq]
    rfl
  | @string quote code taken _ hQuote h =>
    obtain rfl : taken ++ rest = code := by simpa [h] using cutString_text quote code
    refine ⟨quote, taken, rfl, ?_⟩
    rw [scan_string hQuote, h]
    rfl
  | @word c run _ hc h =>
    refine ⟨c, run, rfl, ?_⟩
    rw [scan_word hc, h.cut_eq, h.takeWhile_eq]
    rfl
  | @punctuation c _ h => exact ⟨c, [], rfl, scan_punctuation h⟩

/-! ## Block comments -/

theorem ofBlockComment_eq_trivia {body rest : List Char} (h : body.head? ≠ some '*') :
    Token.ofBlockComment (body ++ '*' :: '/' :: rest) = .trivia := by
  cases body with
  | nil => rfl
  | cons c body =>
    have hc : c ≠ '*' := by simpa using h
    simp [Token.ofBlockComment, hc]

theorem ofBlockComment_eq_docComment {body rest : List Char}
    (h : ¬ ['*', '/'] <:+: '*' :: body) :
    Token.ofBlockComment ('*' :: (body ++ '*' :: '/' :: rest)) = .docComment := by
  cases body with
  | nil => rfl
  | cons c body =>
    have hc : c ≠ '/' := by
      rintro rfl
      exact h ⟨[], body, rfl⟩
    simp [Token.ofBlockComment, hc]

theorem docComment_leads_closed {body : List Char} (h : ¬ ['*', '/'] <:+: '*' :: body)
    (rest : List Char) :
    Token.docComment.Leads ('/' :: '*' :: '*' :: (body ++ ['*', '/'])) rest := by
  have hLeads := (Scanned.blockComment (cutBlockComment_closed h rest)).leads
  rw [List.cons_append, ofBlockComment_eq_docComment h] at hLeads
  exact hLeads

end TagLint.Php
