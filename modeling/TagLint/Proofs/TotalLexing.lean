import TagLint.Proofs.RecognizedConstructs
import TagLint.Proofs.SignificantTokens

/-!
# Tokens cover the code

Reading tokens stops where nothing is left and, without a word, where no token is found. The second
never happens: the last alternative takes any character, and none of the others stalls or goes on
forever. So the tokens from any place of a source on reach to its end.

* `anyToken`, `readTokens`: the alternatives of a token in the order in which they are tried, and the
  reading of one token after another.
* `anyToken_of_scanned`, `anyToken_scan`: the first alternative that does not refuse gives the token of
  the scanner.
* `tiles_lexemes`: tokens follow one another without a gap.
* `lexemes_total`: reading from any place of a source on.
-/

namespace TagLint.Php

open Text (byteWidth Run Recognizer IsBoundary)
open Text.Recognizer

/-! ## One token -/

/-- The token that a block comment is, by its text. -/
def commentToken (text : List Char) : Token :=
  if ['/', '*', '*'] <+: text ∧ ¬ ['/', '*', '*', '/'] <+: text then .docComment else .trivia

/-- The name of a variable behind its dollar sign. -/
def variableName : Recognizer (List Char) := do
  exactly ['$']
  someOf isIdentChar

/-- Any token. The alternatives are tried in order; the last of them takes any character. -/
def anyToken (rounds : Nat) : Recognizer Token :=
  (someOf isCodeSpace).giving .trivia <|>
  commentToken <$> textOf blockComment <|>
  (attributes rounds).giving .trivia <|>
  (lineComment rounds).giving .trivia <|>
  (exactly ['?', '>']).giving .closeTag <|>
  (stringLiteral rounds <|> heredoc rounds).giving .literal <|>
  .variable_ <$> variableName <|>
  .word <$> someOf isIdentChar <|>
  .punctuation <$> one fun _ => true

/-- The tokens that are read one after another from what is left of a source, with the byte offsets
that the lengths of what is left amount to. The reading stops where nothing is left, and also where no
token is found. -/
def readTokens (source : List Char) : Nat → Recognizer (List Lexeme)
  | 0 => fun _ => .unfinished
  | rounds + 1 => fun code =>
    if code.isEmpty then .found [] code
    else
      match anyToken (rounds + 1) code with
      | .found token rest =>
        let lexeme : Lexeme :=
          ⟨token, byteWidth source - byteWidth code, byteWidth source - byteWidth rest⟩
        ((lexeme :: ·) <$> readTokens source rounds) rest
      | .refused => .found [] code
      | .stalled => .stalled
      | .unfinished => .unfinished

theorem commentToken_opened (taken : List Char) :
    commentToken ('/' :: '*' :: taken) = .ofBlockComment taken := by
  match taken with
  | [] => rfl
  | [c] =>
    by_cases hc : c = '*'
    · subst hc
      rfl
    · simp [commentToken, Token.ofBlockComment, hc, Ne.symm hc]
  | c :: d :: taken =>
    rw [commentToken, ofBlockComment_pair]
    by_cases hc : c = '*'
    · simp [hc, eq_comm]
    · simp [hc, Ne.symm hc]

/-- What a block comment is can be told from its own text, since it holds its end. -/
theorem commentToken_eq {taken rest : List Char}
    (h : cutBlockComment (taken ++ rest) = ⟨taken, rest⟩) :
    commentToken ('/' :: '*' :: taken) = .ofBlockComment (taken ++ rest) := by
  rw [commentToken_opened]
  rcases cutBlockComment_cases h with ⟨body, rfl, -⟩ | ⟨rfl, -⟩
  · rw [List.append_assoc]
    exact ofBlockComment_congr body [] rest
  · rw [List.append_nil]

/-- The character opens no construct before the rest of the code. -/
structure OpensNothing (c : Char) (rest : List Char) : Prop where
  not_space : isCodeSpace c = false
  not_quote : isQuote c = false
  not_hash : c ≠ '#'
  not_comment : c = '/' → rest.head? ≠ some '/' ∧ rest.head? ≠ some '*'
  not_close : c = '?' → rest.head? ≠ some '>'
  not_variable : c = '$' → ∀ d ∈ rest.head?, isIdentChar d = false
  not_heredoc : c = '<' → ∀ more, rest = '<' :: '<' :: more → cutHeredoc? more = none

theorem StandsAlone.opensNothing {c : Char} {rest : List Char} (h : StandsAlone c rest) :
    OpensNothing c rest :=
  ⟨h.not_space, h.not_quote, h.not_hash, h.not_comment, h.not_close, h.not_variable, h.not_heredoc⟩

theorem opensNothing_of_isIdentChar {c : Char} (h : isIdentChar c = true) (rest : List Char) :
    OpensNothing c rest := by
  have hNe : ∀ d : Char, isIdentChar d = false → c ≠ d := by
    rintro d hd rfl
    rw [h] at hd
    cases hd
  exact ⟨not_isCodeSpace_of_isIdentChar h, not_isQuote_of_isIdentChar h, hNe '#' rfl,
    fun hc => absurd hc (hNe '/' rfl), fun hc => absurd hc (hNe '?' rfl),
    fun hc => absurd hc (hNe '$' rfl), fun hc => absurd hc (hNe '<' rfl)⟩

theorem not_pair_leading {a b c : Char} {rest : List Char} (h : c = a → rest.head? ≠ some b) :
    ¬ [a, b] <+: c :: rest := by
  rintro ⟨more, hMore⟩
  obtain ⟨rfl, rfl⟩ := List.cons.inj hMore
  exact h rfl rfl

theorem heredoc_of_opensNothing {c : Char} {rest : List Char} (h : OpensNothing c rest) {rounds : Nat}
    (hRounds : rest.length < rounds) : heredoc rounds (c :: rest) = .refused := by
  by_cases hOpen : ['<', '<', '<'] <+: c :: rest
  · obtain ⟨more, hMore⟩ := hOpen
    obtain ⟨rfl, hRest⟩ := List.cons.inj hMore
    obtain rfl : rest = '<' :: '<' :: more := hRest.symm
    simp only [List.length_cons] at hRounds
    have hHeredoc := heredoc_opened (Nat.lt_of_succ_lt (Nat.lt_of_succ_lt hRounds))
    rw [h.not_heredoc rfl more rfl] at hHeredoc
    exact hHeredoc
  · exact heredoc_refused hOpen rounds

theorem variableName_of_opensNothing {c : Char} {rest : List Char} (h : OpensNothing c rest) :
    variableName (c :: rest) = .refused := by
  by_cases hc : c = '$'
  · subst hc
    have hOpening : exactly ['$'] ('$' :: rest) = .found () rest := exactly_append ['$'] rest
    rw [variableName, bind_of_found hOpening, someOf_of_stops (h.not_variable rfl)]
  · exact bind_of_refused (exactly_of_not_leading (by simp [Ne.symm hc])) _

/-- Where no construct opens, all alternatives for constructs refuse. -/
theorem anyToken_of_opensNothing {c : Char} {rest : List Char} (h : OpensNothing c rest) {rounds : Nat}
    (hRounds : rest.length < rounds) :
    anyToken rounds (c :: rest) =
      (.word <$> someOf isIdentChar <|> .punctuation <$> one fun _ => true : Recognizer Token)
        (c :: rest) := by
  have hSpace : someOf isCodeSpace (c :: rest) = .refused :=
    someOf_of_stops (by simpa using h.not_space)
  have hBlock : textOf blockComment (c :: rest) = .refused :=
    textOf_of_refused (blockComment_refused (not_pair_leading fun hc => (h.not_comment hc).2))
  have hAttributes : attributes rounds (c :: rest) = .refused :=
    attributes_refused (not_pair_leading fun hc => absurd hc h.not_hash) rounds
  have hLine : lineComment rounds (c :: rest) = .refused :=
    lineComment_refused (not_pair_leading fun hc => (h.not_comment hc).1)
      (by simp [Ne.symm h.not_hash]) rounds
  have hClose : exactly ['?', '>'] (c :: rest) = .refused :=
    exactly_of_not_leading (not_pair_leading h.not_close)
  have hLiteral : (stringLiteral rounds <|> heredoc rounds) (c :: rest) = .refused :=
    orElse_of_next (stringLiteral_of_stops (by simpa using h.not_quote) rounds)
      (heredoc_of_opensNothing h hRounds)
  have hVariable : variableName (c :: rest) = .refused := variableName_of_opensNothing h
  rw [anyToken, orElse_of_refused (giving_of_refused hSpace _),
    orElse_of_refused (map_of_refused hBlock _), orElse_of_refused (giving_of_refused hAttributes _),
    orElse_of_refused (giving_of_refused hLine _), orElse_of_refused (giving_of_refused hClose _),
    orElse_of_refused (giving_of_refused hLiteral _), orElse_of_refused (map_of_refused hVariable _)]

/-- Every alternative of the scanner is the first that does not refuse. -/
theorem anyToken_of_scanned {token : Token} {taken rest : List Char} (h : Scanned token taken rest)
    {rounds : Nat} (hRounds : (taken ++ rest).length < rounds) :
    anyToken rounds (taken ++ rest) = .found token rest := by
  -- where the first characters are known, the alternatives before refuse by evaluation
  cases h with
  | @blockComment code taken _ h =>
    obtain rfl : taken ++ rest = code := by simpa [h] using cutBlockComment_text code
    have hFound := blockComment_opened (taken ++ rest)
    rw [h] at hFound
    have hText : textOf blockComment ('/' :: '*' :: taken ++ rest) =
        .found ('/' :: '*' :: taken) rest := textOf_of_found hFound
    rw [← commentToken_eq h]
    exact orElse_of_next rfl (orElse_of_found (map_of_found hText _) _)
  | @attributes code taken _ h =>
    obtain rfl : taken ++ rest = code := by simpa [h] using cutBrackets_text 0 code
    simp only [List.cons_append, List.length_cons] at hRounds
    have hFound : attributes rounds ('#' :: '[' :: (taken ++ rest)) =
        .found () (cutBrackets 0 (taken ++ rest)).rest := attributes_opened (by omega)
    rw [h] at hFound
    exact orElse_of_next rfl (orElse_of_next rfl (orElse_of_found (giving_of_found hFound _) _))
  | @slashComment code taken _ h =>
    obtain rfl : taken ++ rest = code := by simpa [h] using cutLineComment_text code
    simp only [List.cons_append, List.length_cons] at hRounds
    have hFound : lineComment rounds ('/' :: '/' :: (taken ++ rest)) =
        .found () (cutLineComment (taken ++ rest)).rest := lineComment_slashes (by omega)
    rw [h] at hFound
    exact orElse_of_next rfl (orElse_of_next rfl (orElse_of_next rfl
      (orElse_of_found (giving_of_found hFound _) _)))
  | @hashComment code taken _ hNext h =>
    obtain rfl : taken ++ rest = code := by simpa [h] using cutLineComment_text code
    simp only [List.cons_append, List.length_cons] at hRounds
    have hFound : lineComment rounds ('#' :: (taken ++ rest)) =
        .found () (cutLineComment (taken ++ rest)).rest := lineComment_hash (by omega)
    rw [h] at hFound
    have hAttributes : attributes rounds ('#' :: (taken ++ rest)) = .refused :=
      attributes_refused (not_pair_leading fun _ => hNext) rounds
    exact orElse_of_next rfl (orElse_of_next rfl (orElse_of_next (giving_of_refused hAttributes _)
      (orElse_of_found (giving_of_found hFound _) _)))
  | closeTag =>
    have hFound : exactly ['?', '>'] ('?' :: '>' :: rest) = .found () rest :=
      exactly_append ['?', '>'] rest
    exact orElse_of_next rfl (orElse_of_next rfl (orElse_of_next rfl (orElse_of_next rfl
      (orElse_of_found (giving_of_found hFound _) _))))
  | @heredoc code taken _ h =>
    obtain rfl : taken ++ rest = code := cutHeredoc?_text h
    simp only [List.cons_append, List.length_cons] at hRounds
    have hLines : (taken ++ rest).length < rounds := by omega
    have hFound := heredoc_opened hLines
    rw [h] at hFound
    have hLiteral : (stringLiteral rounds <|> heredoc rounds)
        ('<' :: '<' :: '<' :: (taken ++ rest)) = .found () rest := orElse_of_next rfl hFound
    exact orElse_of_next rfl (orElse_of_next rfl (orElse_of_next rfl (orElse_of_next rfl
      (orElse_of_next rfl (orElse_of_found (giving_of_found hLiteral _) _)))))
  | @variable_ name _ hNe h =>
    have hOpening : exactly ['$'] ('$' :: (name ++ rest)) = .found () (name ++ rest) :=
      exactly_append ['$'] (name ++ rest)
    have hName : variableName ('$' :: (name ++ rest)) = .found name rest := by
      rw [variableName, bind_of_found hOpening, someOf_of_run hNe h]
    exact orElse_of_next rfl (orElse_of_next rfl (orElse_of_next rfl (orElse_of_next rfl
      (orElse_of_next rfl (orElse_of_next rfl (orElse_of_found (map_of_found hName _) _))))))
  | @space c run _ hc h =>
    have hRun : Run isCodeSpace ([c] ++ run) rest := .append (by simpa using hc) h
    have hSpace : someOf isCodeSpace (c :: run ++ rest) = .found (c :: run) rest :=
      someOf_of_run (by simp) hRun
    exact orElse_of_found (giving_of_found hSpace _) _
  | @string quote code taken _ hQuote h =>
    obtain rfl : taken ++ rest = code := by simpa [h] using cutString_text quote code
    simp only [List.cons_append, List.length_cons] at hRounds
    have hFound : stringLiteral rounds (quote :: (taken ++ rest)) =
        .found () (cutString quote (taken ++ rest)).rest := stringLiteral_of_quote hQuote (by omega)
    rw [h] at hFound
    have hLiteral : (stringLiteral rounds <|> heredoc rounds) (quote :: (taken ++ rest)) =
        .found () rest := orElse_of_found hFound _
    have hKinds : quote = '\'' ∨ quote = '"' ∨ quote = '`' := by
      simpa [isQuote, or_assoc] using hQuote
    rcases hKinds with rfl | rfl | rfl
    all_goals exact orElse_of_next rfl (orElse_of_next rfl (orElse_of_next rfl (orElse_of_next rfl
      (orElse_of_next rfl (orElse_of_found (giving_of_found hLiteral _) _)))))
  | @word c run _ hc h =>
    have hRun : Run isIdentChar ([c] ++ run) rest := .append (by simpa using hc) h
    have hWord : someOf isIdentChar (c :: run ++ rest) = .found (c :: run) rest :=
      someOf_of_run (by simp) hRun
    have hBehind : (run ++ rest).length < rounds := Nat.lt_of_succ_lt hRounds
    refine (anyToken_of_opensNothing (opensNothing_of_isIdentChar hc _) hBehind).trans ?_
    exact orElse_of_found (map_of_found hWord _) _
  | @punctuation c _ h =>
    have hWord : someOf isIdentChar (c :: rest) = .refused :=
      someOf_of_stops (by simpa using h.not_ident)
    have hBehind : rest.length < rounds := Nat.lt_of_succ_lt hRounds
    refine (anyToken_of_opensNothing h.opensNothing hBehind).trans ?_
    exact orElse_of_next (map_of_refused hWord _) rfl

/-- A token is found wherever code is left, and it is the one that the scanner takes. -/
theorem anyToken_scan (c : Char) (cs : List Char) {rounds : Nat}
    (hRounds : (c :: cs).length < rounds) :
    anyToken rounds (c :: cs) = .found (Token.scan c cs).1 (Token.scan c cs).2.rest := by
  have hText : (Token.scan c cs).2.taken ++ (Token.scan c cs).2.rest = c :: cs := Token.scan_text c cs
  have hFound := anyToken_of_scanned (scanned_scan c cs) (by rwa [hText])
  rwa [hText] at hFound

/-! ## All tokens -/

/-- Reading token by token ends where the source ends, and gives all tokens of the code. -/
theorem readTokens_eq_found (before : List Char) {code : List Char} {rounds : Nat}
    (hRounds : code.length < rounds) :
    readTokens (before ++ code) rounds code = .found (lexemes (byteWidth before) code) [] := by
  induction rounds generalizing before code with
  | zero => omega
  | succ rounds ih =>
    cases code with
    | nil => simp [readTokens, lexemes]
    | cons c cs =>
      have hShorter := Token.scan_rest_length c cs
      have hText : (Token.scan c cs).2.taken ++ (Token.scan c cs).2.rest = c :: cs :=
        Token.scan_text c cs
      have hRest := @ih (before ++ (Token.scan c cs).2.taken) (Token.scan c cs).2.rest (by omega)
      rw [List.append_assoc, hText, Text.byteWidth_append] at hRest
      have hWidth := congrArg byteWidth hText
      rw [Text.byteWidth_append] at hWidth
      have hStart : byteWidth (before ++ c :: cs) - byteWidth (c :: cs) = byteWidth before := by
        rw [Text.byteWidth_append]
        omega
      have hStop : byteWidth (before ++ c :: cs) - byteWidth (Token.scan c cs).2.rest =
          byteWidth before + byteWidth (Token.scan c cs).2.taken := by
        rw [Text.byteWidth_append]
        omega
      simp only [readTokens, List.isEmpty_cons, Bool.false_eq_true, if_false, anyToken_scan c cs hRounds]
      rw [map_of_found hRest, lexemes, hStart, hStop]

/-- The tokens follow one another from one byte offset to another without a gap. Each of them takes
something, from one character boundary of the source to another. -/
inductive Tiles (source : List Char) : Nat → List Lexeme → Nat → Prop
  | done (offset : Nat) : Tiles source offset [] offset
  | token {x : Lexeme} {xs : List Lexeme} {stop : Nat} (hFilled : x.start < x.stop)
      (hStart : IsBoundary source x.start) (hStop : IsBoundary source x.stop)
      (hRest : Tiles source x.stop xs stop) : Tiles source x.start (x :: xs) stop

theorem tiles_lexemes {source code : List Char} {offset : Nat} (h : StandsAt source code offset) :
    Tiles source offset (lexemes offset code) (offset + byteWidth code) := by
  induction code using leads_induction generalizing offset with
  | nil =>
    rw [lexemes]
    exact .done offset
  | token token taken rest hLeads ih =>
    have hFilled := Text.byteWidth_pos hLeads.ne_nil
    have hRest := ih rest (Nat.le_refl _) h.right
    rw [lexemes_leads hLeads, Text.byteWidth_append, ← Nat.add_assoc]
    exact .token (x := ⟨token, offset, offset + byteWidth taken⟩) (by simpa using hFilled)
      h.isBoundary_start h.left.isBoundary_stop hRest

/-- In these rounds all constructs come to their end in the text behind what opens them, be it closed
there or not. -/
structure ConstructsEnd (rounds : Nat) (cs : List Char) : Prop where
  string_ends : ∀ quote, isQuote quote = true →
    stringLiteral rounds (quote :: cs) = .found () (cutString quote cs).rest
  lineComment_ends : repeated lineCommentPiece rounds cs = .found () (cutLineComment cs).rest
  blockComment_ends : blockComment ('/' :: '*' :: cs) = .found () (cutBlockComment cs).rest
  brackets_end : bracketGroup rounds cs = .found () (cutBrackets 0 cs).rest
  heredoc_ends : ∀ label, heredocLines label rounds cs = .found () (cutHeredocLines label cs).rest

theorem constructsEnd {rounds : Nat} {cs : List Char} (hRounds : cs.length < rounds) :
    ConstructsEnd rounds cs where
  string_ends _ hQuote := stringLiteral_of_quote hQuote hRounds
  lineComment_ends := repeated_lineCommentPiece hRounds
  blockComment_ends := blockComment_opened cs
  brackets_end := bracketGroup_found hRounds
  heredoc_ends label := heredocLines_found label hRounds

/-- **Tokens cover the code.** Behind every character boundary of a source, the tokens follow one
another without a gap to the end of the source, each over some characters. Reading them one by one
gives all of them: wherever code is left a token is found, what is repeated in a construct takes a
character at least in every round, and all constructs come to an end. None of these needs more rounds
than the text has characters and one. -/
theorem lexemes_total (before code : List Char) :
    Tiles (before ++ code) (byteWidth before) (lexemes (byteWidth before) code)
      (byteWidth (before ++ code)) ∧
    (∀ rounds > code.length,
      readTokens (before ++ code) rounds code = .found (lexemes (byteWidth before) code) []) ∧
    (∀ c cs, ∀ rounds > (c :: cs).length,
      anyToken rounds (c :: cs) = .found (Token.scan c cs).1 (Token.scan c cs).2.rest ∧
        (Token.scan c cs).2.rest.length < (c :: cs).length) ∧
    (∀ quote, (stringPiece quote).Progresses) ∧ lineCommentPiece.Progresses ∧
    (∀ rounds, (bracketPiece (bracketGroup rounds) (rounds + 1)).Progresses) ∧
    ∀ cs : List Char, ∀ rounds > cs.length, ConstructsEnd rounds cs := by
  refine ⟨?_, ?_, ?_, progresses_stringPiece, progresses_lineCommentPiece, ?_, ?_⟩
  · have hTiles := tiles_lexemes (StandsAt.whole (before ++ code)).right
    rwa [Nat.zero_add, ← Text.byteWidth_append] at hTiles
  · intro rounds hRounds
    exact readTokens_eq_found before hRounds
  · intro c cs rounds hRounds
    exact ⟨anyToken_scan c cs hRounds, Token.scan_rest_length c cs⟩
  · intro rounds
    exact progresses_bracketPiece (staysWithin_bracketGroup rounds) (rounds + 1)
  · intro cs rounds hRounds
    exact constructsEnd hRounds

/-- A bracket group and a string inside of it that are not closed. -/
example : readTokens "é #[[']\\".toList 9 " #[[']\\".toList =
    .found [⟨.trivia, 2, 3⟩, ⟨.trivia, 3, 9⟩] [] := by
  decide +kernel

end TagLint.Php
