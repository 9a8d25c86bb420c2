import TagLint.Proofs.Lookahead
import TagLint.Proofs.Recognizers

/-!
# Constructs as recognizers

The lexical constructs of PHP, put together from recognizers with their failing branches, repetitions
and recursions written out. Strings, line comments and bracket groups repeat a piece until it refuses,
bracket groups recur, and the lines of a heredoc are a loop that nothing in itself ends. Each of them
comes to an end, with or without a closing delimiter, and leaves what the scanner of the construct
leaves.

* `stringLiteral_of_quote`, `repeated_lineCommentPiece`, `blockComment_opened`, `bracketGroup_found`,
  `heredocLines_found`: the ends of the five kinds of constructs.
* `progresses_stringPiece`, `progresses_lineCommentPiece`, `progresses_bracketPiece`: what is repeated
  takes a character at least.
-/

namespace TagLint.Php

open Text (Cut Run Recognizer isSpaceOrTab)
open Text.Recognizer

/-! ## The recognizers -/

/-- Whether a character of a string neither ends it nor keeps another one from ending it. -/
def isStringText (quote c : Char) : Bool :=
  c != quote && c != '\\'

/-- A piece of the inside of a string: plain text, or a backslash with the character behind it. -/
def stringPiece (quote : Char) : Recognizer Unit :=
  discard (someOf (isStringText quote)) <|>
    (do exactly ['\\']; discard (optional (one fun _ => true)))

/-- A string in any quotes, which may have no end. -/
def stringLiteral (rounds : Nat) : Recognizer Unit := do
  let quote ← one isQuote
  repeated (stringPiece quote) rounds
  discard (optional (exactly [quote]))

/-- Whether a character of a line comment neither ends it nor may begin a close tag. -/
def isLineText (c : Char) : Bool :=
  c != '\n' && c != '?'

/-- A piece of a line comment: plain text, or a question mark that begins no close tag. -/
def lineCommentPiece : Recognizer Unit :=
  discard (someOf isLineText) <|> (do exactly ['?']; notAhead (exactly ['>']))

/-- A line comment up to its end. -/
def lineComment (rounds : Nat) : Recognizer Unit := do
  exactly ['/', '/'] <|> exactly ['#']
  repeated lineCommentPiece rounds

/-- A block comment, which may have no end. -/
def blockComment : Recognizer Unit := do
  exactly ['/', '*']
  (do upTo ['*', '/']; exactly ['*', '/']) <|> everything

/-- Whether a character of a bracket group is neither a bracket nor a quote. -/
def isGroupText (c : Char) : Bool :=
  c != '[' && c != ']' && c != '\'' && c != '"'

/-- A piece of the inside of a bracket group: plain text, a string, or a group inside of it. -/
def bracketPiece (inner : Recognizer Unit) (rounds : Nat) : Recognizer Unit :=
  discard (someOf isGroupText) <|> stringLiteral rounds <|> (do exactly ['[']; inner)

/-- A bracket group behind its opening bracket, which may have no end. A group inside of it has one
round less, so the rounds bound the depth of the groups too. -/
def bracketGroup : Nat → Recognizer Unit
  | 0 => fun _ => .unfinished
  | rounds + 1 => do
    repeated (bracketPiece (bracketGroup rounds) (rounds + 1)) (rounds + 1)
    discard (optional (exactly [']']))

/-- An attribute group. -/
def attributes (rounds : Nat) : Recognizer Unit := do
  exactly ['#', '[']
  bracketGroup rounds

/-- The label of a heredoc, as a word of its own. -/
def closingLabel (label : List Char) : Recognizer Unit := do
  exactly label
  notAhead (one isIdentChar)

/-- The lines of a heredoc behind its label. In each round the rest of a line is passed over, and the
next line is asked for the label. -/
def heredocLines (label : List Char) : Nat → Recognizer Unit
  | 0 => fun _ => .unfinished
  | rounds + 1 => do
    discard (runOf (· != '\n'))
    let feed ← optional (exactly ['\n'])
    if feed.isNone then return ()
    discard (runOf isSpaceOrTab)
    let closing ← optional (closingLabel label)
    if closing.isSome then return ()
    heredocLines label rounds

/-- A heredoc, which needs a label and may have no end. -/
def heredoc (rounds : Nat) : Recognizer Unit := do
  exactly ['<', '<', '<']
  discard (runOf isSpaceOrTab)
  discard (optional (one fun c => c == '\'' || c == '"'))
  let label ← someOf isIdentChar
  heredocLines label rounds

/-! ## Strings -/

theorem progresses_stringPiece (quote : Char) : (stringPiece quote).Progresses := by
  have hAny : (discard (optional (one fun _ => true))).StaysWithin :=
    (progresses_one _).staysWithin.optional.discard
  exact (progresses_someOf _).discard.orElse ((progresses_exactly (by simp)).bind fun _ => hAny)

theorem cutString_rest_text {quote c : Char} (h : isStringText quote c = true) (cs : List Char) :
    (cutString quote (c :: cs)).rest = (cutString quote cs).rest := by
  obtain ⟨hQuote, hEscape⟩ : c ≠ quote ∧ c ≠ '\\' := by simpa [isStringText] using h
  rw [cutString_cons hEscape, if_neg hQuote, Cut.push_rest]

theorem stringPiece_round (quote : Char) (cs : List Char) :
    Round (stringPiece quote) (discard (optional (exactly [quote])))
      (fun cs => (cutString quote cs).rest) cs := by
  cases cs with
  | nil => exact .last rfl rfl
  | cons c cs =>
    cases hText : isStringText quote c with
    | true => exact .of_text hText (fun c cs h => cutString_rest_text h cs) cs
    | false =>
      have hPlain : discard (someOf (isStringText quote)) (c :: cs) = .refused :=
        discard_of_refused (someOf_of_stops (by simpa using hText))
      by_cases hEscape : c = '\\'
      · subst hEscape
        cases cs with
        | nil => exact .more (orElse_of_refused hPlain _) rfl
        | cons d cs => exact .more (orElse_of_refused hPlain _) rfl
      · obtain rfl : c = quote := by simpa [isStringText, hEscape] using hText
        refine .last ?_ ?_
        · rw [stringPiece, orElse_of_refused hPlain]
          exact bind_of_refused (exactly_of_not_leading (by simp [Ne.symm hEscape])) _
        · rw [cutString_cons hEscape, if_pos rfl]
          exact discard_of_found (optional_of_found (exactly_append [c] cs))

/-- A string comes to its end, which is where the scanner cuts it. -/
theorem stringLiteral_of_quote {quote : Char} (hQuote : isQuote quote = true) {rounds : Nat}
    {cs : List Char} (hRounds : cs.length < rounds) :
    stringLiteral rounds (quote :: cs) = .found () (cutString quote cs).rest := by
  obtain ⟨mid, hMid, hEnding⟩ := exists_repeated (progresses_stringPiece quote)
    (fun cs _ => stringPiece_round quote cs) (Nat.le_refl _) hRounds
  rw [stringLiteral, bind_of_found (one_of_pos hQuote cs), bind_of_found hMid]
  exact hEnding

theorem stringLiteral_of_stops {cs : List Char} (h : ∀ c ∈ cs.head?, isQuote c = false)
    (rounds : Nat) : stringLiteral rounds cs = .refused :=
  bind_of_refused (one_of_stops h) _

theorem progresses_stringLiteral (rounds : Nat) : (stringLiteral rounds).Progresses := by
  refine (progresses_one _).bind fun quote => ?_
  refine ((progresses_stringPiece quote).staysWithin.repeated rounds).bind fun _ => ?_
  exact (progresses_exactly (by simp)).staysWithin.optional.discard

/-! ## Comments -/

theorem progresses_lineCommentPiece : lineCommentPiece.Progresses :=
  (progresses_someOf _).discard.orElse
    ((progresses_exactly (by simp)).bind fun _ => staysWithin_notAhead _)

theorem cutLineComment_rest_text {c : Char} (h : isLineText c = true) (cs : List Char) :
    (cutLineComment (c :: cs)).rest = (cutLineComment cs).rest := by
  obtain ⟨hFeed, hMark⟩ : c ≠ '\n' ∧ c ≠ '?' := by simpa [isLineText] using h
  rw [cutLineComment_cons hFeed (by simp [hMark]), Cut.push_rest]

theorem lineCommentPiece_round (cs : List Char) :
    Round lineCommentPiece (pure ()) (fun cs => (cutLineComment cs).rest) cs := by
  cases cs with
  | nil => exact .last rfl rfl
  | cons c cs =>
    cases hText : isLineText c with
    | true => exact .of_text hText (fun c cs h => cutLineComment_rest_text h cs) cs
    | false =>
      have hPlain : discard (someOf isLineText) (c :: cs) = .refused :=
        discard_of_refused (someOf_of_stops (by simpa using hText))
      by_cases hMark : c = '?'
      · subst hMark
        by_cases hClose : cs.head? = some '>'
        · obtain ⟨rest, rfl⟩ := head?_eq_some_iff_exists.mp hClose
          exact .last (orElse_of_refused hPlain _) rfl
        · have hOpen : notAhead (exactly ['>']) cs = .found () cs := by
            cases cs with
            | nil => rfl
            | cons d cs =>
              have hNext : d ≠ '>' := by simpa using hClose
              simp [notAhead, exactly, Ne.symm hNext]
          refine .more (orElse_of_next hPlain hOpen) ?_
          rw [cutLineComment_cons (by decide) (by simp [hClose]), Cut.push_rest]
      · obtain rfl : c = '\n' := by simpa [isLineText, hMark] using hText
        exact .last (orElse_of_refused hPlain _) rfl

theorem repeated_lineCommentPiece {rounds : Nat} {cs : List Char} (hRounds : cs.length < rounds) :
    repeated lineCommentPiece rounds cs = .found () (cutLineComment cs).rest := by
  obtain ⟨mid, hMid, hEnding⟩ := exists_repeated progresses_lineCommentPiece
    (fun cs _ => lineCommentPiece_round cs) (Nat.le_refl _) hRounds
  rw [hMid]
  exact hEnding

theorem lineComment_slashes {rounds : Nat} {cs : List Char} (hRounds : cs.length < rounds) :
    lineComment rounds ('/' :: '/' :: cs) = .found () (cutLineComment cs).rest := by
  have hOpening : (exactly ['/', '/'] <|> exactly ['#']) ('/' :: '/' :: cs) = .found () cs :=
    orElse_of_found (exactly_append ['/', '/'] cs) _
  rw [lineComment, bind_of_found hOpening, repeated_lineCommentPiece hRounds]

theorem lineComment_hash {rounds : Nat} {cs : List Char} (hRounds : cs.length < rounds) :
    lineComment rounds ('#' :: cs) = .found () (cutLineComment cs).rest := by
  have hSlashes : exactly ['/', '/'] ('#' :: cs) = .refused := exactly_of_not_leading (by simp)
  have hOpening : (exactly ['/', '/'] <|> exactly ['#']) ('#' :: cs) = .found () cs :=
    orElse_of_next hSlashes (exactly_append ['#'] cs)
  rw [lineComment, bind_of_found hOpening, repeated_lineCommentPiece hRounds]

theorem lineComment_refused {cs : List Char} (hSlashes : ¬ ['/', '/'] <+: cs) (hHash : ¬ ['#'] <+: cs)
    (rounds : Nat) : lineComment rounds cs = .refused := by
  apply bind_of_refused
  rw [orElse_of_refused (exactly_of_not_leading hSlashes), exactly_of_not_leading hHash]

/-- A block comment without an end is everything that is left. -/
theorem upTo_cases (cs : List Char) :
    (∃ rest, upTo ['*', '/'] cs = .found () ('*' :: '/' :: rest) ∧
      (cutBlockComment cs).rest = rest) ∨
    upTo ['*', '/'] cs = .refused ∧ (cutBlockComment cs).rest = [] := by
  fun_induction cutBlockComment cs with
  | case1 => exact .inr ⟨rfl, rfl⟩
  | case2 cs => exact .inl ⟨cs, by simp [upTo], rfl⟩
  | case3 c cs hEnd ih =>
    have hNext : upTo ['*', '/'] (c :: cs) = upTo ['*', '/'] cs := by
      rw [upTo, if_neg]
      simp only [List.isPrefixOf_iff_prefix]
      rintro ⟨more, hMore⟩
      obtain ⟨rfl, rfl⟩ := List.cons.inj hMore
      exact hEnd more rfl rfl
    rw [hNext, Cut.push_rest]
    exact ih

theorem blockComment_opened (cs : List Char) :
    blockComment ('/' :: '*' :: cs) = .found () (cutBlockComment cs).rest := by
  have hOpening : exactly ['/', '*'] ('/' :: '*' :: cs) = .found () cs := exactly_append ['/', '*'] cs
  rw [blockComment, bind_of_found hOpening]
  rcases upTo_cases cs with ⟨rest, hFound, hRest⟩ | ⟨hRefused, hRest⟩
  · have hEnd := (bind_of_found hFound fun _ => exactly ['*', '/']).trans
      (exactly_append ['*', '/'] rest)
    rw [orElse_of_found hEnd, hRest]
  · rw [orElse_of_refused (bind_of_refused hRefused _), hRest]
    rfl

theorem blockComment_refused {cs : List Char} (h : ¬ ['/', '*'] <+: cs) : blockComment cs = .refused :=
  bind_of_refused (exactly_of_not_leading h) _

/-! ## Bracket groups -/

theorem progresses_bracketPiece {inner : Recognizer Unit} (hInner : inner.StaysWithin) (rounds : Nat) :
    (bracketPiece inner rounds).Progresses :=
  (progresses_someOf _).discard.orElse ((progresses_stringLiteral rounds).orElse
    ((progresses_exactly (by simp)).bind fun _ => hInner))

theorem staysWithin_bracketGroup (rounds : Nat) : (bracketGroup rounds).StaysWithin := by
  induction rounds with
  | zero =>
    intro cs a rest h
    cases h
  | succ rounds ih =>
    refine ((progresses_bracketPiece ih _).staysWithin.repeated _).bind fun _ => ?_
    exact (progresses_exactly (by simp)).staysWithin.optional.discard

/-- Behind the end of an inner group, the groups around it go on. -/
theorem cutBrackets_rest_add (outer depth : Nat) (cs : List Char) :
    (cutBrackets (depth + outer + 1) cs).rest =
      (cutBrackets outer (cutBrackets depth cs).rest).rest := by
  fun_induction cutBrackets depth cs with
  | case1 => simp [cutBrackets]
  | case2 cs =>
    rw [Nat.zero_add, cutBrackets_close]
    rfl
  | case3 cs depth ih =>
    rw [show depth + 1 + outer + 1 = (depth + outer + 1) + 1 by omega, cutBrackets_close]
    exact ih
  | case4 depth cs _ ih =>
    rw [cutBrackets_open, show depth + outer + 1 + 1 = (depth + 1) + outer + 1 by omega]
    exact ih
  | case5 depth c cs _ _ hQuote string ih =>
    rw [cutBrackets_string _ _ hQuote]
    exact ih
  | case6 depth c cs hClose hOpen hQuote ih =>
    rw [cutBrackets_plain _ _ hOpen hClose hQuote]
    exact ih

theorem cutBrackets_rest_text {c : Char} (h : isGroupText c = true) (depth : Nat) (cs : List Char) :
    (cutBrackets depth (c :: cs)).rest = (cutBrackets depth cs).rest := by
  obtain ⟨⟨⟨hOpen, hClose⟩, hSingle⟩, hDouble⟩ : ((c ≠ '[' ∧ c ≠ ']') ∧ c ≠ '\'') ∧ c ≠ '"' := by
    simpa [isGroupText] using h
  rw [cutBrackets_plain _ _ hOpen hClose (by simp [hSingle, hDouble]), Cut.push_rest]

theorem bracketPiece_round {rounds : Nat}
    (hInner : ∀ cs : List Char, cs.length < rounds →
      bracketGroup rounds cs = .found () (cutBrackets 0 cs).rest)
    {cs : List Char} (hBound : cs.length ≤ rounds) :
    Round (bracketPiece (bracketGroup rounds) (rounds + 1)) (discard (optional (exactly [']'])))
      (fun cs => (cutBrackets 0 cs).rest) cs := by
  -- the scanner counts open brackets where the group recurs, so an inner group is depth 1 here
  cases cs with
  | nil =>
    refine .last rfl ?_
    rw [cutBrackets]
    rfl
  | cons c cs =>
    rw [List.length_cons] at hBound
    cases hText : isGroupText c with
    | true => exact .of_text hText (fun c cs h => cutBrackets_rest_text h 0 cs) cs
    | false =>
      have hPlain : discard (someOf isGroupText) (c :: cs) = .refused :=
        discard_of_refused (someOf_of_stops (by simpa using hText))
      by_cases hQuote : c = '\'' ∨ c = '"'
      · have hString : stringLiteral (rounds + 1) (c :: cs) = .found () (cutString c cs).rest :=
          stringLiteral_of_quote (by rcases hQuote with rfl | rfl <;> rfl) (by omega)
        refine .more (orElse_of_next hPlain (orElse_of_found hString _)) ?_
        rw [cutBrackets_string _ _ hQuote, Cut.pushAll_rest]
      · have hBracket : c = '[' ∨ c = ']' := by
          simp only [isGroupText] at hText
          grind
        have hString : stringLiteral (rounds + 1) (c :: cs) = .refused :=
          stringLiteral_of_stops (by rcases hBracket with rfl | rfl <;> simp [isQuote]) _
        rcases hBracket with rfl | rfl
        · have hOpening : exactly ['['] ('[' :: cs) = .found () cs := exactly_append ['['] cs
          have hGroup := (bind_of_found hOpening fun _ => bracketGroup rounds).trans
            (hInner cs (by omega))
          refine .more (orElse_of_next hPlain (orElse_of_next hString hGroup)) ?_
          rw [cutBrackets_open, Cut.push_rest]
          exact (cutBrackets_rest_add 0 0 cs).symm
        · refine .last (orElse_of_next hPlain (orElse_of_refused hString _)) ?_
          rw [cutBrackets_last]
          exact discard_of_found (optional_of_found (exactly_append [']'] cs))

/-- Groups inside of groups come to their end, which is where the scanner cuts the outermost one. -/
theorem bracketGroup_found {rounds : Nat} {cs : List Char} (hRounds : cs.length < rounds) :
    bracketGroup rounds cs = .found () (cutBrackets 0 cs).rest := by
  induction rounds generalizing cs with
  | zero => omega
  | succ rounds ih =>
    obtain ⟨mid, hMid, hEnding⟩ := exists_repeated
      (progresses_bracketPiece (staysWithin_bracketGroup rounds) (rounds + 1))
      (fun cs hBound => bracketPiece_round (fun cs => ih) hBound) (Nat.le_of_lt_succ hRounds) hRounds
    rw [bracketGroup, bind_of_found hMid]
    exact hEnding

theorem attributes_opened {rounds : Nat} {cs : List Char} (hRounds : cs.length < rounds) :
    attributes rounds ('#' :: '[' :: cs) = .found () (cutBrackets 0 cs).rest := by
  have hOpening : exactly ['#', '['] ('#' :: '[' :: cs) = .found () cs := exactly_append ['#', '['] cs
  rw [attributes, bind_of_found hOpening, bracketGroup_found hRounds]

theorem attributes_refused {cs : List Char} (h : ¬ ['#', '['] <+: cs) (rounds : Nat) :
    attributes rounds cs = .refused :=
  bind_of_refused (exactly_of_not_leading h) _

/-! ## Heredocs -/

/-- The label is found at the start of a line exactly if the scanner closes the heredoc there. -/
theorem closingLabel_eq (label cs : List Char) :
    closingLabel label cs =
      if closesHeredoc label cs then .found () (cs.drop label.length) else .refused := by
  by_cases hLabel : label <+: cs
  · obtain ⟨rest, rfl⟩ := hLabel
    rw [closingLabel, bind_of_found (exactly_append label rest), closesHeredoc]
    cases rest with
    | nil => simp [notAhead, one]
    | cons c rest => cases hIdent : isIdentChar c <;> simp [notAhead, one, hIdent]
  · rw [closingLabel, bind_of_refused (exactly_of_not_leading hLabel)]
    simp [closesHeredoc, hLabel]

/-- The rest of a line is passed over, up to its feed or to the end of the text. -/
theorem discard_line {first rest : List Char} (hFirst : '\n' ∉ first)
    (hRest : ∀ c ∈ rest.head?, c = '\n') :
    discard (runOf (· != '\n')) (first ++ rest) = .found () rest := by
  have hRun : Run (· != '\n') first rest := by
    refine ⟨?_, ?_⟩
    · intro c hc
      have hNe : c ≠ '\n' := fun hEq => hFirst (hEq ▸ hc)
      simpa using hNe
    · intro c hc
      simp [hRest c hc]
  refine discard_of_found (a := first) ?_
  rw [runOf, hRun.takeWhile_eq, hRun.dropWhile_eq]

/-- Each round takes a line feed at least, so the lines of a heredoc come to their end, which is where
the scanner cuts them. -/
theorem heredocLines_found (label : List Char) {rounds : Nat} {cs : List Char}
    (hRounds : cs.length < rounds) :
    heredocLines label rounds cs = .found () (cutHeredocLines label cs).rest := by
  induction rounds generalizing cs with
  | zero => omega
  | succ rounds ih =>
    rcases feed_cases cs with hNone | ⟨first, line, rfl, hFirst⟩
    · have hLine : discard (runOf (· != '\n')) cs = .found () [] := by
        simpa using discard_line hNone (by simp : ∀ c ∈ ([] : List Char).head?, c = '\n')
      rw [heredocLines, bind_of_found hLine, cutHeredocLines_last hNone]
      rfl
    · have hLine : discard (runOf (· != '\n')) (first ++ '\n' :: line) = .found () ('\n' :: line) :=
        discard_line hFirst (by simp)
      have hFeed : optional (exactly ['\n']) ('\n' :: line) = .found (some ()) line :=
        optional_of_found (exactly_append ['\n'] line)
      have hIndent : discard (runOf isSpaceOrTab) line =
          .found () (Cut.takeWhile isSpaceOrTab line).rest := rfl
      rw [heredocLines, bind_of_found hLine, bind_of_found hFeed, cutHeredocLines_step hFirst]
      simp only [Option.isNone_some, Bool.false_eq_true, if_false]
      rw [bind_of_found hIndent]
      cases hCloses : closesHeredoc label (Cut.takeWhile isSpaceOrTab line).rest with
      | true =>
        have hClosing := closingLabel_eq label (Cut.takeWhile isSpaceOrTab line).rest
        rw [hCloses, if_pos rfl] at hClosing
        rw [bind_of_found (optional_of_found hClosing)]
        rfl
      | false =>
        have hOpen := closingLabel_eq label (Cut.takeWhile isSpaceOrTab line).rest
        rw [hCloses, if_neg (by simp)] at hOpen
        rw [bind_of_found (optional_of_refused hOpen)]
        have hShorter := Cut.rest_length_le_of_text (Cut.takeWhile_text isSpaceOrTab line)
        simp only [List.length_append, List.length_cons] at hRounds
        exact ih (by omega)

theorem discard_labelQuote (cs : List Char) :
    discard (optional (one fun c => c == '\'' || c == '"')) cs =
      .found () (cutLabelQuote cs).rest := by
  unfold cutLabelQuote
  split
  · rfl
  · rfl
  · rename_i hSingle hDouble
    refine discard_of_found (optional_of_refused (one_of_stops ?_))
    intro c hc
    obtain ⟨cs, rfl⟩ := head?_eq_some_iff_exists.mp hc
    have hNotSingle : c ≠ '\'' := fun h => hSingle cs (h ▸ rfl)
    have hNotDouble : c ≠ '"' := fun h => hDouble cs (h ▸ rfl)
    simp [hNotSingle, hNotDouble]

/-- A heredoc is refused only where it has no label, and comes to its end otherwise. -/
theorem heredoc_opened {rounds : Nat} {cs : List Char} (hRounds : cs.length < rounds) :
    heredoc rounds ('<' :: '<' :: '<' :: cs) =
      match cutHeredoc? cs with
      | some k => .found () k.rest
      | none => .refused := by
  have hOpening : exactly ['<', '<', '<'] ('<' :: '<' :: '<' :: cs) = .found () cs :=
    exactly_append ['<', '<', '<'] cs
  have hIndent : discard (runOf isSpaceOrTab) cs = .found () (Cut.takeWhile isSpaceOrTab cs).rest := rfl
  have hQuote := discard_labelQuote (Cut.takeWhile isSpaceOrTab cs).rest
  rw [heredoc, bind_of_found hOpening, bind_of_found hIndent, bind_of_found hQuote, cutHeredoc?]
  have hLength : (cutLabelQuote (Cut.takeWhile isSpaceOrTab cs).rest).rest.length ≤ cs.length :=
    Nat.le_trans (Cut.rest_length_le_of_text (cutLabelQuote_text _))
      (Cut.rest_length_le_of_text (Cut.takeWhile_text _ _))
  generalize (cutLabelQuote (Cut.takeWhile isSpaceOrTab cs).rest).rest = text at hLength
  have hLines := Cut.rest_length_le_of_text (Cut.takeWhile_text isIdentChar text)
  cases hEmpty : (Cut.takeWhile isIdentChar text).taken.isEmpty with
  | true =>
    have hLabel : someOf isIdentChar text = .refused := if_pos hEmpty
    rw [bind_of_refused hLabel, if_pos rfl]
  | false =>
    have hLabel : someOf isIdentChar text =
        .found (Cut.takeWhile isIdentChar text).taken (Cut.takeWhile isIdentChar text).rest :=
      if_neg (Bool.eq_false_iff.mp hEmpty)
    rw [bind_of_found hLabel, heredocLines_found _ (by omega), if_neg (by simp)]
    rfl

theorem heredoc_refused {cs : List Char} (h : ¬ ['<', '<', '<'] <+: cs) (rounds : Nat) :
    heredoc rounds cs = .refused :=
  bind_of_refused (exactly_of_not_leading h) _

end TagLint.Php
