import TagLint.Text.Blank
import TagLint.Text.Cut
import TagLint.Text.Width

/-!
# Tokens of PHP code

Just enough of the lexical structure of PHP to find doc comments and the heads of declarations:
strings, heredocs, comments, attributes, close tags, variables and words; every other character is a
token of its own. Each scanner is given the text after the characters that select it and cuts it
where its construct ends. A construct without an end runs to the end of the text.

* `Token.scan_text`: the cut of a token gives back the code it was read from.
* `Token.scan_rest_length`: what is left is shorter, so every code has finitely many tokens.
-/

namespace TagLint.Php

open Text (Cut byteWidth isSpaceOrTab)

/-- The lexical elements that matter here. -/
inductive Token
  /-- A comment that opens with `/**`. -/
  | docComment
  /-- Space, ordinary comments and attributes. -/
  | trivia
  /-- The end of the code, after which plain text follows. -/
  | closeTag
  /-- A string or a heredoc. -/
  | literal
  /-- A variable, by its name without the dollar sign. -/
  | variable_ (name : List Char)
  | word (text : List Char)
  | punctuation (c : Char)
deriving Repr, DecidableEq, Inhabited

/-- Whether a character may stand in an identifier: an underscore, a letter or digit of ASCII, or
anything outside ASCII. -/
def isIdentChar (c : Char) : Bool :=
  c == '_' || c.isAlphanum || !(c.toNat < 0x80)

/-- Whether a character is space between tokens. -/
def isCodeSpace (c : Char) : Bool :=
  c == ' ' || c == '\t' || c == '\r' || c == '\n'

/-- Whether a character opens a string. -/
def isQuote (c : Char) : Bool :=
  c == '\'' || c == '"' || c == '`'

/-! ## Plain text around the code -/

/-- Cuts after the rest of an open tag, which is `php` in any case, an equals sign or nothing. -/
def cutOpenTag : List Char → Cut
  | '=' :: cs => ⟨['='], cs⟩
  | a :: b :: c :: cs =>
    if [a, b, c].map Char.toLower = ['p', 'h', 'p'] then ⟨[a, b, c], cs⟩ else ⟨[], a :: b :: c :: cs⟩
  | cs => ⟨[], cs⟩

/-- Cuts plain text after the next open tag. -/
def cutHtml : List Char → Cut
  | [] => ⟨[], []⟩
  | '<' :: '?' :: cs => (cutOpenTag cs).pushAll ['<', '?']
  | c :: cs => (cutHtml cs).push c

/-! ## Constructs -/

/-- Cuts after the closing quote of a string. A backslash keeps the next character from ending it. -/
def cutString (quote : Char) : List Char → Cut
  | [] => ⟨[], []⟩
  | ['\\'] => ⟨['\\'], []⟩
  | '\\' :: c :: cs => (cutString quote cs).pushAll ['\\', c]
  | c :: cs => if c = quote then ⟨[c], cs⟩ else (cutString quote cs).push c

/-- Cuts after the end of a block comment. -/
def cutBlockComment : List Char → Cut
  | [] => ⟨[], []⟩
  | '*' :: '/' :: cs => ⟨['*', '/'], cs⟩
  | c :: cs => (cutBlockComment cs).push c

/-- Cuts before the end of a line comment: a line feed or a close tag. -/
def cutLineComment : List Char → Cut
  | [] => ⟨[], []⟩
  | '\n' :: cs => ⟨[], '\n' :: cs⟩
  | '?' :: '>' :: cs => ⟨[], '?' :: '>' :: cs⟩
  | c :: cs => (cutLineComment cs).push c

@[simp]
theorem cutOpenTag_text (cs : List Char) : (cutOpenTag cs).text = cs := by
  unfold cutOpenTag
  split
  · rfl
  · split <;> rfl
  · rfl

@[simp]
theorem cutHtml_text (cs : List Char) : (cutHtml cs).text = cs := by
  fun_induction cutHtml cs <;> simp_all

@[simp]
theorem cutString_text (quote : Char) (cs : List Char) : (cutString quote cs).text = cs := by
  fun_induction cutString quote cs <;> simp_all

@[simp]
theorem cutBlockComment_text (cs : List Char) : (cutBlockComment cs).text = cs := by
  fun_induction cutBlockComment cs <;> simp_all

@[simp]
theorem cutLineComment_text (cs : List Char) : (cutLineComment cs).text = cs := by
  fun_induction cutLineComment cs <;> simp_all

/-- Cuts after the bracket that closes an attribute group, with as many further groups open inside
it as the depth says. Strings in the group hide their brackets. -/
def cutBrackets (depth : Nat) : List Char → Cut
  | [] => ⟨[], []⟩
  | c :: cs =>
    if c = ']' then
      match depth with
      | 0 => ⟨[c], cs⟩
      | depth + 1 => (cutBrackets depth cs).push c
    else if c = '[' then (cutBrackets (depth + 1) cs).push c
    else if c = '\'' ∨ c = '"' then
      let string := cutString c cs
      (cutBrackets depth string.rest).pushAll (c :: string.taken)
    else (cutBrackets depth cs).push c
termination_by cs => cs.length
decreasing_by
  · exact Nat.lt_succ_self _
  · exact Nat.lt_succ_self _
  · exact Nat.lt_succ_of_le (Cut.rest_length_le_of_text (cutString_text c cs))
  · exact Nat.lt_succ_self _

/-- Whether a text starts with a label that no identifier character follows. -/
def closesHeredoc (label cs : List Char) : Bool :=
  label.isPrefixOf cs && !((cs.drop label.length).head?.any isIdentChar)

/-- Cuts after the closing label of a heredoc, which stands at the start of a line after spaces and
tabs. The text begins inside a line. -/
def cutHeredocLines (label : List Char) (cs : List Char) : Cut :=
  match _h : cs.dropWhile (· != '\n') with
  | [] => ⟨cs, []⟩
  | newline :: line =>
    let indent := Cut.takeWhile isSpaceOrTab line
    let before := cs.takeWhile (· != '\n') ++ newline :: indent.taken
    if closesHeredoc label indent.rest then
      ⟨before ++ label, indent.rest.drop label.length⟩
    else (cutHeredocLines label indent.rest).pushAll before
termination_by cs.length
decreasing_by
  have h1 := (List.dropWhile_sublist (l := cs) (· != '\n')).length_le
  have h2 := Cut.rest_length_le_of_text (Cut.takeWhile_text isSpaceOrTab line)
  simp only [_h, List.length_cons] at h1
  omega

/-- Cuts after the quote before the label of a heredoc, if there is one. -/
def cutLabelQuote : List Char → Cut
  | '\'' :: cs => ⟨['\''], cs⟩
  | '"' :: cs => ⟨['"'], cs⟩
  | cs => ⟨[], cs⟩

/-- Cuts a heredoc after its closing label, given the text after `<<<`. There is none without a
label. -/
def cutHeredoc? (cs : List Char) : Option Cut :=
  let indent := Cut.takeWhile isSpaceOrTab cs
  let quote := cutLabelQuote indent.rest
  let label := Cut.takeWhile isIdentChar quote.rest
  if label.taken.isEmpty then none
  else some ((cutHeredocLines label.taken label.rest).pushAll
    (indent.taken ++ (quote.taken ++ label.taken)))

@[simp]
theorem cutLabelQuote_text (cs : List Char) : (cutLabelQuote cs).text = cs := by
  unfold cutLabelQuote
  split <;> rfl

@[simp]
theorem cutBrackets_text (depth : Nat) (cs : List Char) : (cutBrackets depth cs).text = cs := by
  fun_induction cutBrackets depth cs with
  | case1 => rfl
  | case2 => simp_all
  | case3 => simp_all
  | case4 => simp_all
  | case5 depth c cs _ _ _ string ih =>
    rw [Cut.pushAll_text, ih, List.cons_append]
    exact congrArg (c :: ·) (cutString_text c cs)
  | case6 => simp_all

theorem append_drop_of_closesHeredoc {label cs : List Char} (h : closesHeredoc label cs = true) :
    label ++ cs.drop label.length = cs := by
  simp only [closesHeredoc, Bool.and_eq_true, List.isPrefixOf_iff_prefix] at h
  obtain ⟨rest, hRest⟩ := h.1
  rw [← hRest]
  simp

@[simp]
theorem cutHeredocLines_text (label cs : List Char) : (cutHeredocLines label cs).text = cs := by
  fun_induction cutHeredocLines label cs with
  | case1 => simp
  | case2 cs newline line h indent before closes =>
    have hIndent : indent.taken ++ indent.rest = line := Cut.takeWhile_text isSpaceOrTab line
    have hLine : cs.takeWhile (· != '\n') ++ newline :: line = cs := by
      rw [← h]
      exact List.takeWhile_append_dropWhile
    rw [Cut.text_mk, List.append_assoc, append_drop_of_closesHeredoc closes, List.append_assoc,
      List.cons_append, hIndent, hLine]
  | case3 cs newline line h indent before closes ih =>
    have hIndent : indent.taken ++ indent.rest = line := Cut.takeWhile_text isSpaceOrTab line
    have hLine : cs.takeWhile (· != '\n') ++ newline :: line = cs := by
      rw [← h]
      exact List.takeWhile_append_dropWhile
    rw [Cut.pushAll_text, ih, List.append_assoc, List.cons_append, hIndent, hLine]

theorem cutHeredoc?_text {cs : List Char} {k : Cut} (h : cutHeredoc? cs = some k) : k.text = cs := by
  have hIndent := Cut.takeWhile_text isSpaceOrTab cs
  have hQuote := cutLabelQuote_text (Cut.takeWhile isSpaceOrTab cs).rest
  have hLabel := Cut.takeWhile_text isIdentChar (cutLabelQuote (Cut.takeWhile isSpaceOrTab cs).rest).rest
  unfold cutHeredoc? at h
  dsimp only at h
  split at h
  · exact absurd h (by simp)
  · obtain rfl := Option.some.inj h
    unfold Cut.text at hIndent hQuote hLabel
    rw [Cut.pushAll_text, cutHeredocLines_text, List.append_assoc, List.append_assoc, hLabel, hQuote,
      hIndent]

/-! ## One token -/

namespace Token

/-- The token that a block comment is, given the text after `/*`. The comment `/**/` is an ordinary
one. -/
def ofBlockComment : List Char → Token
  | '*' :: '/' :: _ => .trivia
  | '*' :: _ => .docComment
  | _ => .trivia

/-- The first token of a code that starts with a character, and the cut after it. -/
def scan (c : Char) (cs : List Char) : Token × Cut :=
  match c, cs with
  | '/', '*' :: rest => (.ofBlockComment rest, (cutBlockComment rest).pushAll ['/', '*'])
  | '#', '[' :: rest => (.trivia, (cutBrackets 0 rest).pushAll ['#', '['])
  | '/', '/' :: rest => (.trivia, (cutLineComment rest).pushAll ['/', '/'])
  | '#', rest => (.trivia, (cutLineComment rest).push '#')
  | '?', '>' :: rest => (.closeTag, ⟨['?', '>'], rest⟩)
  | '<', '<' :: '<' :: rest =>
    match cutHeredoc? rest with
    | some heredoc => (.literal, heredoc.pushAll ['<', '<', '<'])
    | none => (.punctuation '<', ⟨['<'], '<' :: '<' :: rest⟩)
  | '$', rest =>
    let name := Cut.takeWhile isIdentChar rest
    if name.taken.isEmpty then (.punctuation '$', ⟨['$'], rest⟩)
    else (.variable_ name.taken, name.push '$')
  | c, cs =>
    if isCodeSpace c then (.trivia, (Cut.takeWhile isCodeSpace cs).push c)
    else if isQuote c then (.literal, (cutString c cs).push c)
    else if isIdentChar c then
      let word := (Cut.takeWhile isIdentChar cs).push c
      (.word word.taken, word)
    else (.punctuation c, ⟨[c], cs⟩)

@[simp]
theorem scan_text (c : Char) (cs : List Char) : (scan c cs).2.text = c :: cs := by
  unfold scan
  split
  · simp
  · simp
  · simp
  · simp
  · simp
  · split
    · rename_i heredoc h
      simp [cutHeredoc?_text h]
    · simp
  · dsimp only
    split <;> simp
  · split
    · simp
    · split
      · simp
      · split <;> simp

/-- A token takes the character that it starts with. -/
theorem scan_taken_ne_nil (c : Char) (cs : List Char) : (scan c cs).2.taken ≠ [] := by
  unfold scan
  split
  · simp
  · simp
  · simp
  · simp
  · simp
  · split <;> simp
  · dsimp only
    split <;> simp
  · split
    · simp
    · split
      · simp
      · split <;> simp

theorem scan_rest_length (c : Char) (cs : List Char) :
    (scan c cs).2.rest.length < (c :: cs).length := by
  have hText := congrArg List.length (scan_text c cs)
  have hTaken := List.length_pos_iff.mpr (scan_taken_ne_nil c cs)
  simp only [Cut.text, List.length_append] at hText
  omega

end Token

/-! ## All tokens -/

/-- A token and the byte offsets where it starts and ends. -/
structure Lexeme where
  token : Token
  start : Nat
  stop : Nat
deriving Repr, DecidableEq, Inhabited

/-- The tokens of a code whose first character has a byte offset. -/
def lexemes (offset : Nat) : List Char → List Lexeme
  | [] => []
  | c :: cs =>
    let step := Token.scan c cs
    let stop := offset + byteWidth step.2.taken
    ⟨step.1, offset, stop⟩ :: lexemes stop step.2.rest
termination_by cs => cs.length
decreasing_by exact Token.scan_rest_length c cs

end TagLint.Php
