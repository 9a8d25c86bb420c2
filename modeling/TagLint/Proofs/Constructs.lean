import TagLint.Php.Token
import TagLint.Proofs.Runs

/-!
# Closed constructs

The shapes of the lexical constructs of PHP that have an end, each said without a scanner: the inside
of a string, of an attribute group and of a heredoc, and what may not occur in a comment. A scanner
cuts a construct of its shape exactly at its end, whatever follows.

* `cutString_closed`, `cutBlockComment_closed`, `cutLineComment_closed`, `cutBrackets_closed`,
  `cutHeredoc?_closed`: the five kinds of constructs.
* `cutHtml_closed`: plain text up to and including an open tag.
-/

namespace TagLint.Php

open Text (Cut Run isSpaceOrTab)

/-! ## Strings -/

/-- The inside of a string in the given quotes. A backslash keeps the next character from ending
it. -/
inductive StringBody (quote : Char) : List Char → Prop
  | nil : StringBody quote []
  | plain {c : Char} {body : List Char} (hQuote : c ≠ quote) (hEscape : c ≠ '\\')
      (hBody : StringBody quote body) : StringBody quote (c :: body)
  | escape (c : Char) {body : List Char} (hBody : StringBody quote body) :
      StringBody quote ('\\' :: c :: body)

theorem cutString_cons {quote c : Char} (h : c ≠ '\\') (cs : List Char) :
    cutString quote (c :: cs) =
      if c = quote then ⟨[c], cs⟩ else (cutString quote cs).push c := by
  simp [cutString, h]

/-- A character before which a string is read on as plain is no backslash. -/
theorem ne_escape_of_cases {c : Char} {cs : List Char} (hLast : c = '\\' → cs = [] → False)
    (hEscape : ∀ d ds, c = '\\' → cs = d :: ds → False) : c ≠ '\\' := by
  rintro rfl
  cases cs with
  | nil => exact hLast rfl rfl
  | cons d ds => exact hEscape d ds rfl rfl

theorem cutString_closed {quote : Char} (hQuote : quote ≠ '\\') {body : List Char}
    (h : StringBody quote body) (rest : List Char) :
    cutString quote (body ++ quote :: rest) = ⟨body ++ [quote], rest⟩ := by
  induction h with
  | nil =>
    rw [List.nil_append, cutString_cons hQuote, if_pos rfl]
    rfl
  | plain hc hEscape _ ih =>
    rw [List.cons_append, cutString_cons hEscape, if_neg hc, ih]
    rfl
  | escape c _ ih =>
    rw [List.cons_append, List.cons_append, cutString, ih]
    rfl

/-! ## Comments -/

theorem cutBlockComment_cons {c : Char} {cs : List Char}
    (h : ¬ (c = '*' ∧ cs.head? = some '/')) :
    cutBlockComment (c :: cs) = (cutBlockComment cs).push c := by
  rw [cutBlockComment]
  rintro rest rfl rfl
  exact h ⟨rfl, rfl⟩

theorem cutBlockComment_closed {body : List Char} (h : ¬ ['*', '/'] <:+: body)
    (rest : List Char) :
    cutBlockComment (body ++ '*' :: '/' :: rest) = ⟨body ++ ['*', '/'], rest⟩ := by
  induction body with
  | nil => rfl
  | cons c body ih =>
    have hTail : ¬ ['*', '/'] <:+: body := fun hInfix => h (List.infix_cons hInfix)
    have hHead : ¬ (c = '*' ∧ (body ++ '*' :: '/' :: rest).head? = some '/') := by
      rintro ⟨rfl, hNext⟩
      cases body with
      | nil => simp at hNext
      | cons d body =>
        obtain rfl : d = '/' := by simpa using hNext
        exact h ⟨[], body, rfl⟩
    rw [List.cons_append, cutBlockComment_cons hHead, ih hTail]
    rfl

/-- Where a line comment may end: at the end of the code, before a line feed or before a close
tag. -/
def EndsLineComment (rest : List Char) : Prop :=
  rest = [] ∨ rest.head? = some '\n' ∨ ['?', '>'] <+: rest

theorem cutLineComment_of_ends {rest : List Char} (h : EndsLineComment rest) :
    cutLineComment rest = ⟨[], rest⟩ := by
  rcases h with rfl | h | ⟨more, rfl⟩
  · rfl
  · obtain ⟨c, cs, rfl⟩ := List.exists_cons_of_ne_nil (by rintro rfl; simp at h : rest ≠ [])
    obtain rfl : c = '\n' := by simpa using h
    rfl
  · rfl

theorem cutLineComment_cons {c : Char} {cs : List Char} (hFeed : c ≠ '\n')
    (hClose : ¬ (c = '?' ∧ cs.head? = some '>')) :
    cutLineComment (c :: cs) = (cutLineComment cs).push c := by
  rw [cutLineComment]
  · rintro rfl
    exact hFeed rfl
  · rintro rest rfl rfl
    exact hClose ⟨rfl, rfl⟩

theorem cutLineComment_closed {text rest : List Char} (hFeed : '\n' ∉ text)
    (hClose : ¬ ['?', '>'] <:+: text) (hRest : EndsLineComment rest) :
    cutLineComment (text ++ rest) = ⟨text, rest⟩ := by
  induction text with
  | nil => exact cutLineComment_of_ends hRest
  | cons c text ih =>
    have hTail : ¬ ['?', '>'] <:+: text := fun hInfix => hClose (List.infix_cons hInfix)
    have hHead : ¬ (c = '?' ∧ (text ++ rest).head? = some '>') := by
      rintro ⟨rfl, hNext⟩
      cases text with
      | nil =>
        rcases hRest with rfl | hRest | ⟨more, rfl⟩
        · simp at hNext
        · rw [List.nil_append, hRest] at hNext
          simp at hNext
        · simp at hNext
      | cons d text =>
        obtain rfl : d = '>' := by simpa using hNext
        exact hClose ⟨[], text, rfl⟩
    have hc : c ≠ '\n' := by
      rintro rfl
      exact hFeed List.mem_cons_self
    rw [List.cons_append, cutLineComment_cons hc hHead,
      ih (fun hMem => hFeed (List.mem_cons_of_mem _ hMem)) hTail]
    rfl

/-! ## Attribute groups -/

/-- The inside of an attribute group: strings hide their brackets, and brackets come in pairs. -/
inductive BracketBody : List Char → Prop
  | nil : BracketBody []
  | plain {c : Char} {body : List Char} (hOpen : c ≠ '[') (hClose : c ≠ ']')
      (hQuote : ¬ (c = '\'' ∨ c = '"')) (hBody : BracketBody body) : BracketBody (c :: body)
  | string {quote : Char} {inner body : List Char} (hQuote : quote = '\'' ∨ quote = '"')
      (hInner : StringBody quote inner) (hBody : BracketBody body) :
      BracketBody (quote :: (inner ++ quote :: body))
  | group {inner body : List Char} (hInner : BracketBody inner) (hBody : BracketBody body) :
      BracketBody ('[' :: (inner ++ ']' :: body))

section Steps

variable (depth : Nat) (cs : List Char)

theorem cutBrackets_last : cutBrackets 0 (']' :: cs) = ⟨[']'], cs⟩ := by
  rw [cutBrackets.eq_def]
  simp

theorem cutBrackets_close : cutBrackets (depth + 1) (']' :: cs) = (cutBrackets depth cs).push ']' := by
  rw [cutBrackets.eq_def]
  simp

theorem cutBrackets_open : cutBrackets depth ('[' :: cs) = (cutBrackets (depth + 1) cs).push '[' := by
  rw [cutBrackets.eq_def]
  simp

theorem cutBrackets_string {quote : Char} (hQuote : quote = '\'' ∨ quote = '"') :
    cutBrackets depth (quote :: cs) =
      (cutBrackets depth (cutString quote cs).rest).pushAll (quote :: (cutString quote cs).taken) := by
  rw [cutBrackets.eq_def]
  rcases hQuote with rfl | rfl <;> simp

theorem cutBrackets_plain {c : Char} (hOpen : c ≠ '[') (hClose : c ≠ ']')
    (hQuote : ¬ (c = '\'' ∨ c = '"')) :
    cutBrackets depth (c :: cs) = (cutBrackets depth cs).push c := by
  rw [cutBrackets.eq_def]
  simp [hOpen, hClose, hQuote]

end Steps

/-- A balanced text is taken at every depth, and the depth is what it was before. -/
theorem cutBrackets_body {body : List Char} (h : BracketBody body) (depth : Nat)
    (rest : List Char) :
    cutBrackets depth (body ++ rest) = (cutBrackets depth rest).pushAll body := by
  induction h generalizing depth rest with
  | nil => rfl
  | plain hOpen hClose hQuote _ ih =>
    rw [List.cons_append, cutBrackets_plain _ _ hOpen hClose hQuote, ih]
    rfl
  | @string quote inner body hQuote hInner _ ih =>
    have hEscape : quote ≠ '\\' := by rcases hQuote with rfl | rfl <;> decide
    rw [List.cons_append, cutBrackets_string _ _ hQuote, List.append_assoc, List.cons_append,
      cutString_closed hEscape hInner]
    dsimp only
    rw [ih]
    simp [Cut.pushAll]
  | @group inner body _ _ ihInner ihBody =>
    rw [List.cons_append, cutBrackets_open, List.append_assoc, ihInner, List.cons_append,
      cutBrackets_close, ihBody]
    simp [Cut.push, Cut.pushAll]

theorem cutBrackets_closed {body : List Char} (h : BracketBody body) (rest : List Char) :
    cutBrackets 0 (body ++ ']' :: rest) = ⟨body ++ [']'], rest⟩ := by
  rw [cutBrackets_body h, cutBrackets_last]
  rfl

/-! ## Heredocs -/

theorem not_isSpaceOrTab_of_isIdentChar {c : Char} (h : isIdentChar c = true) :
    isSpaceOrTab c = false := by
  cases hBlank : isSpaceOrTab c with
  | false => rfl
  | true =>
    simp only [isSpaceOrTab, Bool.or_eq_true, beq_iff_eq] at hBlank
    rcases hBlank with rfl | rfl <;> exact absurd h (by decide)

theorem closesHeredoc_iff {label cs : List Char} :
    closesHeredoc label cs = true ↔
      ∃ rest, cs = label ++ rest ∧ ∀ c ∈ rest.head?, isIdentChar c = false := by
  simp only [closesHeredoc, Bool.and_eq_true, List.isPrefixOf_iff_prefix, Bool.not_eq_true']
  constructor
  · rintro ⟨⟨rest, rfl⟩, hNext⟩
    refine ⟨rest, rfl, ?_⟩
    rw [List.drop_left] at hNext
    intro c hc
    rw [Option.mem_def.mp hc] at hNext
    exact hNext
  · rintro ⟨rest, rfl, hNext⟩
    refine ⟨⟨rest, rfl⟩, ?_⟩
    rw [List.drop_left]
    cases hHead : rest.head? with
    | none => rfl
    | some c => exact hNext c hHead

/-- The line has the label behind spaces and tabs, and no identifier goes on there. -/
def ClosesWith (label line : List Char) : Prop :=
  ∃ indent rest, line = indent ++ (label ++ rest) ∧ (∀ c ∈ indent, isSpaceOrTab c = true) ∧
    ∀ c ∈ rest.head?, isIdentChar c = false

/-- The lines of a heredoc behind its first one, up to and including the closing label. -/
inductive HeredocBody (label : List Char) : List Char → Prop
  | last {indent : List Char} (hIndent : ∀ c ∈ indent, isSpaceOrTab c = true) :
      HeredocBody label (indent ++ label)
  | line {line more : List Char} (hFeed : '\n' ∉ line) (hOpen : ¬ ClosesWith label line)
      (hMore : HeredocBody label more) : HeredocBody label (line ++ '\n' :: more)

/-- What starts a text before a character that it does not hold ends before that character. -/
theorem prefix_of_prefix_append_cons {start line rest : List Char} {c : Char} (hc : c ∉ start)
    (h : start <+: line ++ c :: rest) : start <+: line := by
  rcases List.prefix_or_prefix_of_prefix h (List.prefix_append line (c :: rest)) with hLe | ⟨extra, rfl⟩
  · exact hLe
  · rw [List.prefix_append_right_inj] at h
    cases extra with
    | nil => simp
    | cons d extra =>
      obtain ⟨more, hMore⟩ := h
      obtain rfl : d = c := (List.cons.inj hMore).1
      simp at hc

theorem closesHeredoc_line {label indent line rest : List Char}
    (hLabel : ∀ c ∈ label, isIdentChar c = true) (hIndent : ∀ c ∈ indent, isSpaceOrTab c = true)
    (hOpen : ¬ ClosesWith label (indent ++ line)) :
    closesHeredoc label (line ++ '\n' :: rest) = false := by
  cases h : closesHeredoc label (line ++ '\n' :: rest) with
  | false => rfl
  | true =>
    obtain ⟨after, hAfter, hNext⟩ := closesHeredoc_iff.mp h
    have hLine : '\n' ∉ label := fun hMem => absurd (hLabel _ hMem) (by decide)
    obtain ⟨more, rfl⟩ := prefix_of_prefix_append_cons hLine ⟨after, hAfter.symm⟩
    rw [List.append_assoc, List.append_cancel_left_eq] at hAfter
    refine absurd ⟨indent, more, rfl, hIndent, ?_⟩ hOpen
    intro c hc
    apply hNext
    cases more with
    | nil => simp at hc
    | cons d more => simpa [← hAfter] using hc

theorem feed_cases (cs : List Char) :
    '\n' ∉ cs ∨ ∃ first line, cs = first ++ '\n' :: line ∧ '\n' ∉ first := by
  by_cases h : '\n' ∈ cs
  · obtain ⟨first, line, hcs, hFirst⟩ := List.eq_append_cons_of_mem h
    exact .inr ⟨first, line, hcs, hFirst⟩
  · exact .inl h

theorem cutHeredocLines_last {label cs : List Char} (h : '\n' ∉ cs) :
    cutHeredocLines label cs = ⟨cs, []⟩ := by
  have hRun : Run (· != '\n') cs [] := by
    refine ⟨?_, by simp⟩
    intro c hc
    have hNe : c ≠ '\n' := fun hEq => h (hEq ▸ hc)
    simpa using hNe
  have hNone := hRun.dropWhile_eq
  rw [List.append_nil] at hNone
  rw [cutHeredocLines, hNone]

theorem cutHeredocLines_step {label first line : List Char} (hFeed : '\n' ∉ first) :
    cutHeredocLines label (first ++ '\n' :: line) =
      let indent := Cut.takeWhile isSpaceOrTab line
      if closesHeredoc label indent.rest then
        ⟨first ++ '\n' :: indent.taken ++ label, indent.rest.drop label.length⟩
      else (cutHeredocLines label indent.rest).pushAll (first ++ '\n' :: indent.taken) := by
  have hRun : Run (· != '\n') first ('\n' :: line) := by
    refine ⟨?_, by simp⟩
    intro c hc
    have : c ≠ '\n' := fun h => hFeed (h ▸ hc)
    simpa using this
  rw [cutHeredocLines, hRun.dropWhile_eq, hRun.takeWhile_eq]

/-- A heredoc is cut behind the first line that has its label. -/
theorem cutHeredocLines_closed {label body rest : List Char} (hNe : label ≠ [])
    (hLabel : ∀ c ∈ label, isIdentChar c = true) (hRest : ∀ c ∈ rest.head?, isIdentChar c = false)
    (h : HeredocBody label body) {first : List Char} (hFirst : '\n' ∉ first) :
    cutHeredocLines label (first ++ '\n' :: (body ++ rest)) = ⟨first ++ '\n' :: body, rest⟩ := by
  induction h generalizing first with
  | @last indent hIndent =>
    have hRun : Run isSpaceOrTab indent (label ++ rest) := by
      refine ⟨hIndent, ?_⟩
      intro c hc
      apply not_isSpaceOrTab_of_isIdentChar
      apply hLabel
      obtain ⟨d, label, rfl⟩ := List.exists_cons_of_ne_nil hNe
      simp_all
    have hCloses : closesHeredoc label (label ++ rest) = true :=
      closesHeredoc_iff.mpr ⟨rest, rfl, hRest⟩
    rw [cutHeredocLines_step hFirst, List.append_assoc, hRun.cut_eq]
    simp [hCloses]
  | @line line more hFeed hOpen _ ih =>
    obtain ⟨indent, line, rfl, hRun⟩ := Text.exists_run isSpaceOrTab line
    have hRun' : Run isSpaceOrTab indent (line ++ '\n' :: (more ++ rest)) := by
      refine ⟨hRun.all, ?_⟩
      intro c hc
      cases line with
      | nil =>
        obtain rfl : '\n' = c := by simpa using hc
        rfl
      | cons d line => exact hRun.stops c (by simpa using hc)
    have hOpen' : closesHeredoc label (line ++ '\n' :: (more ++ rest)) = false :=
      closesHeredoc_line hLabel hRun.all hOpen
    have hLine : '\n' ∉ line := fun hMem => hFeed (List.mem_append_right _ hMem)
    rw [cutHeredocLines_step hFirst, List.append_assoc, List.append_assoc, List.cons_append,
      hRun'.cut_eq]
    dsimp only
    rw [hOpen', if_neg (by simp), ih hLine]
    simp [Cut.pushAll]

theorem cutLabelQuote_cases (cs : List Char) :
    (cutLabelQuote cs).taken = [] ∨ (cutLabelQuote cs).taken = ['\''] ∨
      (cutLabelQuote cs).taken = ['"'] := by
  unfold cutLabelQuote
  split <;> simp

section Opening

variable {indent quote more : List Char} {c : Char}

theorem run_indent_of_label (hIndent : ∀ d ∈ indent, isSpaceOrTab d = true)
    (hQuote : quote = [] ∨ quote = ['\''] ∨ quote = ['"']) (hc : isIdentChar c = true) :
    Run isSpaceOrTab indent (quote ++ c :: more) := by
  refine ⟨hIndent, ?_⟩
  intro d hd
  rcases hQuote with rfl | rfl | rfl
  · obtain rfl : c = d := by simpa using hd
    exact not_isSpaceOrTab_of_isIdentChar hc
  · obtain rfl : '\'' = d := by simpa using hd
    rfl
  · obtain rfl : '"' = d := by simpa using hd
    rfl

theorem cutLabelQuote_label (hQuote : quote = [] ∨ quote = ['\''] ∨ quote = ['"'])
    (hc : isIdentChar c = true) : cutLabelQuote (quote ++ c :: more) = ⟨quote, c :: more⟩ := by
  rcases hQuote with rfl | rfl | rfl
  · rw [List.nil_append, cutLabelQuote]
    · rintro cs ⟨⟩
      exact absurd hc (by decide)
    · rintro cs ⟨⟩
      exact absurd hc (by decide)
  · rfl
  · rfl

end Opening

/-- The text after `<<<` names the label of a heredoc. -/
def OpensHeredoc (cs : List Char) : Prop :=
  ∃ indent quote c more, cs = indent ++ (quote ++ c :: more) ∧
    (∀ d ∈ indent, isSpaceOrTab d = true) ∧ (quote = [] ∨ quote = ['\''] ∨ quote = ['"']) ∧
    isIdentChar c = true

/-- A heredoc is refused only if it has no label. -/
theorem cutHeredoc?_eq_none_iff {cs : List Char} : cutHeredoc? cs = none ↔ ¬ OpensHeredoc cs := by
  constructor
  · rintro h ⟨indent, quote, c, more, rfl, hIndent, hQuote, hc⟩
    unfold cutHeredoc? at h
    rw [(run_indent_of_label hIndent hQuote hc).cut_eq] at h
    dsimp only at h
    rw [cutLabelQuote_label hQuote hc] at h
    simp [Cut.takeWhile, hc] at h
  · intro h
    obtain ⟨indent, cs, rfl, hIndent⟩ := Text.exists_run isSpaceOrTab cs
    obtain ⟨label, rest, hCut, hLabel⟩ := Text.exists_run isIdentChar (cutLabelQuote cs).rest
    cases label with
    | nil =>
      unfold cutHeredoc?
      rw [hIndent.cut_eq]
      dsimp only
      rw [hCut, hLabel.cut_eq]
      rfl
    | cons c label =>
      refine absurd ⟨indent, (cutLabelQuote cs).taken, c, label ++ rest, ?_, hIndent.all,
        cutLabelQuote_cases cs, hLabel.all c (by simp)⟩ h
      rw [← List.cons_append, ← hCut, ← Cut.text, cutLabelQuote_text]

/-- A heredoc by its parts: what stands between the opening and the label, the rest of the opening
line, and the lines up to the closing label. -/
structure Heredoc where
  indent : List Char
  quote : List Char
  label : List Char
  first : List Char
  body : List Char
  indent_blank : ∀ c ∈ indent, isSpaceOrTab c = true
  quote_cases : quote = [] ∨ quote = ['\''] ∨ quote = ['"']
  label_ne_nil : label ≠ []
  label_ident : ∀ c ∈ label, isIdentChar c = true
  first_stops : ∀ c ∈ first.head?, isIdentChar c = false
  first_line : '\n' ∉ first
  body_closes : HeredocBody label body

namespace Heredoc

/-- The text of a heredoc behind its opening `<<<`. -/
def inner (h : Heredoc) : List Char :=
  h.indent ++ (h.quote ++ (h.label ++ (h.first ++ '\n' :: h.body)))

theorem exists_label_head (h : Heredoc) :
    ∃ c label, h.label = c :: label ∧ isIdentChar c = true := by
  obtain ⟨c, label, hLabel⟩ := List.exists_cons_of_ne_nil h.label_ne_nil
  exact ⟨c, label, hLabel, h.label_ident c (by simp [hLabel])⟩

theorem run_indent (h : Heredoc) (rest : List Char) :
    Run isSpaceOrTab h.indent (h.quote ++ (h.label ++ rest)) := by
  obtain ⟨c, label, hLabel, hIdent⟩ := h.exists_label_head
  rw [hLabel]
  exact run_indent_of_label h.indent_blank h.quote_cases hIdent

theorem cutLabelQuote_eq (h : Heredoc) (rest : List Char) :
    cutLabelQuote (h.quote ++ (h.label ++ rest)) = ⟨h.quote, h.label ++ rest⟩ := by
  obtain ⟨c, label, hLabel, hIdent⟩ := h.exists_label_head
  rw [hLabel]
  exact cutLabelQuote_label h.quote_cases hIdent

theorem run_label (h : Heredoc) (rest : List Char) :
    Run isIdentChar h.label (h.first ++ '\n' :: rest) := by
  refine ⟨h.label_ident, ?_⟩
  intro c hc
  cases hFirst : h.first with
  | nil =>
    rw [hFirst] at hc
    obtain rfl : '\n' = c := by simpa using hc
    rfl
  | cons d first =>
    rw [hFirst] at hc
    exact h.first_stops c (by simpa [hFirst] using hc)

end Heredoc

theorem cutHeredoc?_closed (h : Heredoc) {rest : List Char}
    (hRest : ∀ c ∈ rest.head?, isIdentChar c = false) :
    cutHeredoc? (h.inner ++ rest) = some ⟨h.inner, rest⟩ := by
  have hInner : h.inner ++ rest =
      h.indent ++ (h.quote ++ (h.label ++ (h.first ++ '\n' :: (h.body ++ rest)))) := by
    simp [Heredoc.inner]
  have hNe : h.label.isEmpty = false := by simpa using h.label_ne_nil
  unfold cutHeredoc?
  rw [hInner, (h.run_indent _).cut_eq]
  dsimp only
  rw [h.cutLabelQuote_eq]
  dsimp only
  rw [(h.run_label _).cut_eq]
  dsimp only
  rw [hNe, if_neg (by simp),
    cutHeredocLines_closed h.label_ne_nil h.label_ident hRest h.body_closes h.first_line]
  simp [Cut.pushAll, Heredoc.inner]

/-! ## Plain text -/

/-- What may stand between `<?` and the code: `php` in any case, an equals sign, or nothing if the
code cannot be taken for one of these. -/
def IsOpenTag (tag code : List Char) : Prop :=
  tag = ['='] ∨ tag.map Char.toLower = ['p', 'h', 'p'] ∨
    (tag = [] ∧ code.head? ≠ some '=' ∧ (code.take 3).map Char.toLower ≠ ['p', 'h', 'p'])

theorem cutOpenTag_closed {tag code : List Char} (h : IsOpenTag tag code) :
    cutOpenTag (tag ++ code) = ⟨tag, code⟩ := by
  rcases h with rfl | h | ⟨rfl, hEquals, hPhp⟩
  · rfl
  · obtain ⟨a, tag, rfl, ha, h⟩ := List.map_eq_cons_iff.mp h
    obtain ⟨b, tag, rfl, hb, h⟩ := List.map_eq_cons_iff.mp h
    obtain ⟨c, tag, rfl, hc, h⟩ := List.map_eq_cons_iff.mp h
    obtain rfl := List.map_eq_nil_iff.mp h
    have hEquals : a ≠ '=' := by
      rintro rfl
      exact absurd ha (by decide)
    simp [cutOpenTag, ha, hb, hc]
  · unfold cutOpenTag
    split
    · rename_i hCode
      rw [List.nil_append] at hCode
      simp [hCode] at hEquals
    · rename_i a b c cs _ hCode
      rw [List.nil_append] at hCode
      subst hCode
      rw [if_neg (by simpa using hPhp)]
    · rfl

theorem cutHtml_closed {html tag code : List Char} (hHtml : ¬ ['<', '?'] <:+: html)
    (hTag : IsOpenTag tag code) :
    cutHtml (html ++ '<' :: '?' :: (tag ++ code)) = ⟨html ++ '<' :: '?' :: tag, code⟩ := by
  induction html with
  | nil =>
    rw [List.nil_append, cutHtml, cutOpenTag_closed hTag]
    rfl
  | cons c html ih =>
    have hTail : ¬ ['<', '?'] <:+: html := fun hInfix => hHtml (List.infix_cons hInfix)
    rw [List.cons_append, cutHtml, ih hTail]
    · rfl
    · rintro rest rfl hRest
      cases html with
      | nil => simp at hRest
      | cons d html =>
        obtain rfl : d = '?' := (List.cons.inj hRest).1
        exact hHtml ⟨[], html, rfl⟩

end TagLint.Php
