import TagLint.Proofs.Lookahead

/-!
# Carriage returns before line feeds

`crlf` puts a carriage return before every line feed of a text. Every scanner of a construct cuts the
new text where it cuts the old one. Line comments are the exception: they end before the line feed,
so they take the new carriage return along, which is space and therefore never missed.

* `cutString_crlf`, `cutBlockComment_crlf`, `cutBrackets_crlf`, `cutHeredoc?_crlf`, `cutHtml_crlf`:
  the scanners that cut both texts at the same place.
* `Token.Leads.crlf`: what becomes of one token.
-/

namespace TagLint

namespace Text

/-- The text with a carriage return before every line feed. -/
def crlf : List Char → List Char
  | [] => []
  | c :: cs => if c = '\n' then '\r' :: '\n' :: crlf cs else c :: crlf cs

@[simp]
theorem crlf_nil : crlf [] = [] := rfl

@[simp]
theorem crlf_feed (cs : List Char) : crlf ('\n' :: cs) = '\r' :: '\n' :: crlf cs := rfl

theorem crlf_cons {c : Char} (h : c ≠ '\n') (cs : List Char) : crlf (c :: cs) = c :: crlf cs := by
  rw [crlf, if_neg h]

@[simp]
theorem crlf_append (as bs : List Char) : crlf (as ++ bs) = crlf as ++ crlf bs := by
  induction as with
  | nil => rfl
  | cons a as ih =>
    by_cases ha : a = '\n'
    · subst ha
      simp [ih]
    · rw [List.cons_append, crlf_cons ha, crlf_cons ha, ih, List.cons_append]

theorem crlf_eq_self {cs : List Char} (h : '\n' ∉ cs) : crlf cs = cs := by
  induction cs with
  | nil => rfl
  | cons c cs ih =>
    have hc : c ≠ '\n' := by
      rintro rfl
      exact h List.mem_cons_self
    rw [crlf_cons hc, ih fun hMem => h (List.mem_cons_of_mem _ hMem)]

theorem mem_crlf {c : Char} {cs : List Char} (h : c ∈ crlf cs) :
    c ∈ cs ∨ (c = '\r' ∧ '\n' ∈ cs) := by
  induction cs with
  | nil => cases h
  | cons d cs ih =>
    by_cases hd : d = '\n'
    · subst hd
      rcases List.mem_cons.mp h with rfl | h
      · exact .inr ⟨rfl, List.mem_cons_self⟩
      · rcases List.mem_cons.mp h with rfl | h
        · exact .inl List.mem_cons_self
        · rcases ih h with h | ⟨hc, hFeed⟩
          · exact .inl (List.mem_cons_of_mem _ h)
          · exact .inr ⟨hc, List.mem_cons_of_mem _ hFeed⟩
    · rw [crlf_cons hd] at h
      rcases List.mem_cons.mp h with rfl | h
      · exact .inl List.mem_cons_self
      · rcases ih h with h | ⟨hc, hFeed⟩
        · exact .inl (List.mem_cons_of_mem _ h)
        · exact .inr ⟨hc, List.mem_cons_of_mem _ hFeed⟩

/-- The first character stays, unless it is a line feed. -/
theorem head?_crlf (cs : List Char) :
    (crlf cs).head? = if cs.head? = some '\n' then some '\r' else cs.head? := by
  cases cs with
  | nil => rfl
  | cons c cs =>
    by_cases hc : c = '\n'
    · subst hc
      rfl
    · simp [crlf_cons hc, hc]

theorem head?_crlf_eq_iff {c : Char} (hReturn : c ≠ '\r') (hFeed : c ≠ '\n') (cs : List Char) :
    (crlf cs).head? = some c ↔ cs.head? = some c := by
  rw [head?_crlf]
  split
  · rename_i hHead
    rw [hHead]
    simp [Ne.symm hReturn, Ne.symm hFeed]
  · exact Iff.rfl

/-- A character that is neither of the two stands in the new text where it stood. -/
theorem crlf_eq_cons {c : Char} {cs rest : List Char} (hReturn : c ≠ '\r') (hFeed : c ≠ '\n')
    (h : crlf cs = c :: rest) : ∃ more, cs = c :: more ∧ rest = crlf more := by
  cases cs with
  | nil => cases h
  | cons d cs =>
    by_cases hd : d = '\n'
    · subst hd
      exact absurd (List.cons.inj h).1 (Ne.symm hReturn)
    · rw [crlf_cons hd] at h
      obtain ⟨rfl, rfl⟩ := List.cons.inj h
      exact ⟨cs, rfl, rfl⟩

theorem crlf_eq_append {as cs rest : List Char} (hAs : ∀ c ∈ as, c ≠ '\r' ∧ c ≠ '\n')
    (h : crlf cs = as ++ rest) : ∃ more, cs = as ++ more ∧ rest = crlf more := by
  induction as generalizing cs with
  | nil => exact ⟨cs, rfl, h.symm⟩
  | cons a as ih =>
    obtain ⟨hReturn, hFeed⟩ := hAs a (by simp)
    obtain ⟨more, rfl, hRest⟩ := crlf_eq_cons hReturn hFeed h
    obtain ⟨more, rfl, rfl⟩ := ih (fun c hc => hAs c (List.mem_cons_of_mem _ hc)) hRest.symm
    exact ⟨more, rfl, rfl⟩

/-- The last character stays, whatever it is. -/
theorem getLast?_crlf (cs : List Char) : (crlf cs).getLast? = cs.getLast? := by
  rcases List.eq_nil_or_concat cs with rfl | ⟨cs, c, rfl⟩
  · rfl
  · by_cases hc : c = '\n'
    · subst hc
      simp [crlf_append, List.getLast?_append]
    · simp [crlf_append, crlf_cons hc]

theorem crlf_eq_concat {c : Char} {cs rest : List Char} (hFeed : c ≠ '\n')
    (h : crlf cs = rest ++ [c]) : ∃ more, cs = more ++ [c] ∧ rest = crlf more := by
  have hLast : cs.getLast? = some c := by
    rw [← getLast?_crlf, h, List.getLast?_concat]
  obtain ⟨more, rfl⟩ := List.getLast?_eq_some_iff.mp hLast
  rw [crlf_append, crlf_cons hFeed] at h
  exact ⟨more, rfl, (List.append_inj_left' h rfl).symm⟩

/-- Runs of classes that treat both characters alike stay runs. -/
theorem Run.crlf {p : Char → Bool} {as bs : List Char} (h : Run p as bs) (hp : p '\r' = p '\n') :
    Run p (crlf as) (crlf bs) := by
  refine ⟨?_, ?_⟩
  · intro c hc
    rcases mem_crlf hc with hc | ⟨rfl, hFeed⟩
    · exact h.all c hc
    · rw [hp]
      exact h.all '\n' hFeed
  · intro c hc
    rw [head?_crlf] at hc
    split at hc
    · rename_i hHead
      obtain rfl : '\r' = c := by simpa using hc
      rw [hp]
      exact h.stops '\n' hHead
    · exact h.stops c hc

/-- A run of a class without the line feed is not changed at all. -/
theorem Run.crlf_of_not {p : Char → Bool} {as bs : List Char} (h : Run p as bs)
    (hReturn : p '\r' = false) (hFeed : p '\n' = false) :
    Text.crlf as = as ∧ Run p as (Text.crlf bs) := by
  have hSelf : Text.crlf as = as := by
    apply crlf_eq_self
    intro hMem
    rw [h.all _ hMem] at hFeed
    cases hFeed
  have hRun := h.crlf (hReturn.trans hFeed.symm)
  rw [hSelf] at hRun
  exact ⟨hSelf, hRun⟩

/-- Both sides of a cut with a carriage return before every line feed. -/
def Cut.crlf (k : Cut) : Cut :=
  ⟨Text.crlf k.taken, Text.crlf k.rest⟩

theorem Cut.crlf_push {c : Char} (h : c ≠ '\n') (k : Cut) : (k.push c).crlf = k.crlf.push c := by
  simp [Cut.crlf, Cut.push, crlf_cons h]

theorem Cut.crlf_pushAll (cs : List Char) (k : Cut) :
    (k.pushAll cs).crlf = k.crlf.pushAll (Text.crlf cs) := by
  simp [Cut.crlf, Cut.pushAll]

end Text

namespace Php

open Text (Cut Run crlf crlf_cons isSpaceOrTab)

/-! ## Constructs that are cut at the same place -/

theorem cutString_crlf {quote : Char} (hReturn : quote ≠ '\r') (hFeed : quote ≠ '\n')
    (cs : List Char) : cutString quote (crlf cs) = (cutString quote cs).crlf := by
  fun_induction cutString quote cs with
  | case1 => rfl
  | case2 => rfl
  | case3 c cs ih =>
    have hBackslash : '\\' ≠ '\n' := by decide
    by_cases hc : c = '\n'
    · -- the backslash now escapes the carriage return, and the line feed is plain
      subst hc
      rw [crlf_cons hBackslash, Text.crlf_feed, cutString, cutString_cons (by decide),
        if_neg (Ne.symm hFeed), ih]
      rfl
    · rw [crlf_cons hBackslash, crlf_cons hc, cutString, ih, Cut.crlf_pushAll, crlf_cons hBackslash,
        crlf_cons hc]
      rfl
  | case4 cs hLast hEscape =>
    rw [crlf_cons hFeed, cutString_cons (ne_escape_of_cases hLast hEscape), if_pos rfl, Cut.crlf,
      crlf_cons hFeed]
    rfl
  | case5 c cs hLast hEscape hQuote ih =>
    by_cases hc : c = '\n'
    · subst hc
      rw [Text.crlf_feed, cutString_cons (by decide), if_neg (Ne.symm hReturn),
        cutString_cons (by decide), if_neg hQuote, ih]
      rfl
    · rw [crlf_cons hc, cutString_cons (ne_escape_of_cases hLast hEscape), if_neg hQuote, ih,
        Cut.crlf_push hc]

theorem cutBlockComment_crlf (cs : List Char) :
    cutBlockComment (crlf cs) = (cutBlockComment cs).crlf := by
  fun_induction cutBlockComment cs with
  | case1 => rfl
  | case2 cs => rfl
  | case3 c cs hEnd ih =>
    by_cases hc : c = '\n'
    · subst hc
      rw [Text.crlf_feed, cutBlockComment_cons (by simp), cutBlockComment_cons (by simp), ih]
      rfl
    · have hHead : ¬ (c = '*' ∧ (crlf cs).head? = some '/') := by
        rintro ⟨hStar, hSlash⟩
        rw [Text.head?_crlf_eq_iff (by decide) (by decide)] at hSlash
        obtain ⟨more, hMore⟩ := head?_eq_some_iff_exists.mp hSlash
        exact hEnd more hStar hMore
      rw [crlf_cons hc, cutBlockComment_cons hHead, ih, Cut.crlf_push hc]

theorem cutBrackets_crlf (depth : Nat) (cs : List Char) :
    cutBrackets depth (crlf cs) = (cutBrackets depth cs).crlf := by
  fun_induction cutBrackets depth cs with
  | case1 =>
    rw [Text.crlf_nil, cutBrackets]
    rfl
  | case2 cs =>
    rw [crlf_cons (by decide), cutBrackets_last]
    rfl
  | case3 cs depth ih =>
    rw [crlf_cons (by decide), cutBrackets_close, ih, Cut.crlf_push (by decide)]
  | case4 depth cs _ ih =>
    rw [crlf_cons (by decide), cutBrackets_open, ih, Cut.crlf_push (by decide)]
  | case5 depth c cs _ _ hQuote string ih =>
    have hReturn : c ≠ '\r' := by rcases hQuote with rfl | rfl <;> decide
    have hFeed : c ≠ '\n' := by rcases hQuote with rfl | rfl <;> decide
    rw [crlf_cons hFeed, cutBrackets_string _ _ hQuote, cutString_crlf hReturn hFeed,
      Cut.crlf_pushAll, crlf_cons hFeed]
    exact congrArg (Cut.pushAll _) ih
  | case6 depth c cs hClose hOpen hQuote ih =>
    by_cases hc : c = '\n'
    · subst hc
      rw [Text.crlf_feed, cutBrackets_plain _ _ (by decide) (by decide) (by decide),
        cutBrackets_plain _ _ (by decide) (by decide) (by decide), ih]
      rfl
    · rw [crlf_cons hc, cutBrackets_plain _ _ hOpen hClose hQuote, ih, Cut.crlf_push hc]

/-! ## Heredocs and plain text -/

theorem ident_ne_break {c : Char} (h : isIdentChar c = true) : c ≠ '\r' ∧ c ≠ '\n' := by
  constructor
  · rintro rfl
    exact absurd h (by decide)
  · rintro rfl
    exact absurd h (by decide)

theorem crlf_label {label : List Char} (h : ∀ c ∈ label, isIdentChar c = true) :
    crlf label = label := by
  apply Text.crlf_eq_self
  intro hMem
  exact (ident_ne_break (h _ hMem)).2 rfl

theorem closesHeredoc_crlf {label : List Char} (hLabel : ∀ c ∈ label, isIdentChar c = true)
    (cs : List Char) : closesHeredoc label (crlf cs) = closesHeredoc label cs := by
  rw [Bool.eq_iff_iff, closesHeredoc_iff, closesHeredoc_iff]
  constructor
  · rintro ⟨rest, hRest, hNext⟩
    obtain ⟨more, rfl, rfl⟩ := Text.crlf_eq_append (fun c hc => ident_ne_break (hLabel c hc)) hRest
    refine ⟨more, rfl, ?_⟩
    intro c hc
    by_cases hFeed : c = '\n'
    · subst hFeed
      rfl
    · apply hNext
      rw [Text.head?_crlf, Option.mem_def.mp hc, if_neg (by simpa using hFeed)]
      rfl
  · rintro ⟨rest, rfl, hNext⟩
    refine ⟨crlf rest, by rw [Text.crlf_append, crlf_label hLabel], ?_⟩
    exact ((Run.nil hNext).crlf_of_not (by decide) (by decide)).2.stops

theorem takeWhile_crlf {p : Char → Bool} (hReturn : p '\r' = false) (hFeed : p '\n' = false)
    (cs : List Char) :
    Cut.takeWhile p (crlf cs) = ⟨(Cut.takeWhile p cs).taken, crlf (Cut.takeWhile p cs).rest⟩ := by
  obtain ⟨run, rest, rfl, hRun⟩ := Text.exists_run p cs
  obtain ⟨hSelf, hRun'⟩ := hRun.crlf_of_not hReturn hFeed
  rw [hRun.cut_eq, Text.crlf_append, hSelf, hRun'.cut_eq]

theorem cutHeredocLines_crlf {label : List Char} (hLabel : ∀ c ∈ label, isIdentChar c = true)
    (cs : List Char) : cutHeredocLines label (crlf cs) = (cutHeredocLines label cs).crlf := by
  have hSelf := crlf_label hLabel
  rcases feed_cases cs with hNone | ⟨first, line, hcs, hFirst⟩
  · rw [Text.crlf_eq_self hNone, cutHeredocLines_last hNone, Cut.crlf, Text.crlf_eq_self hNone]
    rfl
  · -- the carriage return ends the line before, of which only its line feed matters
    have hFirst' : '\n' ∉ first ++ ['\r'] := by simp [hFirst]
    have hCode : crlf cs = first ++ ['\r'] ++ '\n' :: crlf line := by
      rw [hcs, Text.crlf_append, Text.crlf_eq_self hFirst, Text.crlf_feed]
      simp
    have hIndent : crlf (Cut.takeWhile isSpaceOrTab line).taken =
        (Cut.takeWhile isSpaceOrTab line).taken :=
      ((Text.run_takeWhile isSpaceOrTab line).crlf_of_not (by decide) (by decide)).1
    rw [hCode, cutHeredocLines_step hFirst', takeWhile_crlf (by decide) (by decide)]
    rw [hcs, cutHeredocLines_step hFirst]
    dsimp only
    rw [closesHeredoc_crlf hLabel]
    split
    · rename_i hCloses
      obtain ⟨rest, hRest, -⟩ := closesHeredoc_iff.mp hCloses
      rw [hRest, Text.crlf_append, hSelf, List.drop_left, List.drop_left]
      simp [Cut.crlf, Text.crlf_eq_self hFirst, hIndent, hSelf]
    · rw [cutHeredocLines_crlf hLabel, Cut.crlf_pushAll]
      simp [Text.crlf_eq_self hFirst, hIndent]
termination_by cs.length
decreasing_by
  have hLe := Cut.rest_length_le_of_text (Cut.takeWhile_text isSpaceOrTab line)
  simp only [hcs, List.length_append, List.length_cons]
  omega

theorem cutLabelQuote_crlf (cs : List Char) :
    cutLabelQuote (crlf cs) = ⟨(cutLabelQuote cs).taken, crlf (cutLabelQuote cs).rest⟩ := by
  by_cases hSingle : ∃ more, cs = '\'' :: more
  · obtain ⟨more, rfl⟩ := hSingle
    rfl
  by_cases hDouble : ∃ more, cs = '"' :: more
  · obtain ⟨more, rfl⟩ := hDouble
    rfl
  have hNone : ∀ cs : List Char, (¬ ∃ more, cs = '\'' :: more) → (¬ ∃ more, cs = '"' :: more) →
      cutLabelQuote cs = ⟨[], cs⟩ := by
    intro cs hSingle hDouble
    rw [cutLabelQuote]
    · rintro more rfl
      exact hSingle ⟨more, rfl⟩
    · rintro more rfl
      exact hDouble ⟨more, rfl⟩
  rw [hNone cs hSingle hDouble, hNone]
  · rintro ⟨more, hMore⟩
    obtain ⟨more, rfl, -⟩ := Text.crlf_eq_cons (by decide) (by decide) hMore
    exact hSingle ⟨more, rfl⟩
  · rintro ⟨more, hMore⟩
    obtain ⟨more, rfl, -⟩ := Text.crlf_eq_cons (by decide) (by decide) hMore
    exact hDouble ⟨more, rfl⟩

theorem cutHeredoc?_crlf (cs : List Char) :
    cutHeredoc? (crlf cs) = (cutHeredoc? cs).map Cut.crlf := by
  obtain ⟨indent, cs, rfl, hIndent⟩ := Text.exists_run isSpaceOrTab cs
  obtain ⟨label, lines, hCut, hLabel⟩ := Text.exists_run isIdentChar (cutLabelQuote cs).rest
  obtain ⟨hIndentSelf, hIndent'⟩ := hIndent.crlf_of_not (by decide) (by decide)
  obtain ⟨hLabelSelf, hLabel'⟩ := hLabel.crlf_of_not (by decide) (by decide)
  have hCut' : crlf (cutLabelQuote cs).rest = label ++ crlf lines := by
    rw [hCut, Text.crlf_append, hLabelSelf]
  have hQuote : crlf (cutLabelQuote cs).taken = (cutLabelQuote cs).taken := by
    rcases cutLabelQuote_cases cs with h | h | h <;> rw [h] <;> rfl
  unfold cutHeredoc?
  rw [Text.crlf_append, hIndentSelf, hIndent'.cut_eq, hIndent.cut_eq]
  dsimp only
  rw [cutLabelQuote_crlf]
  dsimp only
  rw [hCut', hLabel'.cut_eq, hCut, hLabel.cut_eq]
  dsimp only
  split
  · rfl
  · rw [cutHeredocLines_crlf hLabel.all, Option.map_some, Cut.crlf_pushAll, Text.crlf_append,
      Text.crlf_append, hIndentSelf, hQuote, hLabelSelf]

/-- The letters of an open tag are neither carriage returns nor line feeds. -/
theorem ne_break_of_openTag {tag : List Char} (h : tag.map Char.toLower = ['p', 'h', 'p']) :
    ∀ c ∈ tag, c ≠ '\r' ∧ c ≠ '\n' := by
  intro c hc
  have hLower := List.mem_map_of_mem (f := Char.toLower) hc
  rw [h] at hLower
  constructor
  · rintro rfl
    exact absurd hLower (by decide)
  · rintro rfl
    exact absurd hLower (by decide)

theorem IsOpenTag.crlf {tag rest : List Char} (h : IsOpenTag tag rest) :
    Text.crlf tag = tag ∧ IsOpenTag tag (Text.crlf rest) := by
  rcases h with rfl | hPhp | ⟨rfl, hEquals, hPhp⟩
  · exact ⟨rfl, .inl rfl⟩
  · refine ⟨Text.crlf_eq_self ?_, .inr (.inl hPhp)⟩
    intro hMem
    exact (ne_break_of_openTag hPhp _ hMem).2 rfl
  · refine ⟨rfl, .inr (.inr ⟨rfl, ?_, ?_⟩)⟩
    · rw [Ne, Text.head?_crlf_eq_iff (by decide) (by decide)]
      exact hEquals
    · intro hPhp'
      have hSplit := (List.take_append_drop 3 (Text.crlf rest)).symm
      obtain ⟨more, hRest, -⟩ := Text.crlf_eq_append (ne_break_of_openTag hPhp') hSplit
      have hLength : ((Text.crlf rest).take 3).length = 3 := by
        simpa using congrArg List.length hPhp'
      have hTake : rest.take 3 = (Text.crlf rest).take 3 := by
        rw [hRest, List.take_left' hLength, ← hRest]
      rw [← hTake] at hPhp'
      exact hPhp hPhp'

theorem cutOpenTag_crlf (cs : List Char) : cutOpenTag (crlf cs) = (cutOpenTag cs).crlf := by
  have hText := cutOpenTag_text cs
  cases hCut : cutOpenTag cs with
  | mk tag rest =>
    obtain ⟨hTag, hOpen⟩ := (isOpenTag_of_cut hCut).crlf
    rw [hCut, Cut.text_mk] at hText
    rw [← hText, Text.crlf_append, hTag, cutOpenTag_closed hOpen, Cut.crlf, hTag]

theorem cutHtml_crlf (cs : List Char) : cutHtml (crlf cs) = (cutHtml cs).crlf := by
  fun_induction cutHtml cs with
  | case1 => rfl
  | case2 cs =>
    rw [crlf_cons (by decide), crlf_cons (by decide), cutHtml, cutOpenTag_crlf, Cut.crlf_pushAll]
    rfl
  | case3 c cs hOpen ih =>
    by_cases hc : c = '\n'
    · subst hc
      rw [Text.crlf_feed, cutHtml, cutHtml, ih]
      · rfl
      · simp
      · simp
    · rw [crlf_cons hc, cutHtml, ih, Cut.crlf_push hc]
      intro rest hLess hRest
      obtain ⟨more, hMore, -⟩ := Text.crlf_eq_cons (by decide) (by decide) hRest
      exact hOpen more hLess hMore

/-! ## Line comments -/

/-- A line comment takes the carriage return before its line feed along. -/
theorem cutLineComment_crlf {cs taken rest : List Char} (h : cutLineComment cs = ⟨taken, rest⟩) :
    cutLineComment (crlf cs) = ⟨crlf taken, crlf rest⟩ ∨
      ∃ more, rest = '\n' :: more ∧
        cutLineComment (crlf cs) = ⟨crlf taken ++ ['\r'], '\n' :: crlf more⟩ := by
  have hText := cutLineComment_text cs
  rw [h, Cut.text_mk] at hText
  obtain ⟨hFeed, hClose, hEnds⟩ := cutLineComment_cases h
  rw [← hText, Text.crlf_append, Text.crlf_eq_self hFeed]
  rcases hEnds with rfl | hHead | ⟨more, rfl⟩
  · exact .inl (cutLineComment_closed hFeed hClose (.inl rfl))
  · obtain ⟨more, rfl⟩ := head?_eq_some_iff_exists.mp hHead
    refine .inr ⟨more, rfl, ?_⟩
    have hClosed : cutLineComment (taken ++ ['\r'] ++ '\n' :: crlf more) =
        ⟨taken ++ ['\r'], '\n' :: crlf more⟩ := by
      refine cutLineComment_closed (by simp [hFeed]) ?_ (.inr (.inl rfl))
      intro hInfix
      rcases pair_infix_append hInfix with hInfix | hInfix | ⟨-, hHead⟩
      · exact hClose hInfix
      · exact absurd hInfix (by decide)
      · exact absurd hHead (by decide)
    simpa using hClosed
  · exact .inl (cutLineComment_closed hFeed hClose (.inr (.inr ⟨crlf more, rfl⟩)))

/-! ## Tokens -/

theorem ofBlockComment_crlf (code : List Char) :
    Token.ofBlockComment (crlf code) = Token.ofBlockComment code := by
  match code with
  | [] => rfl
  | [c] =>
    by_cases hc : c = '\n'
    · subst hc
      rfl
    · rw [crlf_cons hc]
      rfl
  | c :: d :: code =>
    by_cases hc : c = '\n'
    · subst hc
      rfl
    · by_cases hd : d = '\n'
      · subst hd
        rw [crlf_cons hc, Text.crlf_feed, ofBlockComment_pair, ofBlockComment_pair]
        simp
      · rw [crlf_cons hc, crlf_cons hd, ofBlockComment_pair, ofBlockComment_pair]

theorem StandsAlone.crlf {c : Char} {rest : List Char} (h : StandsAlone c rest) :
    StandsAlone c (crlf rest) := by
  refine ⟨h.not_space, h.not_quote, h.not_ident, h.not_hash, ?_, ?_, ?_, ?_⟩
  · intro hc
    rw [Ne, Text.head?_crlf_eq_iff (by decide) (by decide), Ne,
      Text.head?_crlf_eq_iff (by decide) (by decide)]
    exact h.not_comment hc
  · intro hc
    rw [Ne, Text.head?_crlf_eq_iff (by decide) (by decide)]
    exact h.not_close hc
  · intro hc
    exact ((Run.nil (h.not_variable hc)).crlf_of_not (by decide) (by decide)).2.stops
  · intro hc more hMore
    have hPair : ∀ d ∈ ['<', '<'], d ≠ '\r' ∧ d ≠ '\n' := by simp
    obtain ⟨inner, rfl, rfl⟩ := Text.crlf_eq_append hPair hMore
    rw [cutHeredoc?_crlf, h.not_heredoc hc inner rfl]
    rfl

/-- A token is found again in the new text. Only a line comment that ends before a line feed takes
more than before. -/
theorem Token.Leads.crlf {token : Token} {taken rest : List Char} (h : token.Leads taken rest) :
    token.Leads (crlf taken) (crlf rest) ∨
      (token = .trivia ∧ ∃ more, rest = '\n' :: more ∧
        token.Leads (Text.crlf taken ++ ['\r']) ('\n' :: Text.crlf more)) := by
  -- line comments alone stop before a line feed, and so before or behind its carriage return
  cases h.scanned with
  | @blockComment code _ _ h =>
    have hCut := cutBlockComment_crlf code
    rw [h] at hCut
    have hLeads := (Scanned.blockComment hCut).leads
    rw [ofBlockComment_crlf] at hLeads
    exact .inl hLeads
  | @attributes code _ _ h =>
    have hCut := cutBrackets_crlf 0 code
    rw [h] at hCut
    exact .inl (Scanned.attributes hCut).leads
  | slashComment h =>
    rcases cutLineComment_crlf h with hCut | ⟨more, hRest, hCut⟩
    · exact .inl (Scanned.slashComment hCut).leads
    · exact .inr ⟨rfl, more, hRest, (Scanned.slashComment hCut).leads⟩
  | @hashComment code _ _ hNext h =>
    have hNext' : (Text.crlf code).head? ≠ some '[' := by
      rw [Ne, Text.head?_crlf_eq_iff (by decide) (by decide)]
      exact hNext
    rcases cutLineComment_crlf h with hCut | ⟨more, hRest, hCut⟩
    · exact .inl (Scanned.hashComment hNext' hCut).leads
    · exact .inr ⟨rfl, more, hRest, (Scanned.hashComment hNext' hCut).leads⟩
  | closeTag => exact .inl (Scanned.closeTag _).leads
  | @heredoc code _ _ h =>
    have hCut := cutHeredoc?_crlf code
    rw [h] at hCut
    exact .inl (Scanned.heredoc hCut).leads
  | variable_ hNe h =>
    obtain ⟨hSelf, hRun⟩ := h.crlf_of_not (by decide) (by decide)
    rw [crlf_cons (by decide), hSelf]
    exact .inl (Scanned.variable_ hNe hRun).leads
  | @space c run _ hc h =>
    have hRun := h.crlf rfl
    by_cases hFeed : c = '\n'
    · subst hFeed
      have hBoth : Run isCodeSpace (['\n'] ++ Text.crlf run) (Text.crlf rest) :=
        .append (List.forall_mem_singleton.mpr rfl) hRun
      exact .inl (Scanned.space (by decide) hBoth).leads
    · rw [crlf_cons hFeed]
      exact .inl (Scanned.space hc hRun).leads
  | @string quote code _ _ hQuote h =>
    have hReturn : quote ≠ '\r' := by
      rintro rfl
      exact absurd hQuote (by decide)
    have hFeed : quote ≠ '\n' := by
      rintro rfl
      exact absurd hQuote (by decide)
    have hCut := cutString_crlf hReturn hFeed code
    rw [h] at hCut
    rw [crlf_cons hFeed]
    exact .inl (Scanned.string hQuote hCut).leads
  | word hc h =>
    obtain ⟨hSelf, hRun⟩ := h.crlf_of_not (by decide) (by decide)
    rw [crlf_cons (ident_ne_break hc).2, hSelf]
    exact .inl (Scanned.word hc hRun).leads
  | @punctuation c _ h =>
    have hFeed : c ≠ '\n' := by
      rintro rfl
      exact absurd h.not_space (by decide)
    rw [crlf_cons hFeed]
    exact .inl (Scanned.punctuation h.crlf).leads

end Php

end TagLint
