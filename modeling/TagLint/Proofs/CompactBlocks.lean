import TagLint.Proofs.LeadingTokens
import TagLint.Proofs.OutputFormats
import TagLint.Text.Split

/-!
# Blocks of compact reports

A compact report can be read back line by line: it is made of blocks, one an item, and an empty line
ends each of them. This rests on two facts about the source. The name of a declaration is one token of
its head, so it has no other characters than those of names, and the arguments of a tag are words of
one line. So no text that is taken from the source brings a line feed with it.

* `findOwner_name_isIdentChar`: the characters in the name of an owner.
* `lintSource_shownInline`: the texts that are shown about an item have no line feeds.
* `linesOf_joinLines`: lines without line feeds, each with its own, are read back.
* `compactReport_blocks`: the blocks of a compact report.
-/

namespace TagLint

/-! ## Names of owners -/

namespace Php

/-- The name that a token spells, if any, has characters of names only. -/
def Token.IsSpelled : Token → Prop
  | .word name | .variable_ name => ∀ c ∈ name, isIdentChar c = true
  | _ => True

theorem Token.Leads.isSpelled {token : Token} {taken rest : List Char}
    (h : token.Leads taken rest) : token.IsSpelled := by
  cases h.scanned with
  | blockComment =>
    unfold ofBlockComment
    split <;> trivial
  | variable_ _ hRun => exact hRun.all
  | word hc hRun => exact List.forall_mem_cons.mpr ⟨hc, hRun.all⟩
  | _ => trivial

theorem headLexemes_isSpelled (offset : Nat) (code : List Char) :
    ∀ x ∈ headLexemes offset code, x.token.IsSpelled := by
  induction code using leads_induction generalizing offset with
  | nil => simp [headLexemes]
  | token token taken rest hLeads ih =>
    by_cases hTrivia : token = .trivia
    · subst hTrivia
      rw [headLexemes_trivia hLeads]
      exact ih rest (Nat.le_refl _) _
    · cases hHead : token.continuesHead with
      | true =>
        rw [headLexemes_continue hLeads hHead]
        exact List.forall_mem_cons.mpr ⟨hLeads.isSpelled, ih rest (Nat.le_refl _) _⟩
      | false =>
        rw [headLexemes_last hLeads hTrivia hHead]
        exact List.forall_mem_singleton.mpr hLeads.isSpelled

theorem declare_name_isIdentChar {s : HeadState} {kind : DeclarationKind} {start stop : Nat}
    {xs : List Lexeme} (h : ∀ x ∈ xs, x.token.IsSpelled) :
    ∀ c ∈ (declare s kind start stop xs).name.toList, isIdentChar c = true := by
  unfold declare
  dsimp only
  cases hName : declaredName? kind xs with
  | none => simp
  | some found =>
    obtain ⟨name, nameStop⟩ := found
    obtain ⟨x, hx, hWord, -⟩ := declaredName?_mem hName
    have hSpelled := h x hx
    rw [hWord] at hSpelled
    simpa [Token.IsSpelled] using hSpelled

theorem ownerOf_name_isIdentChar {anchor : Nat} {s : HeadState} {xs : List Lexeme}
    (h : ∀ x ∈ xs, x.token.IsSpelled) :
    ∀ c ∈ (ownerOf anchor s xs).name.toList, isIdentChar c = true := by
  induction xs generalizing s with
  | nil => simp [ownerOf, unspecific]
  | cons x xs ih =>
    obtain ⟨hx, hxs⟩ := List.forall_mem_cons.mp h
    unfold ownerOf
    dsimp only
    split
    · split
      · exact ih hxs
      · exact ih hxs
      · exact declare_name_isIdentChar hxs
      · split
        · exact ih hxs
        · simp [unspecific]
    · rename_i name hVariable
      rw [hVariable] at hx
      simpa [Token.IsSpelled] using hx
    · split
      · exact ih hxs
      · simp [unspecific]
    all_goals simp [unspecific]

theorem findOwner_name_isIdentChar (offset : Nat) (code : List Char) :
    ∀ c ∈ (findOwner offset code).name.toList, isIdentChar c = true :=
  ownerOf_name_isIdentChar (headLexemes_isSpelled offset code)

theorem parseSource_owner_oneLine {source : List Char} {owner : Declaration} {comment : DocComment}
    (h : .commented owner comment ∈ parseSource source) : OneLine owner.name := by
  obtain ⟨raw, -, ⟨comment, -, hItem⟩ | hItem⟩ := parseSource_cases h
  · cases hItem
    intro hFeed
    exact absurd (findOwner_name_isIdentChar _ _ _ hFeed) (by decide)
  · cases hItem

end Php

/-! ## Texts that are shown -/

/-- The texts that are shown about an item have no line feeds. -/
structure ItemDiagnostics.ShownInline (item : ItemDiagnostics) : Prop where
  name : OneLine item.name
  message : ∀ d ∈ item.diagnostics, OneLine d.message
  fix : ∀ d ∈ item.diagnostics, ∀ fix ∈ d.fix, OneLine fix.message

theorem lintSource_name_oneLine {options : ValidationOptions} {source : List Char}
    {item : ItemDiagnostics} (h : item ∈ lintSource options source) : OneLine item.name := by
  rw [lintSource, lintItems, List.mem_mergeSort] at h
  obtain ⟨documented, hDocumented, hFound⟩ := List.mem_filterMap.mp h
  rcases validateItem?_cases hFound with ⟨owner, comment, rfl, -, rfl⟩ | ⟨error, rfl, -, rfl⟩
  · exact Php.parseSource_owner_oneLine hDocumented
  · exact (by decide : OneLine "")

theorem lintSource_shownInline {options : ValidationOptions} {source : List Char}
    {item : ItemDiagnostics} (h : item ∈ lintSource options source) : item.ShownInline := by
  have hLines := lintSource_oneLine options source item h
  refine ⟨lintSource_name_oneLine h, ?_, ?_⟩
  · intro d hd
    have hLine := hLines d hd
    simp only [compactLine, oneLine_append] at hLine
    exact hLine.1.2
  · intro d hd fix hFix
    have hLine := hLines d hd
    rw [Option.mem_def] at hFix
    simp only [compactLine, fixNote, hFix, oneLine_append] at hLine
    exact hLine.2.1.2

theorem ItemType.display_filled (t : ItemType) : t.display ≠ "" ∧ OneLine t.display := by
  cases t with
  | declaration kind => cases kind <;> decide
  | parsingError => decide

theorem ItemDiagnostics.title_filled {item : ItemDiagnostics} (h : OneLine item.name) :
    item.title ≠ "" ∧ OneLine item.title := by
  obtain ⟨hNe, hType⟩ := item.itemType.display_filled
  unfold title
  split
  · exact ⟨hNe, hType⟩
  · refine ⟨by simp [hNe], ?_⟩
    simp only [oneLine_append]
    exact ⟨⟨hType, by decide⟩, h⟩

/-! ## Lines of a text -/

theorem Text.splitOn_append_separator {separator : Char} {part : List Char} (h : separator ∉ part)
    (rest : List Char) :
    splitOn separator (part ++ separator :: rest) = part :: splitOn separator rest := by
  induction part with
  | nil => simp [splitOn]
  | cons c part ih =>
    obtain ⟨hc, hPart⟩ := List.ne_and_not_mem_of_not_mem_cons h
    rw [List.cons_append, splitOn, if_neg (Ne.symm hc), ih hPart]

/-- The lines of a text, and what stands behind its last line feed. -/
def linesOf (text : String) : List String :=
  (Text.splitOn '\n' text.toList).map String.ofList

theorem linesOf_joinLines {lines : List String} (h : ∀ line ∈ lines, OneLine line) :
    linesOf (joinLines lines) = lines ++ [""] := by
  induction lines with
  | nil => rfl
  | cons line lines ih =>
    obtain ⟨hLine, hLines⟩ := List.forall_mem_cons.mp h
    have hText : (joinLines (line :: lines)).toList =
        line.toList ++ '\n' :: (joinLines lines).toList := by
      simp [joinLines]
    rw [linesOf, hText, Text.splitOn_append_separator hLine, List.map_cons, String.ofList_toList]
    exact congrArg (line :: ·) (ih hLines)

/-! ## Blocks -/

/-- A block of a compact report. No line of it is empty but the one that ends it, and the lines of
findings are indented. -/
structure CompactBlock where
  place : String
  title : String
  findings : List String
  filled : ∀ line ∈ place :: title :: findings, line ≠ "" ∧ OneLine line
  indented : ∀ line ∈ findings, [' ', ' '] <+: line.toList

namespace CompactBlock

/-- The lines of a block, with the empty one that ends it. -/
def lines (block : CompactBlock) : List String :=
  block.place :: block.title :: block.findings ++ [""]

/-- The block is about an item of a file with this name. -/
structure Tells (name : String) (block : CompactBlock) (item : ItemDiagnostics) : Prop where
  place_eq : block.place = name ++ ":" ++ toString (item.span.start.line + 1) ++ ":"
    ++ toString (item.span.start.column + 1)
  title_eq : block.title = item.title
  findings_eq : block.findings = item.diagnostics.map compactLine

theorem place_eq_display (name : String) (p : Position) :
    name ++ ":" ++ toString (p.line + 1) ++ ":" ++ toString (p.column + 1) =
      name ++ ":" ++ p.display := by
  simp only [Position.display, String.append_assoc]

theorem lines_oneLine (block : CompactBlock) : ∀ line ∈ block.lines, OneLine line := by
  intro line hLine
  rcases List.mem_append.mp hLine with hLine | hLine
  · exact (block.filled line hLine).2
  · obtain rfl := List.mem_singleton.mp hLine
    decide

theorem linesOf_blocks (blocks : List CompactBlock) :
    linesOf (joinLines (blocks.flatMap lines)) = blocks.flatMap lines ++ [""] := by
  apply linesOf_joinLines
  intro line hLine
  obtain ⟨block, -, hMem⟩ := List.mem_flatMap.mp hLine
  exact block.lines_oneLine line hMem

theorem exists_tells {name : String} (hName : OneLine name) {item : ItemDiagnostics}
    (h : item.ShownInline) : ∃ block, Tells name block item := by
  have hPlace : OneLine (name ++ ":" ++ item.span.start.display) := by
    simp only [oneLine_append]
    exact ⟨⟨hName, by decide⟩, item.span.start.oneLine_display⟩
  refine ⟨⟨name ++ ":" ++ item.span.start.display, item.title, item.diagnostics.map compactLine,
    ?_, ?_⟩, (place_eq_display name item.span.start).symm, rfl, rfl⟩
  · refine List.forall_mem_cons.mpr ⟨⟨by simp, hPlace⟩,
      List.forall_mem_cons.mpr ⟨ItemDiagnostics.title_filled h.name, ?_⟩⟩
    intro line hLine
    obtain ⟨d, hd, rfl⟩ := List.mem_map.mp hLine
    exact ⟨by simp [compactLine], oneLine_compactLine (h.message d hd) (h.fix d hd)⟩
  · intro line hLine
    obtain ⟨d, -, rfl⟩ := List.mem_map.mp hLine
    simp [compactLine]

theorem Tells.joinLines_eq {name : String} {block : CompactBlock} {item : ItemDiagnostics}
    (h : block.Tells name item) : joinLines block.lines = compactItem name item := by
  rw [lines, h.place_eq, place_eq_display, h.title_eq, h.findings_eq]
  rfl

variable {name : String} {blocks : List CompactBlock} {items : List ItemDiagnostics}

theorem joinLines_eq_compactReport (h : List.Forall₂ (Tells name) blocks items) :
    joinLines (blocks.flatMap lines) = compactReport name items := by
  rw [joinLines_flatMap, compactReport]
  congr 1
  induction h with
  | nil => rfl
  | cons hFirst _ ih => rw [List.map_cons, List.map_cons, hFirst.joinLines_eq, ih]

theorem findings_eq_map (h : List.Forall₂ (Tells name) blocks items) :
    blocks.flatMap findings = (items.flatMap (·.diagnostics)).map compactLine := by
  induction h with
  | nil => rfl
  | cons hFirst _ ih =>
    rw [List.flatMap_cons, List.flatMap_cons, List.map_append, hFirst.findings_eq, ih]

theorem exists_forall₂_tells (hName : OneLine name) (h : ∀ item ∈ items, item.ShownInline) :
    ∃ blocks, List.Forall₂ (Tells name) blocks items := by
  induction items with
  | nil => exact ⟨[], .nil⟩
  | cons item items ih =>
    obtain ⟨hItem, hItems⟩ := List.forall_mem_cons.mp h
    obtain ⟨block, hBlock⟩ := exists_tells hName hItem
    obtain ⟨blocks, hBlocks⟩ := ih hItems
    exact ⟨block :: blocks, .cons hBlock hBlocks⟩

end CompactBlock

/-- **Compact reports by line.** The lines of a compact report are those of its blocks, one an item in
their order, and the lines of findings are as many as the findings that are counted. Neither the texts
that are shown about an item nor the names in the source that they are made of have line feeds. -/
theorem compactReport_blocks (options : ValidationOptions) (source : List Char) (path : String)
    (document : Nat) {name : String} (hName : OneLine name) :
    let file : FileDiagnostics := { path, document, items := lintSource options source }
    ∃ blocks : List CompactBlock,
      List.Forall₂ (CompactBlock.Tells name) blocks file.items ∧
      linesOf (compactReport name file.items) = blocks.flatMap CompactBlock.lines ++ [""] ∧
      (blocks.flatMap CompactBlock.findings).length = file.count.total ∧
      (∀ item ∈ file.items, item.ShownInline) ∧
      ∀ owner comment, .commented owner comment ∈ Php.parseSource source →
        OneLine owner.name ∧ ∀ tag ∈ comment.tags, ∀ a ∈ tag.arguments, OneLine a.name := by
  intro file
  have hShown : ∀ item ∈ file.items, item.ShownInline := fun item => lintSource_shownInline
  obtain ⟨blocks, hBlocks⟩ := CompactBlock.exists_forall₂_tells hName hShown
  refine ⟨blocks, hBlocks, ?_, ?_, hShown, ?_⟩
  · rw [← CompactBlock.joinLines_eq_compactReport hBlocks]
    exact CompactBlock.linesOf_blocks blocks
  · rw [CompactBlock.findings_eq_map hBlocks, List.length_map, FileDiagnostics.count,
      SeverityCount.total_ofDiagnostics]
  · intro owner comment hItem
    exact ⟨Php.parseSource_owner_oneLine hItem, Php.parseSource_oneLine source _ hItem⟩

/-- The report on a function whose name ends in a next line character and whose tag has arguments on
two reported lines, and on a comment without end. -/
theorem compactReport_blocks_separated :
    let source := ("<?php\n/** @kphp-warn-performance a,`b\u2028!é */ function &naïve\u0085(): "
      ++ "/** @kphp-warn-performance").toList
    let file : FileDiagnostics := { path := "/x.php", items := lintSource {} source }
    linesOf (compactReport "x.php" file.items) =
      ["x.php:3:7",
        "function naïve\u0085",
        "  2:28 warning [unknown-item] unknown item `a,`b` (fix: remove unknown a,`b)",
        "  3:1 warning [unknown-item] unknown item `é` (fix: remove unknown é)",
        "",
        "x.php:3:27",
        "parsing-error",
        "  3:27 error [parsing-error] error parsing a doc comment: a doc comment must start with "
          ++ "`/**` and end with `*/`",
        "",
        ""] ∧ file.count.total = 3 := by
  intro source file
  have hName : OneLine "x.php" := by decide
  obtain ⟨blocks, hBlocks, hLines, hCount, -⟩ :=
    compactReport_blocks {} source "/x.php" 0 hName
  let naive : ItemDiagnostics :=
    { itemType := .declaration .function
      name := "naïve\u0085"
      span := ⟨⟨47, 44, 2, 6⟩, ⟨65, 60, 2, 22⟩⟩
      diagnostics := [unknownItemAt "a,`b" ⟨⟨33, 33, 1, 27⟩, ⟨37, 37, 1, 31⟩⟩,
        unknownItemAt "é" ⟨⟨40, 38, 2, 0⟩, ⟨43, 40, 2, 2⟩⟩] }
  let unread : ItemDiagnostics :=
    { itemType := .parsingError
      name := ""
      span := ⟨⟨69, 64, 2, 26⟩, ⟨95, 90, 2, 52⟩⟩
      diagnostics := [.ofKind .parsingError ("error parsing a doc comment: "
        ++ DocComment.delimitersRequired) ⟨⟨69, 64, 2, 26⟩, ⟨95, 90, 2, 52⟩⟩] }
  have hItems : lintSource {} source = [naive, unread] := by
    rw [lintSource_eq_filterMap, Php.parseSource, complete_eq_map]
    decide +kernel
  rw [hItems] at hBlocks
  obtain - | ⟨hNaive, - | ⟨hUnread, ⟨⟩⟩⟩ := hBlocks
  constructor
  · refine hLines.trans ?_
    simp only [List.flatMap_cons, List.flatMap_nil, CompactBlock.lines, hNaive.place_eq,
      hNaive.title_eq, hNaive.findings_eq, hUnread.place_eq, hUnread.title_eq, hUnread.findings_eq]
    decide +kernel
  · refine hCount.symm.trans ?_
    simp only [List.flatMap_cons, List.flatMap_nil, hNaive.findings_eq, hUnread.findings_eq]
    rfl

end TagLint
