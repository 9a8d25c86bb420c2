import TagLint.Proofs.MovedFindings
import TagLint.Proofs.MovedItems
import TagLint.Report

/-!
# Line endings do not matter

A source without carriage returns gets one before every line feed. Its items are found again at moved
offsets, and lines and columns stay, since the carriage return of a pair takes no column.

* `crlfOffset`: where an offset of the source has moved.
* `visible_locate_crlf`: a place and the place it has moved to have the same line and column.
* `lintSource_crlf`: the findings are the same up to offsets, and so is the compact report.
-/

namespace TagLint

open Text (byteWidth IsBoundary crlf crlf_cons)

/-! ## Moved offsets -/

namespace Text

/-- The shortest first part of a text that has at least so many bytes, or the whole text. -/
def reach : List Char → Nat → List Char
  | [], _ => []
  | c :: cs, n => if n = 0 then [] else c :: reach cs (n - c.utf8Size)

theorem reach_append (before after : List Char) :
    reach (before ++ after) (byteWidth before) = before := by
  induction before with
  | nil =>
    cases after with
    | nil => rfl
    | cons c cs => rfl
  | cons c cs ih =>
    have hPos := c.utf8Size_pos
    have hSome : ¬ c.utf8Size + byteWidth cs = 0 := by omega
    rw [byteWidth_cons, List.cons_append, reach, if_neg hSome, Nat.add_sub_cancel_left, ih]

theorem byteWidth_le_crlf (cs : List Char) : byteWidth cs ≤ byteWidth (crlf cs) := by
  induction cs with
  | nil => exact Nat.le_refl _
  | cons c cs ih =>
    by_cases hc : c = '\n'
    · subst hc
      rw [crlf_feed]
      simp only [byteWidth_cons]
      omega
    · rw [crlf_cons hc]
      simp only [byteWidth_cons]
      omega

end Text

/-- The byte offset, in the source with carriage returns, of the first character boundary at or after
a byte offset of the source. -/
def crlfOffset (source : List Char) (n : Nat) : Nat :=
  byteWidth (crlf (Text.reach source n))

theorem crlfOffset_append (before after : List Char) :
    crlfOffset (before ++ after) (byteWidth before) = byteWidth (crlf before) := by
  rw [crlfOffset, Text.reach_append]

theorem crlfOffset_zero (source : List Char) : crlfOffset source 0 = 0 :=
  crlfOffset_append [] source

theorem moves_crlfOffset (source : List Char) : Moves (crlfOffset source) 0 source := by
  rintro before after rfl
  rw [crlfOffset_zero, Nat.zero_add, Nat.zero_add, crlfOffset_append]

/-- Of two boundaries, the one that comes first still comes first. -/
theorem crlfOffset_le_iff {source : List Char} {m n : Nat} (hm : IsBoundary source m)
    (hn : IsBoundary source n) : crlfOffset source m ≤ crlfOffset source n ↔ m ≤ n := by
  obtain ⟨as, as', hAs, rfl⟩ := hm
  obtain ⟨bs, bs', hBs, rfl⟩ := hn
  have hLeft : crlfOffset source (byteWidth as) = byteWidth (crlf as) := by
    rw [hAs, crlfOffset_append]
  have hRight : crlfOffset source (byteWidth bs) = byteWidth (crlf bs) := by
    rw [hBs, crlfOffset_append]
  rw [hLeft, hRight]
  rcases List.append_eq_append_iff.mp (hAs.symm.trans hBs) with ⟨more, rfl, -⟩ | ⟨more, rfl, -⟩
  · simp
  · cases more with
    | nil => simp
    | cons c cs =>
      -- something stands between the two, before and after
      have hPos := c.utf8Size_pos
      have hMore := Text.byteWidth_le_crlf (c :: cs)
      simp only [Text.crlf_append, Text.byteWidth_append, Text.byteWidth_cons] at hMore ⊢
      omega

/-! ## Lines and columns -/

/-- What people see of a position: its line and its column. -/
def Position.visible (p : Position) : Position :=
  { line := p.line, column := p.column }

namespace Position

theorem visible_advance_return (p : Position) : (p.advance '\r' (some '\n')).visible = p.visible := rfl

/-- The character that follows matters to a carriage return only. -/
theorem visible_advance {p q : Position} {c : Char} (hc : c ≠ '\r') (h : p.visible = q.visible)
    (next next' : Option Char) : (p.advance c next).visible = (q.advance c next').visible := by
  have hReturn : (c == '\r') = false := beq_eq_false_iff_ne.mpr hc
  have hEnds : endsLine c next = endsLine c next' := by
    simp [endsLine, hReturn]
  have hLine : p.line = q.line := congrArg (·.line) h
  have hColumn : p.column = q.column := congrArg (·.column) h
  unfold advance
  dsimp only
  rw [hEnds, hReturn]
  cases endsLine c next' with
  | true => simp [visible, hLine]
  | false => simp [visible, hLine, hColumn]

theorem visible_walk_crlf {cs : List Char} (h : '\r' ∉ cs) {p q : Position}
    (hVisible : q.visible = p.visible) (after after' : List Char) :
    (q.walk (crlf cs) after').visible = (p.walk cs after).visible := by
  induction cs generalizing p q with
  | nil => exact hVisible
  | cons c cs ih =>
    have hc : c ≠ '\r' := by
      rintro rfl
      exact h List.mem_cons_self
    have hcs : '\r' ∉ cs := fun hMem => h (List.mem_cons_of_mem _ hMem)
    by_cases hFeed : c = '\n'
    · subst hFeed
      rw [Text.crlf_feed, walk, walk, walk]
      apply ih hcs
      apply visible_advance hc
      rw [List.cons_append, List.head?_cons, visible_advance_return]
      exact hVisible
    · rw [crlf_cons hFeed, walk, walk]
      apply ih hcs
      exact visible_advance hc hVisible _ _

end Position

theorem locateFrom_reach (p : Position) (cs : List Char) (n : Nat) :
    ∃ rest, cs = Text.reach cs n ++ rest ∧
      locateFrom p cs (p.utf8 + n) = p.walk (Text.reach cs n) rest := by
  induction cs generalizing p n with
  | nil => exact ⟨[], rfl, rfl⟩
  | cons c cs ih =>
    by_cases hn : n = 0
    · subst hn
      exact ⟨c :: cs, rfl, locateFrom_of_le (Nat.le_refl _) _⟩
    · obtain ⟨rest, hSplit, hLocate⟩ := ih (p.advance c cs.head?) (n - c.utf8Size)
      have hBehind : ¬ p.utf8 + n ≤ p.utf8 := by omega
      have hNext : locateFrom (p.advance c cs.head?) cs (p.utf8 + n) =
          (p.advance c cs.head?).walk (Text.reach cs (n - c.utf8Size)) rest := by
        rw [← hLocate, Position.utf8_advance]
        by_cases hLe : c.utf8Size ≤ n
        · have hOffset : p.utf8 + c.utf8Size + (n - c.utf8Size) = p.utf8 + n := by omega
          rw [hOffset]
        · -- the offset lies inside the character, so both walks stop behind it
          rw [locateFrom_of_le, locateFrom_of_le]
          · rw [Position.utf8_advance]
            omega
          · rw [Position.utf8_advance]
            omega
      refine ⟨rest, ?_, ?_⟩
      · rw [Text.reach, if_neg hn, List.cons_append, ← hSplit]
      · rw [locateFrom, if_neg hBehind, hNext, Text.reach, if_neg hn, Position.walk, ← hSplit]

theorem visible_locate_crlf {source : List Char} (h : '\r' ∉ source) (n : Nat) :
    (locate (crlf source) (crlfOffset source n)).visible = (locate source n).visible := by
  obtain ⟨rest, hSplit, hLocate⟩ := locateFrom_reach .zero source n
  have hOld : locate source n = Position.zero.walk (Text.reach source n) rest := by
    rw [← hLocate, show Position.zero.utf8 = 0 from rfl, Nat.zero_add]
    rfl
  have hNew : locate (crlf source) (crlfOffset source n) =
      Position.zero.walk (crlf (Text.reach source n)) (crlf rest) := by
    have hCrlf : crlf source = crlf (Text.reach source n) ++ crlf rest := by
      rw [← Text.crlf_append, ← hSplit]
    rw [hCrlf]
    exact locate_append _ _
  have hReach : '\r' ∉ Text.reach source n := by
    intro hMem
    apply h
    rw [hSplit]
    exact List.mem_append_left _ hMem
  rw [hOld, hNew]
  exact Position.visible_walk_crlf hReach rfl _ _

/-! ## Findings -/

/-- The position, in the source with carriage returns, of the place to which an offset has moved. -/
def crlfPosition (source : List Char) (p : Position) : Position :=
  locate (crlf source) (crlfOffset source p.utf8)

theorem utf8_crlfPosition {source : List Char} {p : Position} (h : IsBoundary source p.utf8) :
    (crlfPosition source p).utf8 = crlfOffset source p.utf8 := by
  apply utf8_locate
  obtain ⟨before, after, rfl, hOffset⟩ := h
  exact ⟨crlf before, crlf after, by simp, by rw [← hOffset, crlfOffset_append]⟩

theorem keepsOrder_crlfPosition (source : List Char) : KeepsOrder source (crlfPosition source) := by
  intro p q hp hq
  rw [utf8_crlfPosition hp, utf8_crlfPosition hq]
  exact crlfOffset_le_iff hp hq

/-- Linting finds the items at byte offsets, and only then gives them their positions. -/
theorem lintSource_eq_map (options : ValidationOptions) (source : List Char) :
    lintSource options source = (lintItems options (Php.documentedItems source)).map
      (·.mapPositions fun p => locate source p.utf8) := by
  rw [lintSource, Php.parseSource, complete_eq_map]
  exact lintItems_map (keepsBoundaries_locate source).keepsOrder (Php.documentedItems_placed source)

theorem lintSource_crlf_eq_map (options : ValidationOptions) (source : List Char) :
    lintSource options (crlf source) = (lintItems options (Php.documentedItems source)).map
      (·.mapPositions (crlfPosition source)) := by
  have hItems := Php.documentedItems_crlf (moves_crlfOffset source) (crlfOffset_zero source)
  have hPositions : (Php.documentedItems (crlf source)).map
        (·.mapPositions fun p => locate (crlf source) p.utf8) =
      (Php.documentedItems source).map (·.mapPositions (crlfPosition source)) := by
    rw [hItems, List.map_map]
    apply List.map_congr_left
    intro item _
    exact item.mapPositions_comp _ _
  rw [lintSource, Php.parseSource, complete_eq_map, hPositions]
  exact lintItems_map (keepsOrder_crlfPosition source) (Php.documentedItems_placed source)

theorem fixNote_mapPositions (g : Position → Position) (d : Diagnostic) :
    fixNote (d.mapPositions g) = fixNote d := by
  obtain ⟨kind, severity, message, span, fix⟩ := d
  cases fix with
  | none => rfl
  | some fix => rfl

/-- The compact report shows no more of a position than its line and column. -/
theorem compactReport_visible (name : String) (items : List ItemDiagnostics) :
    compactReport name (items.map (·.mapPositions .visible)) = compactReport name items := by
  have hLine : ∀ d : Diagnostic, compactLine (d.mapPositions .visible) = compactLine d := by
    intro d
    rw [compactLine, fixNote_mapPositions]
    rfl
  have hItem : ∀ item : ItemDiagnostics,
      compactItem name (item.mapPositions .visible) = compactItem name item := by
    intro item
    have hLines : (item.mapPositions .visible).diagnostics.map compactLine =
        item.diagnostics.map compactLine := by
      simp [ItemDiagnostics.mapPositions, Function.comp_def, hLine]
    rw [compactItem, hLines]
    rfl
  simp [compactReport, Function.comp_def, hItem]

/-- **Line endings.** A carriage return before every line feed changes nothing in the findings of a
source but offsets: items, findings, fixes, their texts and order and the line and column of every
span end are the same, and so is the compact report. -/
theorem lintSource_crlf (options : ValidationOptions) (source : List Char) (h : '\r' ∉ source) :
    (lintSource options (crlf source)).map (·.mapPositions .visible) =
        (lintSource options source).map (·.mapPositions .visible) ∧
      ∀ name, compactReport name (lintSource options (crlf source)) =
        compactReport name (lintSource options source) := by
  have hVisible : Position.visible ∘ crlfPosition source =
      Position.visible ∘ fun p => locate source p.utf8 := by
    funext p
    exact visible_locate_crlf h p.utf8
  have hSame : (lintSource options (crlf source)).map (·.mapPositions .visible) =
      (lintSource options source).map (·.mapPositions .visible) := by
    rw [lintSource_crlf_eq_map, lintSource_eq_map, List.map_map, List.map_map]
    apply List.map_congr_left
    intro item _
    simp only [Function.comp_apply, ItemDiagnostics.mapPositions_comp, hVisible]
  refine ⟨hSame, ?_⟩
  intro name
  rw [← compactReport_visible name (lintSource options (crlf source)), hSame, compactReport_visible]

/-- A source of three lines with one finding, which stands on the second line either way. -/
theorem lintSource_crlf_threeLines :
    let source := "<?php /**\n@kphp-warn-performance !x\n*/ fn".toList
    '\r' ∉ source ∧ lintSource {} source ≠ [] ∧
      (lintSource {} (crlf source)).map (·.mapPositions .visible) =
        (lintSource {} source).map (·.mapPositions .visible) ∧
      ∀ name, compactReport name (lintSource {} (crlf source)) =
        compactReport name (lintSource {} source) := by
  intro source
  have hFree : '\r' ∉ source := by decide
  refine ⟨hFree, ?_, lintSource_crlf {} source hFree⟩
  rw [lintSource, Php.parseSource, complete_eq_map]
  decide +kernel

end TagLint
