import Mathlib.Data.List.Destutter
import TagLint.Php.Document
import TagLint.Proofs.Places

/-!
# Full positions

`complete` walks the source once, collects one position for each offset it needs and looks every span
end up in that table. The table is an economy only: an offset of a sorted list is looked up as the
position that a walk of its own would find.

* `lookup_positionsAt`: the entry of an offset is its position.
* `lookup_positionsAt_partition`: the table is in order, so the entry is where the table divides into
  the positions that do not reach the offset and those that do.
* `complete_eq_map`: completion replaces every span end by the position of its offset.
* `locate_append`: the position behind a text is reached by stepping over its characters, so the
  offset of a character boundary is kept (`utf8_locate`).
-/

namespace TagLint

open Text (byteWidth IsBoundary)

/-! ## The table of positions -/

theorem positionsFrom_ne_nil {p : Position} {cs : List Char} {offsets : List Nat}
    (h : offsets ≠ []) : positionsFrom p cs offsets ≠ [] := by
  fun_induction positionsFrom p cs offsets with
  | case1 => exact absurd rfl h
  | case2 => simp
  | case3 => simp
  | case4 => simp
  | case5 p c cs offset offsets _ ih => exact ih (by simp)

theorem lookup_cons_of_le {p : Position} {ps : List Position} {offset : Nat}
    (h : offset ≤ p.utf8) : lookup (p :: ps) offset = p := by
  simp [lookup, h]

theorem lookup_cons_of_lt {p : Position} {ps : List Position} {offset : Nat}
    (h : p.utf8 < offset) (hps : ps ≠ []) : lookup (p :: ps) offset = lookup ps offset := by
  obtain ⟨q, qs, rfl⟩ := List.exists_cons_of_ne_nil hps
  simp [lookup, List.find?_cons, Nat.not_le.mpr h]

theorem lookup_singleton (p : Position) (offset : Nat) : lookup [p] offset = p := by
  by_cases h : offset ≤ p.utf8 <;> simp [lookup, h]

/-- An offset of a sorted list that lies behind a position is still there when the offsets up to that
position have been dropped. -/
theorem mem_dropWhile_of_lt {bound offset : Nat} {offsets : List Nat}
    (hMem : offset ∈ offsets) (hLt : bound < offset) :
    offset ∈ offsets.dropWhile (· ≤ bound) := by
  rw [← List.takeWhile_append_dropWhile (p := (· ≤ bound)) (l := offsets)] at hMem
  rcases List.mem_append.mp hMem with hTaken | hLeft
  · have hLe := List.all_takeWhile (l := offsets) (p := (· ≤ bound))
    have := of_decide_eq_true (List.all_eq_true.mp hLe offset hTaken)
    omega
  · exact hLeft

theorem lookup_positionsFrom {p : Position} {cs : List Char} {offsets : List Nat}
    (hSorted : offsets.Pairwise (· ≤ ·)) {offset : Nat} (hMem : offset ∈ offsets) :
    lookup (positionsFrom p cs offsets) offset = locateFrom p cs offset := by
  fun_induction positionsFrom p cs offsets with
  | case1 => simp at hMem
  | case2 p first offsets hFirst ih =>
    -- the text is used up, so the end of the text answers every offset
    by_cases hLe : offset ≤ p.utf8
    · rw [lookup_cons_of_le hLe]
      rfl
    · have hLeft : offset ∈ offsets.dropWhile (· ≤ p.utf8) := by
        rcases List.mem_cons.mp hMem with rfl | hMem
        · exact absurd hFirst hLe
        · exact mem_dropWhile_of_lt hMem (by omega)
      rw [lookup_cons_of_lt (by omega) (positionsFrom_ne_nil (List.ne_nil_of_mem hLeft))]
      exact ih (hSorted.of_cons.sublist (List.dropWhile_sublist _)) hLeft
  | case3 p first offsets hFirst =>
    rw [lookup_singleton]
    rfl
  | case4 p c cs first offsets hFirst ih =>
    by_cases hLe : offset ≤ p.utf8
    · rw [lookup_cons_of_le hLe, locateFrom, if_pos hLe]
    · have hLeft : offset ∈ offsets.dropWhile (· ≤ p.utf8) := by
        rcases List.mem_cons.mp hMem with rfl | hMem
        · exact absurd hFirst hLe
        · exact mem_dropWhile_of_lt hMem (by omega)
      rw [lookup_cons_of_lt (by omega) (positionsFrom_ne_nil (List.ne_nil_of_mem hLeft))]
      exact ih (hSorted.of_cons.sublist (List.dropWhile_sublist _)) hLeft
  | case5 p c cs first offsets hFirst ih =>
    -- the first offset is the smallest, so no offset is reached before the next character
    have hBehind : p.utf8 < offset := by
      rcases List.mem_cons.mp hMem with rfl | hMem
      · omega
      · have := (List.pairwise_cons.mp hSorted).1 offset hMem
        omega
    rw [ih hSorted hMem, locateFrom, if_neg (by omega)]

/-- The entry of an offset is the position that a walk of its own would find. -/
theorem lookup_positionsAt {source : List Char} {offsets : List Nat}
    (hSorted : offsets.Pairwise (· ≤ ·)) {offset : Nat} (hMem : offset ∈ offsets) :
    lookup (positionsAt source offsets) offset = locate source offset :=
  lookup_positionsFrom hSorted hMem

/-! ## The order of the table -/

theorem le_of_mem_positionsFrom {p q : Position} {cs : List Char} {offsets : List Nat}
    (h : q ∈ positionsFrom p cs offsets) : p.utf8 ≤ q.utf8 := by
  fun_induction positionsFrom p cs offsets with
  | case1 => cases h
  | case2 p first offsets _ ih =>
    rcases List.mem_cons.mp h with rfl | h
    · exact Nat.le_refl _
    · exact ih h
  | case3 p first offsets _ =>
    obtain rfl := List.mem_singleton.mp h
    exact Nat.le_refl _
  | case4 p c cs first offsets _ ih =>
    rcases List.mem_cons.mp h with rfl | h
    · exact Nat.le_refl _
    · exact ih h
  | case5 p c cs first offsets _ ih =>
    have hNext := ih h
    rw [Position.utf8_advance] at hNext
    omega

/-- The walk only goes ahead, so the table is in order, whatever the offsets are. -/
theorem positionsFrom_pairwise (p : Position) (cs : List Char) (offsets : List Nat) :
    (positionsFrom p cs offsets).Pairwise (·.utf8 ≤ ·.utf8) := by
  fun_induction positionsFrom p cs offsets with
  | case1 => exact .nil
  | case2 p first offsets _ ih => exact ih.cons fun q hq => le_of_mem_positionsFrom hq
  | case3 p first offsets _ => exact List.pairwise_singleton _ _
  | case4 p c cs first offsets _ ih => exact ih.cons fun q hq => le_of_mem_positionsFrom hq
  | case5 p c cs first offsets _ ih => exact ih

/-- In a list in order, the positions that do not reach an offset come first. -/
theorem find?_eq_partition {ps : List Position} (h : ps.Pairwise (·.utf8 ≤ ·.utf8)) (offset : Nat) :
    ps.find? (offset ≤ ·.utf8) = ps[ps.countP (·.utf8 < offset)]? := by
  induction ps with
  | nil => rfl
  | cons p ps ih =>
    obtain ⟨hFirst, hRest⟩ := List.pairwise_cons.mp h
    by_cases hReached : offset ≤ p.utf8
    · have hNone : (p :: ps).countP (·.utf8 < offset) = 0 := by
        rw [List.countP_eq_zero]
        intro q hq
        have hLe : p.utf8 ≤ q.utf8 := by
          rcases List.mem_cons.mp hq with rfl | hq
          · exact Nat.le_refl _
          · exact hFirst q hq
        simp only [decide_eq_true_eq]
        omega
      simp [hNone, hReached]
    · have hBehind : p.utf8 < offset := by omega
      simp [hReached, hBehind, ih hRest]

/-- The entry of an offset stands behind all entries that do not reach it. If these are all entries,
the last of them takes its place. -/
theorem lookup_positionsAt_partition (source : List Char) (offsets : List Nat) (offset : Nat) :
    let positions := positionsAt source offsets
    lookup positions offset =
      (positions[positions.countP (·.utf8 < offset)]?.or positions.getLast?).getD .zero := by
  have hOrder : (positionsAt source offsets).Pairwise (·.utf8 ≤ ·.utf8) :=
    positionsFrom_pairwise .zero source offsets
  dsimp only
  rw [lookup, find?_eq_partition hOrder, Option.getD_or]

/-! ## Completion -/

theorem eraseReps_eq_destutter (offsets : List Nat) :
    offsets.eraseReps = offsets.destutter (· ≠ ·) := by
  have hLoop : ∀ (l : List Nat) (a : Nat) (passed : List Nat),
      List.eraseRepsBy.loop (· == ·) a l passed = passed.reverse ++ l.destutter' (· ≠ ·) a := by
    intro l
    induction l with
    | nil => simp [List.eraseRepsBy.loop]
    | cons b l ih =>
      intro a passed
      by_cases h : a = b
      · simp [List.eraseRepsBy.loop, ih, h]
      · simp [List.eraseRepsBy.loop, ih, h, beq_false_of_ne h]
  cases offsets with
  | nil => rfl
  | cons a l => exact hLoop l a []

theorem pairwise_mergeSort_le (offsets : List Nat) : offsets.mergeSort.Pairwise (· ≤ ·) := by
  have hTrans : ∀ a b c : Nat, decide (a ≤ b) = true → decide (b ≤ c) = true →
      decide (a ≤ c) = true := by
    intro a b c hab hbc
    exact decide_eq_true (Nat.le_trans (of_decide_eq_true hab) (of_decide_eq_true hbc))
  have hTotal : ∀ a b : Nat, (decide (a ≤ b) || decide (b ≤ a)) = true := by
    intro a b
    simpa using Nat.le_total a b
  apply (List.pairwise_mergeSort hTrans hTotal _).imp
  intro a b hab
  exact of_decide_eq_true hab

/-- In sorted offsets all repetitions stand together, so leaving them out leaves each offset once. -/
theorem eraseReps_eq_dedup {offsets : List Nat} (h : offsets.Pairwise (· ≤ ·)) :
    offsets.eraseReps = offsets.dedup := by
  rw [eraseReps_eq_destutter, h.destutter_eq_dedup]

theorem pairwise_eraseReps {offsets : List Nat} (h : offsets.Pairwise (· ≤ ·)) :
    offsets.eraseReps.Pairwise (· < ·) := by
  rw [eraseReps_eq_dedup h]
  have hSorted := h.sublist (List.dedup_sublist offsets)
  exact (hSorted.and (List.nodup_dedup offsets)).imp fun h => Nat.lt_of_le_of_ne h.1 h.2

theorem spanOffsets_pairwise (items : List DocumentedItem) :
    (spanOffsets items).Pairwise (· < ·) :=
  pairwise_eraseReps (pairwise_mergeSort_le _)

theorem mem_spanOffsets {items : List DocumentedItem} {item : DocumentedItem} {s : Span}
    (hItem : item ∈ items) (hSpan : s ∈ item.spans) :
    s.start.utf8 ∈ spanOffsets items ∧ s.stop.utf8 ∈ spanOffsets items := by
  have hMem : s ∈ items.flatMap (·.spans) := List.mem_flatMap.mpr ⟨item, hItem, hSpan⟩
  rw [spanOffsets, eraseReps_eq_dedup (pairwise_mergeSort_le _), List.mem_dedup, List.mem_dedup,
    List.mem_mergeSort, List.mem_mergeSort]
  constructor
  · exact List.mem_flatMap.mpr ⟨s, hMem, by simp⟩
  · exact List.mem_flatMap.mpr ⟨s, hMem, by simp⟩

section Congruence

variable {f g : Position → Position}

theorem Argument.mapPositions_congr {a : Argument} (h : a.span.map f = a.span.map g) :
    a.mapPositions f = a.mapPositions g := by
  simp [Argument.mapPositions, h]

theorem DocTag.mapPositions_congr {t : DocTag} (h : ∀ s ∈ t.spans, s.map f = s.map g) :
    t.mapPositions f = t.mapPositions g := by
  have hName := h t.nameSpan (by simp [DocTag.spans])
  have hSpan := h t.span (by simp [DocTag.spans])
  have hArguments : t.arguments.map (·.mapPositions f) = t.arguments.map (·.mapPositions g) := by
    refine List.map_congr_left fun a ha => Argument.mapPositions_congr (h a.span ?_)
    exact List.mem_cons_of_mem _ (List.mem_cons_of_mem _ (List.mem_map_of_mem ha))
  simp [DocTag.mapPositions, hName, hSpan, hArguments]

theorem DocComment.mapPositions_congr {c : DocComment} (h : ∀ s ∈ c.spans, s.map f = s.map g) :
    c.mapPositions f = c.mapPositions g := by
  have hSpan := h c.span (by simp [DocComment.spans])
  have hTags : c.tags.map (·.mapPositions f) = c.tags.map (·.mapPositions g) := by
    refine List.map_congr_left fun t ht => DocTag.mapPositions_congr fun s hs => h s ?_
    exact List.mem_cons_of_mem _ (List.mem_flatMap.mpr ⟨t, ht, hs⟩)
  simp [DocComment.mapPositions, hSpan, hTags]

theorem Error.mapPositions_congr {e : Error} (h : ∀ s ∈ e.span?.toList, s.map f = s.map g) :
    e.mapPositions f = e.mapPositions g := by
  cases e with
  | malformedComment span reason =>
    have hSpan := h span (by simp [Error.span?])
    simp [Error.mapPositions, hSpan]
  | sharedSources => rfl
  | io path failure => rfl

/-- Two changes of positions that agree on the spans of an item change it alike. -/
theorem DocumentedItem.mapPositions_congr {item : DocumentedItem}
    (h : ∀ s ∈ item.spans, s.map f = s.map g) : item.mapPositions f = item.mapPositions g := by
  cases item with
  | commented owner comment =>
    have hOwner := h owner.span (by simp [DocumentedItem.spans])
    have hComment : comment.mapPositions f = comment.mapPositions g :=
      DocComment.mapPositions_congr fun s hs => h s (List.mem_cons_of_mem _ hs)
    simp [DocumentedItem.mapPositions, Declaration.mapPositions, hOwner, hComment]
  | failed e =>
    have hError : e.mapPositions f = e.mapPositions g := Error.mapPositions_congr h
    simp [DocumentedItem.mapPositions, hError]

end Congruence

section Composition

variable (f g : Position → Position)

theorem DocTag.mapPositions_comp (t : DocTag) :
    (t.mapPositions f).mapPositions g = t.mapPositions (g ∘ f) := by
  have hArguments : (t.arguments.map (·.mapPositions f)).map (·.mapPositions g) =
      t.arguments.map (·.mapPositions (g ∘ f)) := List.map_map
  simp only [DocTag.mapPositions, hArguments]
  rfl

theorem DocComment.mapPositions_comp (c : DocComment) :
    (c.mapPositions f).mapPositions g = c.mapPositions (g ∘ f) := by
  have hTags : (c.tags.map (·.mapPositions f)).map (·.mapPositions g) =
      c.tags.map (·.mapPositions (g ∘ f)) := by
    rw [List.map_map]
    apply List.map_congr_left
    intro t _
    exact t.mapPositions_comp f g
  simp only [DocComment.mapPositions, hTags]
  rfl

theorem DocumentedItem.mapPositions_comp (item : DocumentedItem) :
    (item.mapPositions f).mapPositions g = item.mapPositions (g ∘ f) := by
  cases item with
  | commented owner comment =>
    have hComment := comment.mapPositions_comp f g
    simp only [DocumentedItem.mapPositions, hComment]
    rfl
  | failed e =>
    cases e with
    | malformedComment span reason => rfl
    | sharedSources => rfl
    | io path failure => rfl

end Composition

/-- Completion gives every span end the position of its own offset. -/
theorem complete_eq_map (source : List Char) (items : List DocumentedItem) :
    complete source items = items.map (·.mapPositions fun p => locate source p.utf8) := by
  refine List.map_congr_left fun item hItem => DocumentedItem.mapPositions_congr fun s hs => ?_
  obtain ⟨hStart, hStop⟩ := mem_spanOffsets hItem hs
  have hSorted := (spanOffsets_pairwise items).imp Nat.le_of_lt
  simp only [Span.map, lookup_positionsAt hSorted hStart, lookup_positionsAt hSorted hStop]

/-! ## Positions behind a text -/

/-- The position behind a text that starts at a position, given what comes after the text. -/
def Position.walk (p : Position) : List Char → List Char → Position
  | [], _ => p
  | c :: cs, after => (p.advance c (cs ++ after).head?).walk cs after

@[simp]
theorem Position.utf8_walk (p : Position) (cs after : List Char) :
    (p.walk cs after).utf8 = p.utf8 + byteWidth cs := by
  induction cs generalizing p with
  | nil => rfl
  | cons c cs ih => simp [Position.walk, ih, Nat.add_assoc]

theorem locateFrom_of_le {p : Position} {offset : Nat} (h : offset ≤ p.utf8) (cs : List Char) :
    locateFrom p cs offset = p := by
  cases cs with
  | nil => rfl
  | cons c cs => rw [locateFrom, if_pos h]

theorem locateFrom_append (p : Position) (before after : List Char) :
    locateFrom p (before ++ after) (p.utf8 + byteWidth before) = p.walk before after := by
  induction before generalizing p with
  | nil => exact locateFrom_of_le (by simp) after
  | cons c cs ih =>
    have hPos := c.utf8Size_pos
    have hBehind : ¬ p.utf8 + (c.utf8Size + byteWidth cs) ≤ p.utf8 := by omega
    have hNext := ih (p.advance c (cs ++ after).head?)
    rw [Position.utf8_advance, Nat.add_assoc] at hNext
    rw [List.cons_append, Text.byteWidth_cons, locateFrom, if_neg hBehind, hNext]
    rfl

/-- The position of a character boundary is reached by stepping over the characters before it. -/
theorem locate_append (before after : List Char) :
    locate (before ++ after) (byteWidth before) = Position.zero.walk before after := by
  have h := locateFrom_append .zero before after
  rwa [show Position.zero.utf8 = 0 from rfl, Nat.zero_add] at h

theorem utf8_locate {source : List Char} {offset : Nat} (h : IsBoundary source offset) :
    (locate source offset).utf8 = offset := by
  obtain ⟨before, after, rfl, rfl⟩ := h
  rw [locate_append, Position.utf8_walk]
  exact Nat.zero_add _

end TagLint
