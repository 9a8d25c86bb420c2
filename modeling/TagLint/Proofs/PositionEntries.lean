import Mathlib.Data.List.Destutter
import Mathlib.Data.List.Perm.Subperm
import Mathlib.Data.List.TakeWhile
import TagLint.Proofs.ExactPositions

/-!
# Entries of a table of positions

`positionsAt` walks a source once and emits a position as soon as the next offset is reached. Each
emitted position then takes along all further offsets that it reaches, be they equal or not, and the
end of the source takes along all that are left. So an offset has an entry of its own only if the
source has a character boundary between it and the offset before it.

* `Parts`: a character boundary sets two offsets apart.
* `positionsFrom_eq_destutter`: the offsets with an entry of their own are those that are set apart
  from the last one with an entry.
* `parts_of_length_eq`, `destutter_eq_dedup`: all distinct offsets are among them exactly if they are
  set apart from one another.
* `positionsAt_entries`: what the table holds.
-/

namespace TagLint

open Text (byteWidth)

/-! ## Offsets that are set apart -/

/-- A text that starts at a byte offset has a character boundary at or behind the first offset and
before the second. -/
def Parts (start : Nat) (cs : List Char) (a b : Nat) : Prop :=
  ∃ k ≤ cs.length, a ≤ start + byteWidth (cs.take k) ∧ start + byteWidth (cs.take k) < b

instance (start : Nat) (cs : List Char) : DecidableRel (Parts start cs) :=
  fun _ _ => inferInstanceAs (Decidable (∃ k ≤ cs.length, _ ∧ _))

section Parts

variable {start a b c : Nat} {cs : List Char}

theorem Parts.lt (h : Parts start cs a b) : a < b := by
  obtain ⟨k, -, hFirst, hSecond⟩ := h
  omega

theorem Parts.trans (h : Parts start cs a b) (h' : Parts start cs b c) : Parts start cs a c := by
  obtain ⟨k, hk, hFirst, hSecond⟩ := h
  have hLt := h'.lt
  exact ⟨k, hk, hFirst, by omega⟩

/-- The start of the text is the first of its boundaries. -/
theorem parts_iff_of_le (h : a ≤ start) : Parts start cs a b ↔ start < b := by
  constructor
  · rintro ⟨k, -, -, hSecond⟩
    omega
  · intro hSecond
    exact ⟨0, Nat.zero_le _, by simpa using h, by simpa using hSecond⟩

theorem not_parts_nil (h : start < a) : ¬ Parts start [] a b := by
  rintro ⟨k, -, hFirst, -⟩
  simp only [List.take_nil, Text.byteWidth_nil] at hFirst
  omega

/-- Behind its start, the boundaries of a text are those behind its first character. -/
theorem parts_cons_iff {d : Char} (h : start < a) :
    Parts start (d :: cs) a b ↔ Parts (start + d.utf8Size) cs a b := by
  constructor
  · rintro ⟨k, hk, hFirst, hSecond⟩
    cases k with
    | zero =>
      simp only [List.take_zero, Text.byteWidth_nil] at hFirst
      omega
    | succ k =>
      simp only [List.take_succ_cons, Text.byteWidth_cons] at hFirst hSecond
      exact ⟨k, Nat.le_of_succ_le_succ hk, by omega, by omega⟩
  · rintro ⟨k, hk, hFirst, hSecond⟩
    refine ⟨k + 1, Nat.succ_le_succ hk, ?_, ?_⟩
    · simp only [List.take_succ_cons, Text.byteWidth_cons]
      omega
    · simp only [List.take_succ_cons, Text.byteWidth_cons]
      omega

end Parts

/-! ## The walk -/

theorem destutter'_eq_cons {α : Type} (R : α → α → Prop) [DecidableRel R] (a : α) (l : List α) :
    l.destutter' R a = a :: (l.dropWhile fun b => ¬ R a b).destutter R := by
  induction l with
  | nil => rfl
  | cons b l ih =>
    by_cases h : R a b
    · rw [List.destutter'_cons_pos l h, List.dropWhile_cons_of_neg (by simpa using h),
        List.destutter_cons']
    · rw [List.destutter'_cons_neg l h, List.dropWhile_cons_of_pos (by simpa using h), ih]

theorem destutter'_congr {α : Type} {R S : α → α → Prop} [DecidableRel R] [DecidableRel S] {a : α}
    {l : List α} (h : (a :: l).Pairwise fun x y => R x y ↔ S x y) :
    l.destutter' R a = l.destutter' S a := by
  induction l generalizing a with
  | nil => rfl
  | cons b l ih =>
    obtain ⟨hFirst, hRest⟩ := List.pairwise_cons.mp h
    have hSkip : l.destutter' R a = l.destutter' S a :=
      ih (List.pairwise_cons.mpr ⟨fun y hy => hFirst y (List.mem_cons_of_mem _ hy), hRest.of_cons⟩)
    simp only [List.destutter'_cons, hFirst b List.mem_cons_self, ih hRest, hSkip]

/-- Elements are only asked about with those that stand behind them. -/
theorem destutter_congr {α : Type} {R S : α → α → Prop} [DecidableRel R] [DecidableRel S]
    {l : List α} (h : l.Pairwise fun x y => R x y ↔ S x y) : l.destutter R = l.destutter S := by
  cases l with
  | nil => rfl
  | cons a l => exact destutter'_congr h

/-- An offset that the start of the text reaches takes along all others that it reaches. -/
theorem destutter_of_reached {start first : Nat} (h : first ≤ start) (cs : List Char)
    (offsets : List Nat) :
    (first :: offsets).destutter (Parts start cs) =
      first :: (offsets.dropWhile (· ≤ start)).destutter (Parts start cs) := by
  have hReached : (fun b => decide (¬ Parts start cs first b)) = (fun b => decide (b ≤ start)) := by
    funext b
    rw [decide_eq_decide, parts_iff_of_le h]
    exact Nat.not_lt
  rw [List.destutter_cons', destutter'_eq_cons, hReached]

/-- The end of the text takes along all offsets behind it. -/
theorem destutter_of_end {start first : Nat} (h : start < first) (offsets : List Nat) :
    (first :: offsets).destutter (Parts start []) = [first] := by
  have hNone : offsets.dropWhile (fun b => ¬ Parts start [] first b) = [] := by
    rw [List.dropWhile_eq_nil_iff]
    intro b _
    exact decide_eq_true (not_parts_nil h)
  rw [List.destutter_cons', destutter'_eq_cons, hNone, List.destutter_nil]

theorem positionsFrom_eq_destutter {p : Position} {cs : List Char} {offsets : List Nat}
    (hSorted : offsets.Pairwise (· ≤ ·)) :
    positionsFrom p cs offsets =
      (offsets.destutter (Parts p.utf8 cs)).map (locateFrom p cs) := by
  fun_induction positionsFrom p cs offsets with
  | case1 => rfl
  | case2 p first offsets hFirst ih =>
    rw [ih (hSorted.of_cons.sublist (List.dropWhile_sublist _)), destutter_of_reached hFirst,
      List.map_cons, locateFrom_of_le hFirst]
  | case3 p first offsets hFirst =>
    rw [destutter_of_end (Nat.lt_of_not_le hFirst)]
    rfl
  | case4 p c cs first offsets hFirst ih =>
    rw [ih (hSorted.of_cons.sublist (List.dropWhile_sublist _)), destutter_of_reached hFirst,
      List.map_cons, locateFrom_of_le hFirst]
  | case5 p c cs first offsets hFirst ih =>
    -- the first offset is the smallest, so the start of the text reaches none
    have hBehind : ∀ a ∈ first :: offsets, p.utf8 < a := by
      intro a ha
      rcases List.mem_cons.mp ha with rfl | ha
      · omega
      · have := (List.pairwise_cons.mp hSorted).1 a ha
        omega
    have hParts : (first :: offsets).destutter (Parts p.utf8 (c :: cs)) =
        (first :: offsets).destutter (Parts (p.utf8 + c.utf8Size) cs) :=
      destutter_congr (hSorted.imp_of_mem fun ha _ _ => parts_cons_iff (hBehind _ ha))
    rw [ih hSorted, hParts, Position.utf8_advance]
    apply List.map_congr_left
    intro a ha
    have hLt := hBehind a ((List.destutter_sublist _ _).subset ha)
    rw [locateFrom, if_neg (by omega)]

theorem positionsAt_eq_destutter {source : List Char} {offsets : List Nat}
    (hSorted : offsets.Pairwise (· ≤ ·)) :
    positionsAt source offsets = (offsets.destutter (Parts 0 source)).map (locate source) :=
  positionsFrom_eq_destutter hSorted

/-! ## One entry an offset -/

section Distinct

variable {start : Nat} {cs : List Char} {offsets : List Nat}

/-- The offsets with an entry of their own are set apart from one another. -/
theorem pairwise_destutter (start : Nat) (cs : List Char) (offsets : List Nat) :
    (offsets.destutter (Parts start cs)).Pairwise (Parts start cs) := by
  have : IsTrans Nat (Parts start cs) := ⟨fun _ _ _ => Parts.trans⟩
  exact (List.isChain_destutter _ offsets).pairwise

theorem destutter_eq_dedup (hSorted : offsets.Pairwise (· ≤ ·))
    (h : ∀ a ∈ offsets, ∀ b ∈ offsets, a < b → Parts start cs a b) :
    offsets.destutter (Parts start cs) = offsets.dedup := by
  rw [← hSorted.destutter_eq_dedup]
  apply destutter_congr
  apply hSorted.imp_of_mem
  intro a b ha hb hLe
  constructor
  · intro hParts
    exact Nat.ne_of_lt hParts.lt
  · intro hNe
    exact h a ha b hb (Nat.lt_of_le_of_ne hLe hNe)

/-- There are as many entries as distinct offsets only if no two of these share one. -/
theorem parts_of_length_eq (h : (offsets.destutter (Parts start cs)).length = offsets.dedup.length)
    {a b : Nat} (ha : a ∈ offsets) (hb : b ∈ offsets) (hLt : a < b) : Parts start cs a b := by
  have hApart := pairwise_destutter start cs offsets
  have hNodup : (offsets.destutter (Parts start cs)).Nodup := hApart.imp fun h => Nat.ne_of_lt h.lt
  have hSubset : offsets.destutter (Parts start cs) ⊆ offsets.dedup := fun x hx =>
    List.mem_dedup.mpr ((List.destutter_sublist _ _).subset hx)
  have hPerm := (List.subperm_of_subset hNodup hSubset).perm_of_length_le h.ge
  obtain ⟨before, after, hSplit⟩ := List.append_of_mem (hPerm.mem_iff.mpr (List.mem_dedup.mpr ha))
  have hMem : b ∈ before ++ a :: after := hSplit ▸ hPerm.mem_iff.mpr (List.mem_dedup.mpr hb)
  rw [hSplit, List.pairwise_append, List.pairwise_cons] at hApart
  obtain ⟨-, ⟨hAfter, -⟩, hBefore⟩ := hApart
  rcases List.mem_append.mp hMem with hMem | hMem
  · have := (hBefore b hMem a List.mem_cons_self).lt
    omega
  · rcases List.mem_cons.mp hMem with rfl | hMem
    · omega
    · exact hAfter b hMem

end Distinct

/-- **Entries of the table.** Each distinct offset of a sorted list has an entry of its own, with the
position of the first place that it reaches, exactly if a character boundary sets it apart from the
others. In general the offsets up to the next boundary share one entry, and so do the offsets behind
the end of the source. -/
theorem positionsAt_entries {source : List Char} {offsets : List Nat}
    (hSorted : offsets.Pairwise (· ≤ ·)) :
    (positionsAt source offsets = offsets.dedup.map (locate source) ↔
      ∀ a ∈ offsets, ∀ b ∈ offsets, a < b → Parts 0 source a b) ∧
    ((positionsAt source offsets).length = offsets.dedup.length ↔
      ∀ a ∈ offsets, ∀ b ∈ offsets, a < b → Parts 0 source a b) ∧
    positionsAt source offsets = (offsets.destutter (Parts 0 source)).map (locate source) ∧
    ∀ offset, ∃ k, Reaches source offset k ∧ (locate source offset).Counts source k := by
  have hEntries : positionsAt source offsets =
      (offsets.destutter (Parts 0 source)).map (locate source) := positionsAt_eq_destutter hSorted
  have hLength : (positionsAt source offsets).length = offsets.dedup.length →
      ∀ a ∈ offsets, ∀ b ∈ offsets, a < b → Parts 0 source a b := by
    intro h a ha b hb hLt
    rw [hEntries, List.length_map] at h
    exact parts_of_length_eq h ha hb hLt
  have hOwn : (∀ a ∈ offsets, ∀ b ∈ offsets, a < b → Parts 0 source a b) →
      positionsAt source offsets = offsets.dedup.map (locate source) := by
    intro h
    rw [hEntries, destutter_eq_dedup hSorted h]
  refine ⟨⟨?_, hOwn⟩, ⟨hLength, ?_⟩, hEntries, exists_counts_locate source⟩
  · intro h
    apply hLength
    rw [h, List.length_map]
  · intro h
    rw [hOwn h, List.length_map]

/-- Repeated offsets, one inside of a character, the end of the source and one offset behind it. -/
theorem positionsAt_entries_apart :
    [0, 0, 2, 4, 4, 9].Pairwise (· ≤ ·) ∧
      (∀ a ∈ [0, 0, 2, 4, 4, 9], ∀ b ∈ [0, 0, 2, 4, 4, 9], a < b → Parts 0 "aé\n".toList a b) ∧
      positionsAt "aé\n".toList [0, 0, 2, 4, 4, 9] =
        [⟨0, 0, 0, 0⟩, ⟨3, 2, 0, 2⟩, ⟨4, 3, 1, 0⟩, ⟨4, 3, 1, 0⟩] := by
  have hSorted : [0, 0, 2, 4, 4, 9].Pairwise (· ≤ ·) := by decide
  have hApart : ∀ a ∈ [0, 0, 2, 4, 4, 9], ∀ b ∈ [0, 0, 2, 4, 4, 9], a < b →
      Parts 0 "aé\n".toList a b := by
    decide +kernel
  refine ⟨hSorted, hApart, ?_⟩
  rw [(positionsAt_entries hSorted).1.mpr hApart]
  decide +kernel

/-- Two offsets in one character share an entry, and so do two offsets behind the end. -/
theorem positionsAt_sharedEntries :
    positionsAt "é".toList [1, 2] = [⟨2, 1, 0, 1⟩] ∧
      [1, 2].dedup.map (locate "é".toList) = [⟨2, 1, 0, 1⟩, ⟨2, 1, 0, 1⟩] ∧
      positionsAt "ab".toList [1, 10, 11] = [⟨1, 1, 0, 1⟩, ⟨2, 2, 0, 2⟩] ∧
      [1, 10, 11].dedup.map (locate "ab".toList) =
        [⟨1, 1, 0, 1⟩, ⟨2, 2, 0, 2⟩, ⟨2, 2, 0, 2⟩] := by
  refine ⟨?_, by decide +kernel, ?_, by decide +kernel⟩
  · rw [positionsAt_eq_destutter (by decide)]
    decide +kernel
  · rw [positionsAt_eq_destutter (by decide)]
    decide +kernel

end TagLint
