import Mathlib.Data.List.Flatten
import TagLint.Proofs.PositionalFindings

/-!
# Applying fixes

A finding that carries a fix is mended by removing its argument. Here any choice of such arguments is
removed at once. What is judged behind a removed argument is judged by fewer items and by the same
wildcards, since no fix removes a wildcard, so findings can only go.

* `findingsAbout_sublist`: with fewer items and the same wildcards before it, an argument has no
  finding that it had not.
* `positionalFindings_survivors`: the findings about what is left are among the findings about it
  before.
* `validate_survivors`: fixes bring no new finding, all of them together leave none that carries a
  fix, and they remove everything only where nothing was known.
-/

namespace TagLint

/-! ## What is left -/

/-- The position has a finding that removing its argument mends. -/
def Fixable (kind : TagKind) (arguments : List Argument) (i : Nat) : Prop :=
  ∃ d ∈ findingsAt kind arguments i, d.fix.isSome = true

instance (kind : TagKind) (arguments : List Argument) (i : Nat) :
    Decidable (Fixable kind arguments i) :=
  inferInstanceAs (Decidable (∃ d ∈ findingsAt kind arguments i, d.fix.isSome = true))

/-- The positions of a list of some length that are not removed. -/
def keptPositions (removed : List Nat) (length : Nat) : List Nat :=
  (List.range length).filter (· ∉ removed)

/-- The arguments at the positions that are not removed. -/
def survivors (removed : List Nat) (arguments : List Argument) : List Argument :=
  (keptPositions removed arguments.length).filterMap (arguments[·]?)

/-- The findings about the positions that are not removed, in the list as it was. -/
def survivingFindings (kind : TagKind) (removed : List Nat) (arguments : List Argument) :
    List Diagnostic :=
  (keptPositions removed arguments.length).flatMap (findingsAt kind arguments)

section Survivors

variable (removed : List Nat) (arguments : List Argument) (a : Argument)

theorem keptPositions_succ (n : Nat) :
    keptPositions removed (n + 1) =
      keptPositions removed n ++ if n ∈ removed then [] else [n] := by
  rw [keptPositions, keptPositions, List.range_succ, List.filter_append]
  by_cases h : n ∈ removed <;> simp [h]

theorem mem_keptPositions {i n : Nat} : i ∈ keptPositions removed n ↔ i < n ∧ i ∉ removed := by
  simp [keptPositions]

theorem survivors_concat :
    survivors removed (arguments ++ [a]) =
      survivors removed arguments ++ if arguments.length ∈ removed then [] else [a] := by
  unfold survivors
  rw [List.length_append, List.length_singleton, keptPositions_succ, List.filterMap_append]
  congr 1
  · apply List.filterMap_congr
    intro i hi
    exact List.getElem?_append_left ((mem_keptPositions removed).mp hi).1
  · split <;> simp

theorem survivingFindings_concat (kind : TagKind) :
    survivingFindings kind removed (arguments ++ [a]) =
      survivingFindings kind removed arguments ++
        if arguments.length ∈ removed then [] else findingsAbout kind arguments a := by
  unfold survivingFindings
  rw [List.length_append, List.length_singleton, keptPositions_succ, List.flatMap_append]
  congr 1
  · apply List.flatMap_congr
    intro i hi
    exact findingsAt_append ((mem_keptPositions removed).mp hi).1 [a]
  · split
    · rfl
    · rw [List.flatMap_singleton, findingsAt_length]

theorem mem_survivors {a : Argument} :
    a ∈ survivors removed arguments ↔ ∃ i, i ∉ removed ∧ arguments[i]? = some a := by
  simp only [survivors, List.mem_filterMap, mem_keptPositions]
  constructor
  · rintro ⟨i, ⟨-, hKept⟩, ha⟩
    exact ⟨i, hKept, ha⟩
  · rintro ⟨i, hKept, ha⟩
    exact ⟨i, ⟨(List.getElem?_eq_some_iff.mp ha).1, hKept⟩, ha⟩

/-- What was found about the positions that are left is part of what was found. -/
theorem survivingFindings_sublist (kind : TagKind) :
    (survivingFindings kind removed arguments).Sublist (positionalFindings kind arguments) :=
  List.filter_sublist.flatMap (findingsAt kind arguments)

end Survivors

/-! ## Fewer arguments before an argument -/

/-- An argument has a finding with a fix if it is unknown, redundant or a repetition. The wildcard
never has one. -/
theorem exists_fix_iff {kind : TagKind} {earlier : List Argument} {a : Argument} :
    (∃ d ∈ findingsAbout kind earlier a, d.fix.isSome = true) ↔
      (a.name ≠ TagKind.wildcard ∧ a.name ∉ kind.items) ∨
        (a.name ∈ kind.items ∧ HasWildcard earlier ∧ a.negated = false) ∨
        a.name ∈ itemNames kind earlier := by
  constructor
  · rintro ⟨d, hd, hFix⟩
    rcases mem_findingsAbout.mp hd with ⟨-, -, rfl⟩ | ⟨-, -, rfl⟩ | ⟨hOther, hUnknown, -⟩ |
      ⟨hKnown, hWildcard, hPlain, -⟩ | ⟨-, -, -, rfl⟩ | ⟨hRepeated, -⟩
    · cases hFix
    · cases hFix
    · exact .inl ⟨hOther, hUnknown⟩
    · exact .inr (.inl ⟨hKnown, hWildcard, hPlain⟩)
    · cases hFix
    · exact .inr (.inr hRepeated)
  · rintro (⟨hOther, hUnknown⟩ | ⟨hKnown, hWildcard, hPlain⟩ | hRepeated)
    · exact ⟨unknownItemAt a.name a.span, mem_findingsAbout.mpr (by simp [*]), rfl⟩
    · exact ⟨redundantItemAt a.name a.span, mem_findingsAbout.mpr (by simp [*]), rfl⟩
    · exact ⟨duplicateItemAt a.name a.span, mem_findingsAbout.mpr (by simp [*]), rfl⟩

theorem findingIf_sublist {fewer more : Bool} (h : fewer = true → more = true) (d : Diagnostic) :
    (findingIf fewer d).Sublist (findingIf more d) := by
  cases fewer with
  | false => exact List.nil_sublist _
  | true => rw [h rfl]

theorem findingsAbout_sublist {kind : TagKind} {fewer more : List Argument}
    (hWildcard : HasWildcard fewer ↔ HasWildcard more) (hSubset : fewer ⊆ more) (a : Argument) :
    (findingsAbout kind fewer a).Sublist (findingsAbout kind more a) := by
  have hNames : itemNames kind fewer ⊆ itemNames kind more :=
    List.filter_subset _ (List.map_subset _ hSubset)
  simp only [findingsAbout, hWildcard]
  split
  · -- the wildcard is judged by whether there are items before it
    refine (List.Sublist.refl _).append (findingIf_sublist ?_ _)
    simp only [decide_eq_true_eq]
    intro hSome hNone
    exact hSome (List.subset_nil.mp (hNone ▸ hNames))
  · split
    · exact .refl _
    · refine (List.Sublist.refl _).append (findingIf_sublist ?_ _)
      simp only [decide_eq_true_eq]
      exact fun hRepeated => hNames hRepeated

/-! ## Removing arguments that have a fix -/

section Removal

variable {kind : TagKind} {removed : List Nat} {arguments : List Argument}

theorem fixable_iff {i : Nat} {a : Argument} (ha : arguments[i]? = some a) :
    Fixable kind arguments i ↔
      ∃ d ∈ findingsAbout kind (arguments.take i) a, d.fix.isSome = true := by
  simp only [Fixable, findingsAt, ha]

theorem fixable_append {i : Nat} (h : i < arguments.length) (more : List Argument) :
    Fixable kind (arguments ++ more) i ↔ Fixable kind arguments i := by
  rw [Fixable, findingsAt_append h, Fixable]

/-- The removed positions of a list all have a fix. -/
def OnlyFixable (kind : TagKind) (removed : List Nat) (arguments : List Argument) : Prop :=
  ∀ i ∈ removed, i < arguments.length → Fixable kind arguments i

theorem OnlyFixable.of_append {more : List Argument}
    (h : OnlyFixable kind removed (arguments ++ more)) : OnlyFixable kind removed arguments := by
  intro i hi hLt
  rw [← fixable_append hLt more]
  exact h i hi (by simp; omega)

theorem survivors_subset (removed : List Nat) (arguments : List Argument) :
    survivors removed arguments ⊆ arguments := by
  intro a ha
  obtain ⟨i, -, ha⟩ := (mem_survivors removed arguments).mp ha
  exact List.mem_of_getElem? ha

/-- No fix removes a wildcard. -/
theorem hasWildcard_survivors (h : OnlyFixable kind removed arguments) :
    HasWildcard (survivors removed arguments) ↔ HasWildcard arguments := by
  constructor
  · rintro ⟨w, hw, hName⟩
    exact ⟨w, survivors_subset removed arguments hw, hName⟩
  · rintro ⟨w, hw, hName⟩
    obtain ⟨i, hi⟩ := List.getElem?_of_mem hw
    refine ⟨w, (mem_survivors removed arguments).mpr ⟨i, ?_, hi⟩, hName⟩
    intro hRemoved
    have hFixable := h i hRemoved (List.getElem?_eq_some_iff.mp hi).1
    have hNoItem : w.name ∉ kind.items := hName ▸ kind.wildcard_not_mem_items
    rw [fixable_iff hi, exists_fix_iff] at hFixable
    rcases hFixable with ⟨hOther, -⟩ | ⟨hItem, -⟩ | hRepeated
    · exact hOther hName
    · exact hNoItem hItem
    · exact hNoItem (mem_itemNames.mp hRepeated).2

/-- The two walks side by side: at each argument that is left, the walk over what is left has seen
fewer items and the same wildcards. -/
theorem positionalFindings_survivors (h : OnlyFixable kind removed arguments) :
    (positionalFindings kind (survivors removed arguments)).Sublist
      (survivingFindings kind removed arguments) := by
  induction arguments using List.reverseRecOn with
  | nil => exact .slnil
  | append_singleton arguments a ih =>
    rw [survivors_concat, survivingFindings_concat]
    split
    · rw [List.append_nil, List.append_nil]
      exact ih h.of_append
    · rw [positionalFindings_concat]
      exact (ih h.of_append).append (findingsAbout_sublist (hasWildcard_survivors h.of_append)
        (survivors_subset removed arguments) a)

/-- Fixes remove everything only if all the arguments are unknown: a known one is neither redundant
nor a repetition behind unknown ones. -/
theorem unknown_of_survivors_eq_nil (h : OnlyFixable kind removed arguments)
    (hNone : survivors removed arguments = []) :
    ∀ a ∈ arguments, a.name ≠ TagKind.wildcard ∧ a.name ∉ kind.items := by
  induction arguments using List.reverseRecOn with
  | nil => simp
  | append_singleton arguments a ih =>
    rw [survivors_concat, List.append_eq_nil_iff] at hNone
    obtain ⟨hNone, hLast⟩ := hNone
    have hBefore := ih h.of_append hNone
    have hRemoved : arguments.length ∈ removed := by
      by_contra hKept
      simp [hKept] at hLast
    have hFixable := h arguments.length hRemoved (by simp)
    rw [fixable_iff List.getElem?_concat_length, List.take_left, exists_fix_iff] at hFixable
    refine List.forall_mem_append.mpr ⟨hBefore, List.forall_mem_singleton.mpr ?_⟩
    rcases hFixable with hUnknown | ⟨-, ⟨w, hw, hName⟩, -⟩ | hRepeated
    · exact hUnknown
    · exact absurd hName (hBefore w hw).1
    · obtain ⟨⟨b, hb, hName⟩, hItem⟩ := mem_itemNames.mp hRepeated
      exact absurd (hName ▸ hItem) (hBefore b hb).2

end Removal

/-- **Fixes only take findings away.** Remove any choice of arguments that have a finding with a fix.
If something is left, the findings about it are among those that were found about it before, in the
same order. If all arguments with a fix are removed, no finding with a fix is left. Everything is
removed only if none of the arguments was known. -/
theorem validate_survivors (kind : TagKind) (arguments : List Argument) (tagSpan : Span)
    (removed : List Nat) (hFixable : ∀ i ∈ removed, Fixable kind arguments i) :
    (survivors removed arguments ≠ [] →
        (validate kind (survivors removed arguments) tagSpan).Sublist
            (survivingFindings kind removed arguments) ∧
          (survivingFindings kind removed arguments).Sublist (validate kind arguments tagSpan) ∧
          validate kind arguments tagSpan =
            (List.range arguments.length).flatMap (findingsAt kind arguments)) ∧
      ((∀ i, Fixable kind arguments i → i ∈ removed) →
        ∀ d ∈ validate kind (survivors removed arguments) tagSpan, d.fix = none) ∧
      (survivors removed arguments = [] →
        ∀ a ∈ arguments, a.name ≠ TagKind.wildcard ∧ a.name ∉ kind.items) := by
  have hOnly : OnlyFixable kind removed arguments := fun i hi _ => hFixable i hi
  have hSublist := positionalFindings_survivors hOnly
  refine ⟨?_, ?_, unknown_of_survivors_eq_nil hOnly⟩
  · intro hLeft
    have hSome : arguments ≠ [] := by
      rintro rfl
      exact hLeft rfl
    rw [validate_of_ne_nil kind hLeft, validate_of_ne_nil kind hSome]
    exact ⟨hSublist, survivingFindings_sublist removed arguments kind, rfl⟩
  · intro hAll d hd
    by_cases hLeft : survivors removed arguments = []
    · rw [hLeft] at hd
      obtain rfl := List.mem_singleton.mp hd
      rfl
    · rw [validate_of_ne_nil kind hLeft] at hd
      obtain ⟨i, hi, hd⟩ := List.mem_flatMap.mp (hSublist.subset hd)
      by_contra hFix
      exact ((mem_keptPositions removed).mp hi).2
        (hAll i ⟨d, hd, Option.isSome_iff_ne_none.mpr hFix⟩)

/-- The first of two redundant items is removed. The wildcard between them is no longer misplaced and
the second item no repetition, but it stays redundant. -/
theorem validate_survivors_firstItem :
    let arguments := Argument.ofText "all array-reserve all array-reserve".toList
    (∀ i ∈ [1], Fixable .warnPerformance arguments i) ∧
      (validate .warnPerformance (survivors [1] arguments) {}).map (·.kind) = [.redundantItem] ∧
      (survivingFindings .warnPerformance [1] arguments).map (·.kind) =
        [.misplacedWildcard, .redundantItem, .duplicateItem] ∧
      (validate .warnPerformance (survivors [1] arguments) {}).Sublist
        (survivingFindings .warnPerformance [1] arguments) := by
  intro arguments
  have hFixable : ∀ i ∈ [1], Fixable .warnPerformance arguments i := by decide +kernel
  have hLeft : survivors [1] arguments ≠ [] := by decide +kernel
  refine ⟨hFixable, by decide +kernel, by decide +kernel, ?_⟩
  exact ((validate_survivors .warnPerformance arguments {} [1] hFixable).1 hLeft).1

end TagLint
