import Mathlib.Data.List.Nodup
import TagLint.Proofs.PositionalFindings

/-!
# Arguments without findings

The arguments of a tag are meant to be admissible: at most one wildcard, which comes first and is not
negated, besides it only items of the tag, each once, and negated exactly behind the wildcard. The
check judges one argument at a time and does not count the wildcards, so what it lets pass is a
little more: admissible arguments whose wildcard may be repeated.

* `Admissible`: the rule.
* `positionalFindings_eq_nil_iff`: what the check of each argument amounts to for the whole list.
* `validate_eq_nil_iff`: the arguments without findings are the admissible ones, with their wildcard
  written once or several times.
* `validate_wildcardTwice`: a repeated wildcard is not found.
-/

namespace TagLint

/-- The rule for the arguments of a tag. -/
structure Admissible (kind : TagKind) (arguments : List Argument) : Prop where
  nonempty : arguments ≠ []
  wildcard_once : arguments.countP (·.name = TagKind.wildcard) ≤ 1
  wildcard_first : ∀ i a, arguments[i]? = some a → a.name = TagKind.wildcard → i = 0
  wildcard_plain : ∀ a ∈ arguments, a.name = TagKind.wildcard → a.negated = false
  known : ∀ a ∈ arguments, a.name ≠ TagKind.wildcard → a.name ∈ kind.items
  distinct : (arguments.map (·.name)).Nodup
  negated_iff : ∀ a ∈ arguments, a.name ∈ kind.items → (a.negated = true ↔ HasWildcard arguments)

/-! ## One argument at a time -/

/-- An argument that may follow the given ones: the wildcard before any item, or an item that did not
occur, negated exactly behind a wildcard. -/
def MayFollow (kind : TagKind) (earlier : List Argument) (a : Argument) : Prop :=
  (a.name = TagKind.wildcard ∧ a.negated = false ∧ itemNames kind earlier = []) ∨
    (a.name ∈ kind.items ∧ (a.negated = true ↔ HasWildcard earlier) ∧
      a.name ∉ itemNames kind earlier)

theorem findingIf_eq_nil {condition : Bool} {d : Diagnostic} :
    findingIf condition d = [] ↔ condition = false := by
  cases condition <;> simp [findingIf]

theorem findingsAbout_eq_nil_iff {kind : TagKind} {earlier : List Argument} {a : Argument} :
    findingsAbout kind earlier a = [] ↔ MayFollow kind earlier a := by
  unfold findingsAbout MayFollow
  by_cases hWildcard : a.name = TagKind.wildcard
  · simp [findingIf_eq_nil, hWildcard, kind.wildcard_not_mem_items]
  · by_cases hItem : a.name ∈ kind.items
    · cases a.negated <;> by_cases hEarlier : HasWildcard earlier <;>
        simp [findingIf_eq_nil, hWildcard, hItem, hEarlier]
    · simp [hWildcard, hItem]

/-! ## The list as a whole -/

/-- Wildcards, none of them negated, and distinct items, which are negated exactly if there are
wildcards before them. -/
structure Arranged (kind : TagKind) (wildcards items : List Argument) : Prop where
  plain : ∀ w ∈ wildcards, w.name = TagKind.wildcard ∧ w.negated = false
  known : ∀ a ∈ items, a.name ∈ kind.items
  negated_iff : ∀ a ∈ items, (a.negated = true ↔ wildcards ≠ [])
  distinct : (items.map (·.name)).Nodup

namespace Arranged

variable {kind : TagKind} {wildcards items : List Argument} {a : Argument}

theorem nil (kind : TagKind) : Arranged kind [] [] :=
  ⟨by simp, by simp, by simp, by simp⟩

theorem ne_wildcard (h : Arranged kind wildcards items) (ha : a ∈ items) :
    a.name ≠ TagKind.wildcard :=
  fun hName => kind.wildcard_not_mem_items (hName ▸ h.known a ha)

theorem hasWildcard_iff (h : Arranged kind wildcards items) :
    HasWildcard (wildcards ++ items) ↔ wildcards ≠ [] := by
  constructor
  · rintro ⟨w, hw, hName⟩ rfl
    exact h.ne_wildcard hw hName
  · intro hSome
    obtain ⟨w, hw⟩ := List.exists_mem_of_ne_nil wildcards hSome
    exact ⟨w, List.mem_append_left items hw, (h.plain w hw).1⟩

theorem mem_itemNames_iff (h : Arranged kind wildcards items) {name : String} :
    name ∈ itemNames kind (wildcards ++ items) ↔ name ∈ items.map (·.name) := by
  rw [mem_itemNames, List.mem_map]
  constructor
  · rintro ⟨⟨b, hb, rfl⟩, hKnown⟩
    rcases List.mem_append.mp hb with hb | hb
    · rw [(h.plain b hb).1] at hKnown
      exact absurd hKnown kind.wildcard_not_mem_items
    · exact ⟨b, hb, rfl⟩
  · rintro ⟨b, hb, rfl⟩
    exact ⟨⟨b, List.mem_append_right wildcards hb, rfl⟩, h.known b hb⟩

theorem concat_wildcard_iff :
    Arranged kind (wildcards ++ [a]) [] ↔
      Arranged kind wildcards [] ∧ a.name = TagKind.wildcard ∧ a.negated = false := by
  constructor
  · intro h
    refine ⟨⟨?_, by simp, by simp, by simp⟩, h.plain a List.mem_concat_self⟩
    exact fun w hw => h.plain w (List.mem_append_left [a] hw)
  · rintro ⟨h, hLast⟩
    refine ⟨?_, by simp, by simp, by simp⟩
    exact List.forall_mem_append.mpr ⟨h.plain, List.forall_mem_singleton.mpr hLast⟩

theorem concat_item_iff :
    Arranged kind wildcards (items ++ [a]) ↔
      Arranged kind wildcards items ∧ a.name ∈ kind.items ∧
        (a.negated = true ↔ wildcards ≠ []) ∧ a.name ∉ items.map (·.name) := by
  have hNodup : ((items ++ [a]).map (·.name)).Nodup ↔
      (items.map (·.name)).Nodup ∧ a.name ∉ items.map (·.name) := by
    rw [List.map_append, List.map_singleton, ← List.concat_eq_append, List.nodup_concat, and_comm]
  constructor
  · rintro ⟨hPlain, hKnown, hNegated, hDistinct⟩
    obtain ⟨hKnown, hKnownLast⟩ := List.forall_mem_append.mp hKnown
    obtain ⟨hNegated, hNegatedLast⟩ := List.forall_mem_append.mp hNegated
    obtain ⟨hDistinct, hNew⟩ := hNodup.mp hDistinct
    exact ⟨⟨hPlain, hKnown, hNegated, hDistinct⟩, hKnownLast a (List.mem_singleton_self a),
      hNegatedLast a (List.mem_singleton_self a), hNew⟩
  · rintro ⟨⟨hPlain, hKnown, hNegated, hDistinct⟩, hKnownLast, hNegatedLast, hNew⟩
    exact ⟨hPlain, List.forall_mem_append.mpr ⟨hKnown, List.forall_mem_singleton.mpr hKnownLast⟩,
      List.forall_mem_append.mpr ⟨hNegated, List.forall_mem_singleton.mpr hNegatedLast⟩,
      hNodup.mpr ⟨hDistinct, hNew⟩⟩

/-- Only a list without items takes another wildcard. -/
theorem mayFollow_iff (h : Arranged kind wildcards items) :
    MayFollow kind (wildcards ++ items) a ↔
      (items = [] ∧ a.name = TagKind.wildcard ∧ a.negated = false) ∨
        (a.name ∈ kind.items ∧ (a.negated = true ↔ wildcards ≠ []) ∧
          a.name ∉ items.map (·.name)) := by
  have hNone : itemNames kind (wildcards ++ items) = [] ↔ items = [] := by
    rw [List.eq_nil_iff_forall_not_mem, ← List.map_eq_nil_iff (f := (·.name)),
      List.eq_nil_iff_forall_not_mem]
    exact forall_congr' fun name => not_congr h.mem_itemNames_iff
  rw [MayFollow, hNone, h.hasWildcard_iff, h.mem_itemNames_iff]
  tauto

end Arranged

/-- The arguments without findings, whatever the tag: wildcards, and items behind them. -/
theorem positionalFindings_eq_nil_iff (kind : TagKind) (arguments : List Argument) :
    positionalFindings kind arguments = [] ↔
      ∃ wildcards items, arguments = wildcards ++ items ∧ Arranged kind wildcards items := by
  induction arguments using List.reverseRecOn with
  | nil => exact ⟨fun _ => ⟨[], [], rfl, .nil kind⟩, fun _ => rfl⟩
  | append_singleton arguments a ih =>
    rw [positionalFindings_concat, List.append_eq_nil_iff, ih, findingsAbout_eq_nil_iff]
    constructor
    · rintro ⟨⟨wildcards, items, rfl, h⟩, hFollows⟩
      rcases h.mayFollow_iff.mp hFollows with ⟨rfl, hLast⟩ | hLast
      · exact ⟨wildcards ++ [a], [], by simp, Arranged.concat_wildcard_iff.mpr ⟨h, hLast⟩⟩
      · exact ⟨wildcards, items ++ [a], by simp, Arranged.concat_item_iff.mpr ⟨h, hLast⟩⟩
    · rintro ⟨wildcards, items, hSplit, h⟩
      rcases List.eq_nil_or_concat' items with rfl | ⟨items, b, rfl⟩
      · obtain rfl : arguments ++ [a] = wildcards := by simpa using hSplit
        obtain ⟨h, hLast⟩ := Arranged.concat_wildcard_iff.mp h
        have hFollows := h.mayFollow_iff.mpr (.inl ⟨rfl, hLast⟩)
        rw [List.append_nil] at hFollows
        exact ⟨⟨arguments, [], by simp, h⟩, hFollows⟩
      · rw [← List.append_assoc] at hSplit
        obtain ⟨rfl, hLast⟩ := List.append_inj' hSplit rfl
        obtain rfl := List.singleton_inj.mp hLast
        obtain ⟨h, hLast⟩ := Arranged.concat_item_iff.mp h
        exact ⟨⟨wildcards, items, rfl, h⟩, h.mayFollow_iff.mpr (.inr hLast)⟩

/-! ## Admissible lists -/

namespace Arranged

variable {kind : TagKind} {wildcards items : List Argument}

theorem countP_wildcard (h : Arranged kind wildcards items) :
    (wildcards ++ items).countP (·.name = TagKind.wildcard) = wildcards.length := by
  have hWildcards : wildcards.countP (·.name = TagKind.wildcard) = wildcards.length :=
    List.countP_eq_length.mpr fun w hw => decide_eq_true (h.plain w hw).1
  have hItems : items.countP (·.name = TagKind.wildcard) = 0 :=
    List.countP_eq_zero.mpr fun a ha => by simpa using h.ne_wildcard ha
  rw [List.countP_append, hWildcards, hItems, Nat.add_zero]

/-- With at most one wildcard, the list is admissible. -/
theorem admissible (h : Arranged kind wildcards items) (hOnce : wildcards.length ≤ 1)
    (hSome : wildcards ++ items ≠ []) : Admissible kind (wildcards ++ items) where
  nonempty := hSome
  wildcard_once := by
    rw [h.countP_wildcard]
    exact hOnce
  wildcard_first := by
    intro i a ha hName
    by_contra hi
    rw [List.getElem?_append_right (by omega)] at ha
    exact h.ne_wildcard (List.mem_of_getElem? ha) hName
  wildcard_plain := List.forall_mem_append.mpr
    ⟨fun w hw _ => (h.plain w hw).2, fun a ha hName => absurd hName (h.ne_wildcard ha)⟩
  known := List.forall_mem_append.mpr
    ⟨fun w hw hOther => absurd (h.plain w hw).1 hOther, fun a ha _ => h.known a ha⟩
  distinct := by
    rw [List.map_append, List.nodup_append']
    refine ⟨?_, h.distinct, ?_⟩
    · rcases wildcards with _ | ⟨w, _ | ⟨w', more⟩⟩
      · exact List.nodup_nil
      · exact List.nodup_singleton w.name
      · simp at hOnce
    · intro name hWildcard hItem
      obtain ⟨w, hw, rfl⟩ := List.mem_map.mp hWildcard
      obtain ⟨a, ha, hName⟩ := List.mem_map.mp hItem
      exact h.ne_wildcard ha (hName.trans (h.plain w hw).1)
  negated_iff := by
    rw [h.hasWildcard_iff]
    refine List.forall_mem_append.mpr ⟨?_, fun a ha _ => h.negated_iff a ha⟩
    intro w hw hItem
    rw [(h.plain w hw).1] at hItem
    exact absurd hItem kind.wildcard_not_mem_items

/-- Repeating the wildcard changes nothing for the items. -/
theorem append_left (h : Arranged kind wildcards items) {repeated : List Argument}
    (hPlain : ∀ w ∈ repeated, w.name = TagKind.wildcard ∧ w.negated = false)
    (hRepeated : repeated = [] ∨ wildcards ≠ []) : Arranged kind (repeated ++ wildcards) items where
  plain := List.forall_mem_append.mpr ⟨hPlain, h.plain⟩
  known := h.known
  negated_iff := by
    intro a ha
    rw [h.negated_iff a ha, ne_eq, ne_eq, List.append_eq_nil_iff]
    tauto
  distinct := h.distinct

theorem of_append_left {repeated : List Argument} {w : Argument}
    (h : Arranged kind (repeated ++ [w]) items) : Arranged kind [w] items where
  plain := (List.forall_mem_append.mp h.plain).2
  known := h.known
  negated_iff := by
    intro a ha
    rw [h.negated_iff a ha]
    simp
  distinct := h.distinct

end Arranged

theorem Admissible.exists_arranged {kind : TagKind} {arguments : List Argument}
    (h : Admissible kind arguments) :
    ∃ wildcards items, arguments = wildcards ++ items ∧ Arranged kind wildcards items := by
  obtain ⟨a, rest, rfl⟩ := List.exists_cons_of_ne_nil h.nonempty
  have hRest : ∀ b ∈ rest, b.name ≠ TagKind.wildcard := by
    intro b hb hName
    obtain ⟨j, hj⟩ := List.getElem?_of_mem hb
    exact absurd (h.wildcard_first (j + 1) b hj hName) (Nat.succ_ne_zero j)
  have hKnown : ∀ b ∈ rest, b.name ∈ kind.items :=
    fun b hb => h.known b (List.mem_cons_of_mem a hb) (hRest b hb)
  have hFirst : a ∈ a :: rest := List.mem_cons_self
  have hDistinct := h.distinct
  by_cases hWildcard : a.name = TagKind.wildcard
  · refine ⟨[a], rest, rfl, ?_, hKnown, ?_, (List.nodup_cons.mp hDistinct).2⟩
    · exact List.forall_mem_singleton.mpr ⟨hWildcard, h.wildcard_plain a hFirst hWildcard⟩
    · intro b hb
      rw [h.negated_iff b (List.mem_cons_of_mem a hb) (hKnown b hb)]
      exact iff_of_true ⟨a, hFirst, hWildcard⟩ (List.cons_ne_nil a [])
  · have hNone : ∀ b ∈ a :: rest, b.name ≠ TagKind.wildcard :=
      List.forall_mem_cons.mpr ⟨hWildcard, hRest⟩
    have hAll : ∀ b ∈ a :: rest, b.name ∈ kind.items := fun b hb => h.known b hb (hNone b hb)
    refine ⟨[], a :: rest, rfl, by simp, hAll, ?_, hDistinct⟩
    intro b hb
    rw [h.negated_iff b hb (hAll b hb)]
    exact iff_of_false (fun ⟨w, hw, hName⟩ => hNone w hw hName) (by simp)

theorem validate_eq_nil_iff_arranged (kind : TagKind) (arguments : List Argument)
    (tagSpan : Span) :
    validate kind arguments tagSpan = [] ↔ arguments ≠ [] ∧
      ∃ wildcards items, arguments = wildcards ++ items ∧ Arranged kind wildcards items := by
  by_cases hNone : arguments = []
  · subst hNone
    simp [validate]
  · rw [validate_of_ne_nil kind hNone, positionalFindings_eq_nil_iff]
    exact (and_iff_right hNone).symm

/-- **Arguments without findings.** They are the admissible ones, in which the wildcard, if there is
one, may be written several times; so they are admissible exactly if it is not. -/
theorem validate_eq_nil_iff (kind : TagKind) (arguments : List Argument) (tagSpan : Span) :
    (validate kind arguments tagSpan = [] ↔
        ∃ repeated core, arguments = repeated ++ core ∧ Admissible kind core ∧
          (∀ w ∈ repeated, w.name = TagKind.wildcard ∧ w.negated = false) ∧
          (repeated = [] ∨ HasWildcard core)) ∧
      (validate kind arguments tagSpan = [] →
        (Admissible kind arguments ↔ arguments.countP (·.name = TagKind.wildcard) ≤ 1)) := by
  rw [validate_eq_nil_iff_arranged]
  refine ⟨⟨?_, ?_⟩, ?_⟩
  · rintro ⟨hSome, wildcards, items, rfl, h⟩
    rcases List.eq_nil_or_concat' wildcards with rfl | ⟨repeated, w, rfl⟩
    · exact ⟨[], items, rfl, h.admissible (Nat.zero_le 1) hSome, by simp, .inl rfl⟩
    · refine ⟨repeated, [w] ++ items, by simp,
        h.of_append_left.admissible (Nat.le_refl 1) (by simp), ?_, ?_⟩
      · exact (List.forall_mem_append.mp h.plain).1
      · exact .inr (h.of_append_left.hasWildcard_iff.mpr (by simp))
  · rintro ⟨repeated, core, rfl, hCore, hPlain, hRepeated⟩
    obtain ⟨wildcards, items, rfl, h⟩ := hCore.exists_arranged
    rw [h.hasWildcard_iff] at hRepeated
    refine ⟨List.append_ne_nil_of_right_ne_nil repeated hCore.nonempty, repeated ++ wildcards, items,
      by simp, h.append_left hPlain hRepeated⟩
  · rintro ⟨hSome, wildcards, items, rfl, h⟩
    refine ⟨fun hAdmissible => hAdmissible.wildcard_once, fun hOnce => ?_⟩
    rw [h.countP_wildcard] at hOnce
    exact h.admissible hOnce hSome

/-- The wildcard written twice: nothing is found, and the arguments are not admissible. -/
theorem validate_wildcardTwice :
    let arguments := Argument.ofText "all all".toList
    validate .warnPerformance arguments {} = [] ∧ ¬Admissible .warnPerformance arguments := by
  refine ⟨by decide +kernel, fun h => ?_⟩
  have hOnce := h.wildcard_once
  revert hOnce
  decide +kernel

end TagLint
