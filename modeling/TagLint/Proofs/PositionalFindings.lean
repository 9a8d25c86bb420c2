import Mathlib.Data.List.Basic
import Mathlib.Data.List.Induction
import TagLint.Proofs.SpanFidelity

/-!
# Findings by position

The check of the arguments walks over them once and carries along what it has seen. Here each
argument is judged on its own, from the list of the arguments before it, without any state; the walk
gives exactly these judgements, one position after the other.

* `findingsAbout`: the judgement on one argument, told from the arguments before it.
* `DiagnosticKind.Applies`, `kinds_findingsAbout`: when there is a finding of a kind, with no regard to
  how the finding is made.
* `Seen.after_wildcard`, `Seen.after_items`: what the walk remembers.
* `checkArguments_eq_positional`: the walk gives the findings of all positions, in order.
* `validate_eq_positional`: the same for the arguments of a tag, whatever its kind.
-/

namespace TagLint

open DiagnosticKind

/-! ## Judging an argument by those before it -/

/-- Some of the arguments are the wildcard. -/
def HasWildcard (arguments : List Argument) : Prop :=
  ∃ w ∈ arguments, w.name = TagKind.wildcard

instance (arguments : List Argument) : Decidable (HasWildcard arguments) :=
  inferInstanceAs (Decidable (∃ w ∈ arguments, w.name = TagKind.wildcard))

/-- The names of the arguments that are items of the tag, in order. -/
def itemNames (kind : TagKind) (arguments : List Argument) : List String :=
  (arguments.map (·.name)).filter (· ∈ kind.items)

/-- The findings about an argument, told from the arguments before it. -/
def findingsAbout (kind : TagKind) (earlier : List Argument) (a : Argument) : List Diagnostic :=
  if a.name = TagKind.wildcard then
    findingIf a.negated (negatedWildcardAt a.span)
      ++ findingIf (itemNames kind earlier ≠ []) (misplacedWildcardAt a.span)
  else if a.name ∉ kind.items then
    [unknownItemAt a.name a.span]
  else
    findingIf (HasWildcard earlier ∧ a.negated = false) (redundantItemAt a.name a.span)
      ++ findingIf (¬HasWildcard earlier ∧ a.negated) (negationWithoutWildcardAt a.span)
      ++ findingIf (a.name ∈ itemNames kind earlier) (duplicateItemAt a.name a.span)

/-- Whether there is a finding of a kind about an argument, told from the arguments before it. -/
def DiagnosticKind.Applies (tag : TagKind) (earlier : List Argument) (a : Argument) :
    DiagnosticKind → Prop
  | negatedWildcard => a.name = TagKind.wildcard ∧ a.negated = true
  | misplacedWildcard => a.name = TagKind.wildcard ∧ ∃ b ∈ earlier, b.name ∈ tag.items
  | unknownItem => a.name ≠ TagKind.wildcard ∧ a.name ∉ tag.items
  | redundantItem => a.name ∈ tag.items ∧ HasWildcard earlier ∧ a.negated = false
  | negationWithoutWildcard => a.name ∈ tag.items ∧ ¬HasWildcard earlier ∧ a.negated = true
  | duplicateItem => a.name ∈ tag.items ∧ ∃ b ∈ earlier, b.name = a.name
  | missingArguments | inapplicableTag | parsingError => False

instance (tag : TagKind) (earlier : List Argument) (a : Argument) :
    DecidablePred (DiagnosticKind.Applies tag earlier a)
  | negatedWildcard => inferInstanceAs (Decidable (_ ∧ _))
  | misplacedWildcard => inferInstanceAs (Decidable (_ ∧ ∃ b ∈ earlier, _))
  | unknownItem => inferInstanceAs (Decidable (_ ∧ _))
  | redundantItem => inferInstanceAs (Decidable (_ ∧ _ ∧ _))
  | negationWithoutWildcard => inferInstanceAs (Decidable (_ ∧ _ ∧ _))
  | duplicateItem => inferInstanceAs (Decidable (_ ∧ ∃ b ∈ earlier, _))
  | missingArguments | inapplicableTag | parsingError => inferInstanceAs (Decidable False)

/-- The findings about the argument at a position, if there is one. -/
def findingsAt (kind : TagKind) (arguments : List Argument) (i : Nat) : List Diagnostic :=
  match arguments[i]? with
  | some a => findingsAbout kind (arguments.take i) a
  | none => []

/-- The findings about the arguments at all positions, in order. -/
def positionalFindings (kind : TagKind) (arguments : List Argument) : List Diagnostic :=
  (List.range arguments.length).flatMap (findingsAt kind arguments)

/-! ## What the walk remembers -/

theorem TagKind.isWildcard_iff (kind : TagKind) (name : String) :
    kind.isWildcard name = true ↔ name = TagKind.wildcard := by
  cases kind <;> exact beq_iff_eq

theorem hasWildcard_concat (arguments : List Argument) (a : Argument) :
    HasWildcard (arguments ++ [a]) ↔ HasWildcard arguments ∨ a.name = TagKind.wildcard := by
  simp [HasWildcard, or_and_right, exists_or]

theorem itemNames_concat (kind : TagKind) (arguments : List Argument) (a : Argument) :
    itemNames kind (arguments ++ [a]) =
      itemNames kind arguments ++ if a.name ∈ kind.items then [a.name] else [] := by
  simp only [itemNames, List.map_append, List.filter_append]
  by_cases h : a.name ∈ kind.items
  · simp [h]
  · simp [h]

theorem itemNames_ne_nil_iff {kind : TagKind} {arguments : List Argument} :
    itemNames kind arguments ≠ [] ↔ ∃ b ∈ arguments, b.name ∈ kind.items := by
  simp [itemNames]

theorem mem_itemNames {kind : TagKind} {arguments : List Argument} {name : String} :
    name ∈ itemNames kind arguments ↔ (∃ b ∈ arguments, b.name = name) ∧ name ∈ kind.items := by
  simp [itemNames]

namespace Seen

theorem after_concat (kind : TagKind) (arguments : List Argument) (a : Argument) :
    after kind (arguments ++ [a]) = (after kind arguments).add kind a := by
  simp [after]

/-- The walk remembers whether one of the arguments is the wildcard, negated or not. -/
theorem after_wildcard (kind : TagKind) (arguments : List Argument) :
    (after kind arguments).wildcard = true ↔ HasWildcard arguments := by
  induction arguments using List.reverseRecOn with
  | nil => simp [after, HasWildcard]
  | append_singleton arguments a ih =>
    rw [after_concat, hasWildcard_concat, ← ih, ← kind.isWildcard_iff]
    unfold add
    split
    · simp_all
    · split <;> simp_all

/-- The walk remembers the names of the known items, the last one first. Neither the wildcard nor an
unknown item is among them. -/
theorem after_items (kind : TagKind) (arguments : List Argument) :
    (after kind arguments).items = (itemNames kind arguments).reverse := by
  induction arguments using List.reverseRecOn with
  | nil => rfl
  | append_singleton arguments a ih =>
    rw [after_concat, itemNames_concat, List.reverse_append, ← ih]
    unfold add
    split
    case isTrue hWildcard =>
      rw [kind.isWildcard_iff] at hWildcard
      simp [hWildcard, kind.wildcard_not_mem_items]
    case isFalse =>
      split <;> simp

end Seen

/-- The judgement of the walk is the judgement by the arguments before. -/
theorem checkArgument_after (kind : TagKind) (earlier : List Argument) (a : Argument) :
    checkArgument kind (Seen.after kind earlier) a = findingsAbout kind earlier a := by
  have hWildcard : (Seen.after kind earlier).wildcard = decide (HasWildcard earlier) := by
    rw [Bool.eq_iff_iff, Seen.after_wildcard, decide_eq_true_iff]
  have hItems : (itemNames kind earlier).reverse.isEmpty = decide (itemNames kind earlier = []) := by
    rw [Bool.eq_iff_iff]
    simp
  unfold checkArgument findingsAbout
  simp only [kind.isWildcard_iff, Seen.after_items, hWildcard, hItems]
  split
  · simp
  · split <;> simp

/-! ## The walk, position by position -/

theorem checkArguments_append (kind : TagKind) (seen : Seen) (as bs : List Argument) :
    checkArguments kind seen (as ++ bs) =
      checkArguments kind seen as ++ checkArguments kind (as.foldl (Seen.add kind) seen) bs := by
  induction as generalizing seen with
  | nil => rfl
  | cons a as ih => simp [checkArguments, ih]

theorem findingsAt_append {kind : TagKind} {arguments : List Argument} {i : Nat}
    (h : i < arguments.length) (more : List Argument) :
    findingsAt kind (arguments ++ more) i = findingsAt kind arguments i := by
  simp only [findingsAt, List.getElem?_append_left h, List.take_append_of_le_length (Nat.le_of_lt h)]

theorem findingsAt_length (kind : TagKind) (earlier : List Argument) (a : Argument)
    (more : List Argument) :
    findingsAt kind (earlier ++ a :: more) earlier.length = findingsAbout kind earlier a := by
  simp [findingsAt]

theorem positionalFindings_concat (kind : TagKind) (arguments : List Argument) (a : Argument) :
    positionalFindings kind (arguments ++ [a]) =
      positionalFindings kind arguments ++ findingsAbout kind arguments a := by
  simp only [positionalFindings, List.length_append, List.length_singleton, List.range_succ,
    List.flatMap_append, List.flatMap_singleton, findingsAt_length]
  congr 1
  apply List.flatMap_congr
  intro i hi
  exact findingsAt_append (List.mem_range.mp hi) [a]

theorem checkArguments_eq_positional (kind : TagKind) (arguments : List Argument) :
    checkArguments kind {} arguments = positionalFindings kind arguments := by
  induction arguments using List.reverseRecOn with
  | nil => rfl
  | append_singleton arguments a ih =>
    rw [checkArguments_append, ih, positionalFindings_concat, ← checkArgument_after]
    simp [checkArguments, Seen.after]

/-! ## What a finding about an argument says -/

theorem mem_findingIf {condition : Bool} {d e : Diagnostic} :
    d ∈ findingIf condition e ↔ condition = true ∧ d = e := by
  cases condition <;> simp [findingIf]

/-- A finding about an argument, with the condition on the argument and on those before it. -/
theorem mem_findingsAbout {kind : TagKind} {earlier : List Argument} {a : Argument}
    {d : Diagnostic} :
    d ∈ findingsAbout kind earlier a ↔
      (a.name = TagKind.wildcard ∧ a.negated = true ∧ d = negatedWildcardAt a.span) ∨
      (a.name = TagKind.wildcard ∧ itemNames kind earlier ≠ [] ∧ d = misplacedWildcardAt a.span) ∨
      (a.name ≠ TagKind.wildcard ∧ a.name ∉ kind.items ∧ d = unknownItemAt a.name a.span) ∨
      (a.name ∈ kind.items ∧ HasWildcard earlier ∧ a.negated = false ∧
        d = redundantItemAt a.name a.span) ∨
      (a.name ∈ kind.items ∧ ¬HasWildcard earlier ∧ a.negated = true ∧
        d = negationWithoutWildcardAt a.span) ∨
      (a.name ∈ itemNames kind earlier ∧ d = duplicateItemAt a.name a.span) := by
  unfold findingsAbout
  by_cases hWildcard : a.name = TagKind.wildcard
  · simp [mem_findingIf, hWildcard, mem_itemNames, kind.wildcard_not_mem_items]
  · by_cases hItem : a.name ∈ kind.items
    · simp [mem_findingIf, hWildcard, hItem, and_assoc]
    · simp [hWildcard, hItem, mem_itemNames]

theorem kinds_findingIf (condition : Bool) (d : Diagnostic) :
    (findingIf condition d).map (·.kind) = if condition then [d.kind] else [] := by
  cases condition <;> rfl

theorem filter_cons_eq {α : Type} (p : α → Prop) [DecidablePred p] (x : α) (xs : List α) :
    (x :: xs).filter p = (if p x then [x] else []) ++ xs.filter p := by
  by_cases h : p x
  · simp [h]
  · simp [h]

/-- The findings about an argument have the kinds that apply to it, one finding a kind, and in the
order in which the kinds are listed. -/
theorem kinds_findingsAbout (kind : TagKind) (earlier : List Argument) (a : Argument) :
    (findingsAbout kind earlier a).map (·.kind) =
      DiagnosticKind.all.filter (Applies kind earlier a) := by
  simp only [all, filter_cons_eq, List.filter_nil]
  simp only [Applies, List.append_nil]
  unfold findingsAbout
  by_cases hWildcard : a.name = TagKind.wildcard
  · have hItem : TagKind.wildcard ∉ kind.items := kind.wildcard_not_mem_items
    simp [kinds_findingIf, hWildcard, hItem, itemNames_ne_nil_iff]
    rfl
  · by_cases hItem : a.name ∈ kind.items
    · simp [kinds_findingIf, hWildcard, hItem, mem_itemNames]
      rfl
    · simp [hWildcard, hItem]
      rfl

/-- A finding says of an argument what is its own: it has the span of the argument and the severity
of its kind, and its fix, which some kinds have and others have not, deletes the argument. -/
structure Diagnostic.IsAbout (a : Argument) (d : Diagnostic) : Prop where
  span_eq : d.span = a.span
  severity_eq : d.severity = d.kind.severity
  fix_eq : d.fix.map (·.remove) =
    if d.kind ∈ [unknownItem, redundantItem, duplicateItem] then some a.span else none

theorem isAbout_of_mem {kind : TagKind} {earlier : List Argument} {a : Argument} {d : Diagnostic}
    (h : d ∈ findingsAbout kind earlier a) : d.IsAbout a := by
  rcases mem_findingsAbout.mp h with
    ⟨-, -, rfl⟩ | ⟨-, -, rfl⟩ | ⟨-, -, rfl⟩ | ⟨-, -, -, rfl⟩ | ⟨-, -, -, rfl⟩ | ⟨-, rfl⟩
  all_goals exact ⟨rfl, rfl, rfl⟩

theorem mem_findingsAt {kind : TagKind} {arguments : List Argument} {i : Nat} {d : Diagnostic} :
    d ∈ findingsAt kind arguments i ↔
      ∃ a, arguments[i]? = some a ∧ d ∈ findingsAbout kind (arguments.take i) a := by
  unfold findingsAt
  cases arguments[i]? <;> simp

/-! ## The arguments of a tag -/

theorem validate_of_ne_nil (kind : TagKind) {arguments : List Argument} (h : arguments ≠ [])
    (tagSpan : Span) : validate kind arguments tagSpan = positionalFindings kind arguments := by
  rw [validate, if_neg (by simpa using h), checkArguments_eq_positional]

/-- Both kinds of tags have the same items. -/
theorem findingsAbout_kind (kind other : TagKind) (earlier : List Argument) (a : Argument) :
    findingsAbout kind earlier a = findingsAbout other earlier a := by
  cases kind <;> cases other <;> rfl

theorem findingsAt_kind (kind other : TagKind) (arguments : List Argument) :
    findingsAt kind arguments = findingsAt other arguments := by
  funext i
  simp only [findingsAt, findingsAbout_kind kind other]

theorem validate_kind (kind other : TagKind) (arguments : List Argument) (tagSpan : Span) :
    validate kind arguments tagSpan = validate other arguments tagSpan := by
  by_cases h : arguments = []
  · subst h
    rfl
  · rw [validate_of_ne_nil kind h, validate_of_ne_nil other h]
    simp only [positionalFindings, findingsAt_kind kind other]

/-- **The walk by position.** The findings about the arguments of a tag are one about the tag if there
are no arguments, and otherwise those about each position, in order, where an argument is judged by
the arguments before it. There is one finding of each kind that applies. A finding carries the span of
its argument and the severity of its kind, and the kind of the tag does not matter. -/
theorem validate_eq_positional (kind : TagKind) (arguments : List Argument) (tagSpan : Span) :
    validate kind arguments tagSpan =
        (if arguments = [] then [missingArgumentsAt tagSpan]
          else (List.range arguments.length).flatMap (findingsAt kind arguments)) ∧
      (∀ i a, arguments[i]? = some a →
        findingsAt kind arguments i = findingsAbout kind (arguments.take i) a ∧
          (findingsAt kind arguments i).map (·.kind) =
            DiagnosticKind.all.filter (Applies kind (arguments.take i) a) ∧
          ∀ d ∈ findingsAt kind arguments i, d.IsAbout a) ∧
      ∀ other, validate other arguments tagSpan = validate kind arguments tagSpan := by
  refine ⟨?_, ?_, fun other => validate_kind other kind arguments tagSpan⟩
  · split
    case isTrue hNone =>
      subst hNone
      rfl
    case isFalse hSome => exact validate_of_ne_nil kind hSome tagSpan
  · intro i a ha
    have hAbout : findingsAt kind arguments i = findingsAbout kind (arguments.take i) a := by
      simp only [findingsAt, ha]
    refine ⟨hAbout, hAbout ▸ kinds_findingsAbout kind _ a, ?_⟩
    intro d hd
    obtain ⟨b, hb, hd⟩ := mem_findingsAt.mp hd
    obtain rfl := Option.some.inj (ha.symm.trans hb)
    exact isAbout_of_mem hd

example :
    let arguments := Argument.ofText "array-reserve bogus all !all array-reserve".toList
    (validate .warnPerformance arguments {}).map (·.kind) =
      [unknownItem, misplacedWildcard, negatedWildcard, misplacedWildcard, redundantItem,
        duplicateItem] := by
  decide +kernel

end TagLint
