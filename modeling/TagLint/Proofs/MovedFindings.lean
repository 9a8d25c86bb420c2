import Mathlib.Data.List.Basic
import TagLint.Proofs.SpanFidelity

/-!
# Findings under a change of positions

Checking reads names, words and the order of places. Of a position it asks two things only: whether a
head covers nothing, and which of two items starts first. A change of positions that keeps the order
of character boundaries therefore passes through all checks.

* `validate_map`: the findings about the arguments of a tag.
* `validateItem?_map`: the findings about one item.
* `lintItems_map`: the findings about all items of a file, in their order.
-/

namespace TagLint

open Text (byteWidth IsBoundary)

/-! ## Changed findings -/

/-- Applies a change of positions to the span that a fix deletes. -/
def Fix.mapPositions (g : Position → Position) (fix : Fix) : Fix :=
  { fix with remove := fix.remove.map g }

/-- Applies a change of positions to all spans of a finding. -/
def Diagnostic.mapPositions (g : Position → Position) (d : Diagnostic) : Diagnostic :=
  { d with span := d.span.map g, fix := d.fix.map (·.mapPositions g) }

/-- Applies a change of positions to all spans of the findings about an item. -/
def ItemDiagnostics.mapPositions (g : Position → Position) (item : ItemDiagnostics) :
    ItemDiagnostics :=
  { item with span := item.span.map g, diagnostics := item.diagnostics.map (·.mapPositions g) }

theorem Diagnostic.mapPositions_comp (g h : Position → Position) (d : Diagnostic) :
    (d.mapPositions g).mapPositions h = d.mapPositions (h ∘ g) := by
  obtain ⟨kind, severity, message, span, fix⟩ := d
  cases fix with
  | none => rfl
  | some fix => rfl

theorem ItemDiagnostics.mapPositions_comp (g h : Position → Position) (item : ItemDiagnostics) :
    (item.mapPositions g).mapPositions h = item.mapPositions (h ∘ g) := by
  have hFindings : (item.diagnostics.map (·.mapPositions g)).map (·.mapPositions h) =
      item.diagnostics.map (·.mapPositions (h ∘ g)) := by
    rw [List.map_map]
    apply List.map_congr_left
    intro d _
    exact d.mapPositions_comp g h
  simp only [ItemDiagnostics.mapPositions, hFindings]
  rfl

/-! ## Checks -/

theorem findingIf_map (g : Position → Position) (condition : Bool) (d : Diagnostic) :
    (findingIf condition d).map (·.mapPositions g) = findingIf condition (d.mapPositions g) := by
  cases condition with
  | false => rfl
  | true => rfl

theorem checkArgument_map (g : Position → Position) (kind : TagKind) (seen : Seen) (a : Argument) :
    checkArgument kind seen (a.mapPositions g) =
      (checkArgument kind seen a).map (·.mapPositions g) := by
  have hName : (a.mapPositions g).name = a.name := rfl
  simp only [checkArgument, hName]
  by_cases hWildcard : kind.isWildcard a.name = true
  · rw [if_pos hWildcard, if_pos hWildcard, List.map_append, findingIf_map, findingIf_map]
    rfl
  · rw [if_neg hWildcard, if_neg hWildcard]
    by_cases hKnown : a.name ∈ kind.items
    · rw [if_pos hKnown, if_pos hKnown, List.map_append, List.map_append, findingIf_map,
        findingIf_map, findingIf_map]
      rfl
    · rw [if_neg hKnown, if_neg hKnown]
      rfl

theorem checkArguments_map (g : Position → Position) (kind : TagKind) (seen : Seen)
    (arguments : List Argument) :
    checkArguments kind seen (arguments.map (·.mapPositions g)) =
      (checkArguments kind seen arguments).map (·.mapPositions g) := by
  induction arguments generalizing seen with
  | nil => rfl
  | cons a rest ih =>
    -- what is remembered of an argument is its name, which stays
    have hSeen : seen.add kind (a.mapPositions g) = seen.add kind a := rfl
    rw [List.map_cons, checkArguments, checkArguments, List.map_append, checkArgument_map, hSeen, ih]

theorem validate_map (g : Position → Position) (kind : TagKind) (arguments : List Argument)
    (tagSpan : Span) :
    validate kind (arguments.map (·.mapPositions g)) (tagSpan.map g) =
      (validate kind arguments tagSpan).map (·.mapPositions g) := by
  unfold validate
  rw [List.isEmpty_map]
  split
  · rfl
  · exact checkArguments_map g kind {} arguments

theorem checkTag_map (g : Position → Position) (options : ValidationOptions) (owner : Declaration)
    (tag : DocTag) :
    checkTag options (owner.mapPositions g) (tag.mapPositions g) =
      (checkTag options owner tag).map (·.mapPositions g) := by
  unfold checkTag
  have hApplicable : ∀ kind, options.registry.isApplicable kind (owner.mapPositions g) =
      options.registry.isApplicable kind owner := by
    intro kind
    cases kind with
    | warnPerformance => rfl
    | analyzePerformance => rfl
  dsimp only [DocTag.mapPositions]
  cases options.registry.lookup tag.name with
  | none => rfl
  | some kind =>
    dsimp only
    rw [hApplicable]
    split
    · rfl
    · exact validate_map g kind tag.arguments tag.span

theorem validateComment_map (g : Position → Position) (options : ValidationOptions)
    (owner : Declaration) (comment : DocComment) :
    validateComment options (owner.mapPositions g) (comment.mapPositions g) =
      (validateComment options owner comment).map (·.mapPositions g) := by
  unfold validateComment
  dsimp only [DocComment.mapPositions]
  have hTags : (comment.tags.map (·.mapPositions g)).flatMap
        (checkTag options (owner.mapPositions g)) =
      (comment.tags.flatMap (checkTag options owner)).map (·.mapPositions g) := by
    rw [List.flatMap_map, List.map_flatMap]
    simp only [checkTag_map]
  rw [hTags, List.filter_map]
  rfl

/-! ## Items -/

/-- The change of positions keeps the order of the character boundaries of a source. -/
def KeepsOrder (source : List Char) (g : Position → Position) : Prop :=
  ∀ p q, IsBoundary source p.utf8 → IsBoundary source q.utf8 →
    ((g p).utf8 ≤ (g q).utf8 ↔ p.utf8 ≤ q.utf8)

theorem KeepsBoundaries.keepsOrder {source : List Char} {g : Position → Position}
    (h : KeepsBoundaries source g) : KeepsOrder source g := by
  intro p q hp hq
  rw [h p hp, h q hq]

section Order

variable {source : List Char} {g : Position → Position} {options : ValidationOptions}

theorem Span.isEmpty_map (hg : KeepsOrder source g) {s : Span} (h : s.Fits source) :
    (s.map g).isEmpty = s.isEmpty := by
  unfold Span.isEmpty
  rw [decide_eq_decide]
  exact hg s.stop s.start h.stop_isBoundary h.start_isBoundary

theorem validateItem?_map (hg : KeepsOrder source g) {item : DocumentedItem}
    (h : item.Placed source) :
    validateItem? options (item.mapPositions g) =
      (validateItem? options item).map (·.mapPositions g) := by
  cases item with
  | commented owner comment =>
    obtain ⟨hOwner, -, -⟩ := h
    have hEmpty : (owner.mapPositions g).span.isEmpty = owner.span.isEmpty :=
      Span.isEmpty_map hg hOwner
    unfold validateItem?
    dsimp only [DocumentedItem.mapPositions]
    rw [validateComment_map, List.isEmpty_map, hEmpty]
    split
    · rfl
    · split
      · rfl
      · rfl
  | failed e =>
    obtain ⟨span, reason, text, rfl, -⟩ := h
    by_cases hGrave : options.minSeverity ≤ DiagnosticKind.parsingError.severity
    · have hReported : ∀ s, validateItem? options (.failed (.malformedComment s reason)) = some
          { itemType := .parsingError, name := "", span := s,
            diagnostics := [.ofKind .parsingError (Error.malformedComment s reason).message s] } := by
        intro s
        exact if_pos hGrave
      rw [hReported]
      exact hReported (span.map g)
    · have hSilent : ∀ s, validateItem? options (.failed (.malformedComment s reason)) = none := by
        intro s
        exact if_neg hGrave
      rw [hSilent]
      exact hSilent (span.map g)

/-- A change of positions that keeps their order passes through linting. -/
theorem lintItems_map (hg : KeepsOrder source g) {items : List DocumentedItem}
    (h : ∀ item ∈ items, item.Placed source) :
    lintItems options (items.map (·.mapPositions g)) =
      (lintItems options items).map (·.mapPositions g) := by
  have hFindings : (items.map (·.mapPositions g)).filterMap (validateItem? options) =
      (items.filterMap (validateItem? options)).map (·.mapPositions g) := by
    rw [List.filterMap_map, List.map_filterMap]
    apply List.filterMap_congr
    intro item hItem
    exact validateItem?_map hg (h item hItem)
  have hStart : ∀ a ∈ items.filterMap (validateItem? options),
      IsBoundary source a.span.start.utf8 := by
    intro a ha
    obtain ⟨item, hItem, hValid⟩ := List.mem_filterMap.mp ha
    exact (validateItem?_fits (h item hItem) hValid).start_isBoundary
  rw [lintItems, hFindings, lintItems]
  refine (List.map_mergeSort ?_).symm
  intro a ha b hb
  have hOrder := hg a.span.start b.span.start (hStart a ha) (hStart b hb)
  exact decide_eq_decide.mpr hOrder.symm

end Order

end TagLint
