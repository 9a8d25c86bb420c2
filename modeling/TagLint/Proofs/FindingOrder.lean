import TagLint.Proofs.SourceOrder

/-!
# The order of findings

The findings about a comment rise with its tags and their arguments and lie inside the comment. Items
stand apart, so the findings of a whole file rise too, and the items with findings already come in the
order in which they are to be reported.

* `validateComment_rising`: the findings about a comment.
* `lintItems_eq_filterMap`: sorting the findings about items that stand in order changes nothing.
* `lintSource_inOrder`: the result for the items and the findings of a source.
-/

namespace TagLint

/-! ## Findings that rise -/

/-- The findings lie between two byte offsets, and none starts before the one in front of it. -/
structure Rising (low high : Nat) (ds : List Diagnostic) : Prop where
  starts : ds.Pairwise (·.span.start.utf8 ≤ ·.span.start.utf8)
  within : ∀ d ∈ ds, low ≤ d.span.start.utf8 ∧ d.span.start.utf8 ≤ d.span.stop.utf8 ∧
    d.span.stop.utf8 ≤ high

namespace Rising

variable {low mid high : Nat} {ds es : List Diagnostic}

theorem nil (low high : Nat) : Rising low high [] :=
  ⟨.nil, by simp⟩

theorem append (h : Rising low mid ds) (h' : Rising mid high es) (hLow : low ≤ mid)
    (hHigh : mid ≤ high) : Rising low high (ds ++ es) := by
  refine ⟨List.pairwise_append.mpr ⟨h.starts, h'.starts, ?_⟩, ?_⟩
  · intro d hd e he
    have := h.within d hd
    have := h'.within e he
    omega
  · intro d hd
    rcases List.mem_append.mp hd with hd | hd
    · have := h.within d hd
      omega
    · have := h'.within d hd
      omega

/-- All the findings are about one span. -/
theorem of_span {s : Span} (hSame : ∀ d ∈ ds, d.span = s) (hLow : low ≤ s.start.utf8)
    (hOrdered : s.start.utf8 ≤ s.stop.utf8) (hHigh : s.stop.utf8 ≤ high) : Rising low high ds := by
  refine ⟨List.pairwise_of_forall_mem_list ?_, ?_⟩
  · intro d hd e he
    exact Nat.le_of_eq (by rw [hSame d hd, hSame e he])
  · intro d hd
    rw [hSame d hd]
    exact ⟨hLow, hOrdered, hHigh⟩

theorem filter (h : Rising low high ds) (p : Diagnostic → Bool) : Rising low high (ds.filter p) :=
  ⟨h.starts.filter p, fun d hd => h.within d (List.mem_filter.mp hd).1⟩

end Rising

theorem checkArguments_rising {low high : Nat} {kind : TagKind} {arguments : List Argument}
    (h : Successive low high (arguments.map (·.span))) (seen : Seen) :
    Rising low high (checkArguments kind seen arguments) := by
  induction arguments generalizing low seen with
  | nil => exact .nil low high
  | cons a rest ih =>
    cases h with
    | cons hBehind hOrdered hRest =>
      have hFirst : Rising low a.span.stop.utf8 (checkArgument kind seen a) :=
        .of_span (fun d hd => (mem_checkArgument hd).1) hBehind hOrdered (Nat.le_refl _)
      exact hFirst.append (ih hRest _) (Nat.le_trans hBehind hOrdered) hRest.le

theorem checkTag_rising {tag : DocTag} (h : tag.Ordered) (options : ValidationOptions)
    (owner : Declaration) :
    Rising tag.span.start.utf8 tag.span.stop.utf8 (checkTag options owner tag) := by
  have hTag : ∀ d : Diagnostic, d.span = tag.span →
      Rising tag.span.start.utf8 tag.span.stop.utf8 [d] := by
    intro d hd
    exact .of_span (List.forall_mem_singleton.mpr hd) (Nat.le_refl _) h.le (Nat.le_refl _)
  unfold checkTag
  split
  · exact .nil _ _
  · split
    · exact hTag _ rfl
    · unfold validate
      split
      · exact hTag _ rfl
      · exact checkArguments_rising h {}

theorem checkTags_rising {low high : Nat} {tags : List DocTag}
    (h : Successive low high (tags.map (·.span))) (hTags : ∀ t ∈ tags, t.Ordered)
    (options : ValidationOptions) (owner : Declaration) :
    Rising low high (tags.flatMap (checkTag options owner)) := by
  induction tags generalizing low with
  | nil => exact .nil low high
  | cons t tags ih =>
    cases h with
    | cons hBehind hOrdered hRest =>
      have hFirst := checkTag_rising (hTags t (by simp)) options owner
      have hMore := ih hRest fun u hu => hTags u (List.mem_cons_of_mem _ hu)
      have hBoth := hFirst.append hMore hOrdered hRest.le
      exact (Rising.nil low _).append hBoth hBehind (Nat.le_trans hOrdered hRest.le)

theorem validateComment_rising {comment : DocComment}
    (h : Successive comment.span.start.utf8 comment.span.stop.utf8 (comment.tags.map (·.span)))
    (hTags : ∀ t ∈ comment.tags, t.Ordered) (options : ValidationOptions) (owner : Declaration) :
    Rising comment.span.start.utf8 comment.span.stop.utf8 (validateComment options owner comment) :=
  (checkTags_rising h hTags options owner).filter _

/-! ## Linting -/

section Lint

variable {options : ValidationOptions} {documented : DocumentedItem} {item : ItemDiagnostics}

/-- The findings about an item lie inside its comment. -/
theorem validateItem?_rising (hOrdered : documented.Ordered)
    (h : validateItem? options documented = some item) :
    Rising documented.commentSpan.start.utf8 documented.commentSpan.stop.utf8 item.diagnostics := by
  rcases validateItem?_cases h with ⟨owner, comment, rfl, -, rfl⟩ | ⟨error, rfl, -, rfl⟩
  · obtain ⟨-, -, -, hSpans, hTags⟩ := hOrdered
    exact validateComment_rising hSpans hTags options owner
  · obtain ⟨span, reason, rfl, hWidth⟩ := hOrdered
    exact .of_span (List.forall_mem_singleton.mpr rfl) (Nat.le_refl _) (Nat.le_of_lt hWidth)
      (Nat.le_refl _)

/-- An item starts with its comment or with its owner, and in both cases before it ends. -/
theorem validateItem?_start (hOrdered : documented.Ordered)
    (h : validateItem? options documented = some item) :
    documented.commentSpan.start.utf8 ≤ item.span.start.utf8 ∧
      item.span.start.utf8 < documented.stop.utf8 := by
  rcases validateItem?_cases h with ⟨owner, comment, rfl, -, rfl⟩ | ⟨error, rfl, -, rfl⟩
  · obtain ⟨hComment, hBehind, hOwner, -, -⟩ := hOrdered
    dsimp only [DocumentedItem.commentSpan, DocumentedItem.stop]
    split
    · omega
    · rename_i hHead
      simp only [Span.isEmpty, decide_eq_true_eq] at hHead
      omega
  · obtain ⟨span, reason, rfl, hWidth⟩ := hOrdered
    exact ⟨Nat.le_refl _, hWidth⟩

variable {items : List DocumentedItem}

theorem starts_increasing (hOrdered : ∀ documented ∈ items, documented.Ordered)
    (hApart : items.Pairwise DocumentedItem.Precedes) :
    (items.filterMap (validateItem? options)).Pairwise (·.span.start.utf8 < ·.span.start.utf8) := by
  apply List.pairwise_filterMap.mpr
  apply hApart.imp_of_mem
  intro a b ha hb hBefore item hItem item' hItem'
  have hFirst := (validateItem?_start (hOrdered a ha) hItem).2
  have hSecond := (validateItem?_start (hOrdered b hb) hItem').1
  unfold DocumentedItem.Precedes at hBefore
  omega

/-- Findings about items that stand in order need no sorting. -/
theorem lintItems_eq_filterMap (hOrdered : ∀ documented ∈ items, documented.Ordered)
    (hApart : items.Pairwise DocumentedItem.Precedes) :
    lintItems options items = items.filterMap (validateItem? options) := by
  apply List.mergeSort_of_pairwise
  apply (starts_increasing hOrdered hApart).imp
  intro a b hLt
  exact decide_eq_true (Nat.le_of_lt hLt)

theorem findings_rising (hOrdered : ∀ documented ∈ items, documented.Ordered)
    (hApart : items.Pairwise DocumentedItem.Precedes) :
    ((items.filterMap (validateItem? options)).flatMap (·.diagnostics)).Pairwise
      (·.span.start.utf8 ≤ ·.span.start.utf8) := by
  apply List.pairwise_flatMap.mpr
  constructor
  · intro item hItem
    obtain ⟨documented, hMem, hValid⟩ := List.mem_filterMap.mp hItem
    exact (validateItem?_rising (hOrdered documented hMem) hValid).starts
  · apply List.pairwise_filterMap.mpr
    apply hApart.imp_of_mem
    intro a b ha hb hBefore item hItem item' hItem' d hd d' hd'
    have hFirst := (validateItem?_rising (hOrdered a ha) hItem).within d hd
    have hSecond := (validateItem?_rising (hOrdered b hb) hItem').within d' hd'
    have hEnds : a.commentSpan.stop.utf8 ≤ a.stop.utf8 := by
      cases a with
      | commented owner comment =>
        obtain ⟨-, hBehind, hOwner, -⟩ := hOrdered _ ha
        exact Nat.le_trans hBehind hOwner
      | failed error => exact Nat.le_refl _
    unfold DocumentedItem.Precedes at hBefore
    omega

end Lint

/-- **Source order.** The items of a source come in its order and do not overlap: comment, owner, next
comment. So sorting the findings by item changes nothing, items start one behind the other, each
finding lies inside the comment of its item, and the findings of the file rise from first to last. -/
theorem lintSource_inOrder (options : ValidationOptions) (source : List Char) :
    (∀ item ∈ Php.documentedItems source, item.Ordered) ∧
      (Php.documentedItems source).Pairwise DocumentedItem.Precedes ∧
      lintSource options source = (Php.parseSource source).filterMap (validateItem? options) ∧
      (lintSource options source).Pairwise (·.span.start.utf8 < ·.span.start.utf8) ∧
      (∀ item ∈ lintSource options source, ∃ documented ∈ Php.parseSource source,
        validateItem? options documented = some item ∧
        ∀ d ∈ item.diagnostics, documented.commentSpan.start.utf8 ≤ d.span.start.utf8 ∧
          d.span.start.utf8 ≤ d.span.stop.utf8 ∧
          d.span.stop.utf8 ≤ documented.commentSpan.stop.utf8) ∧
      ((lintSource options source).flatMap (·.diagnostics)).Pairwise
        (·.span.start.utf8 ≤ ·.span.start.utf8) := by
  have hOrdered := Php.parseSource_ordered source
  have hApart := Php.parseSource_apart source
  have hSorted : lintSource options source =
      (Php.parseSource source).filterMap (validateItem? options) :=
    lintItems_eq_filterMap hOrdered hApart
  refine ⟨Php.documentedItems_ordered source, Php.documentedItems_apart source, hSorted, ?_, ?_, ?_⟩
  · rw [hSorted]
    exact starts_increasing hOrdered hApart
  · intro item hItem
    rw [hSorted] at hItem
    obtain ⟨documented, hMem, hValid⟩ := List.mem_filterMap.mp hItem
    exact ⟨documented, hMem, hValid, (validateItem?_rising (hOrdered documented hMem) hValid).within⟩
  · rw [hSorted]
    exact findings_rising hOrdered hApart

end TagLint
