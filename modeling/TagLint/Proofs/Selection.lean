import TagLint.Proofs.FindingOrder

/-!
# What options select

The options of a run choose among the findings and never change one. A least severity takes findings
away and then the items that have none left, unregistered tags might as well not be written, and the
check of owners only puts one finding in the place of those about the arguments of a tag.

* `validateItem?_minSeverity`: a least severity, item by item.
* `lintItems_onlyRegistered`: unregistered tags.
* `Registry.lookup_registerAll_congr`: which registrations matter.
* `lintSource_selects`: the three together, for every source.
-/

namespace TagLint

/-! ## The least severity -/

/-- What is left of an item when the findings below a severity are taken away. -/
def ItemDiagnostics.atLeast? (s : Severity) (item : ItemDiagnostics) : Option ItemDiagnostics :=
  let diagnostics := item.diagnostics.filter (s ≤ ·.severity)
  if diagnostics.isEmpty then none else some { item with diagnostics }

theorem Severity.info_le (s : Severity) : Severity.info ≤ s :=
  Nat.zero_le s.rank

theorem validateItem?_congr {options options' : ValidationOptions} {owner : Declaration}
    {comment : DocComment}
    (h : validateComment options owner comment = validateComment options' owner comment) :
    validateItem? options (.commented owner comment) =
      validateItem? options' (.commented owner comment) := by
  simp only [validateItem?, h]

theorem validateComment_info (options : ValidationOptions) (owner : Declaration)
    (comment : DocComment) :
    validateComment { options with minSeverity := .info } owner comment =
      comment.tags.flatMap (checkTag options owner) := by
  apply List.filter_eq_self.mpr
  intro d _
  exact decide_eq_true (Severity.info_le d.severity)

theorem validateComment_minSeverity (options : ValidationOptions) (s : Severity)
    (owner : Declaration) (comment : DocComment) :
    validateComment { options with minSeverity := s } owner comment =
      (validateComment { options with minSeverity := .info } owner comment).filter
        (s ≤ ·.severity) := by
  rw [validateComment_info]
  rfl

theorem validateItem?_minSeverity (options : ValidationOptions) (s : Severity)
    (documented : DocumentedItem) :
    validateItem? { options with minSeverity := s } documented =
      (validateItem? { options with minSeverity := .info } documented).bind (·.atLeast? s) := by
  cases documented with
  | commented owner comment =>
    simp only [validateItem?, validateComment_minSeverity options s]
    by_cases hNone : validateComment { options with minSeverity := .info } owner comment = []
    · simp [hNone]
    · simp [hNone, ItemDiagnostics.atLeast?]
  | failed error =>
    -- the finding about an unreadable comment is compared on its own
    simp only [validateItem?, Severity.info_le, if_true, Option.bind_some,
      ItemDiagnostics.atLeast?]
    by_cases hGrave : s ≤ DiagnosticKind.parsingError.severity
    · simp [Diagnostic.ofKind, hGrave]
    · simp [Diagnostic.ofKind, hGrave]

/-! ## Registered tags -/

namespace Registry

theorem isSome_lookup_name {r : Registry} {kind : TagKind} :
    (r.lookup kind.name).isSome ↔ kind ∈ r.kinds := by
  rw [Option.isSome_iff_exists]
  constructor
  · rintro ⟨other, hOther⟩
    obtain ⟨hMem, hName⟩ := lookup_eq_some_iff.mp hOther
    rwa [TagKind.name_injective hName] at hMem
  · intro hMem
    exact ⟨kind, lookup_eq_some_iff.mpr ⟨hMem, rfl⟩⟩

theorem mem_register {r : Registry} {kind other : TagKind} :
    other ∈ (r.register kind).2.kinds ↔ other ∈ r.kinds ∨ other = kind := by
  unfold register
  split
  · rename_i hKnown
    rw [isSome_lookup_name] at hKnown
    constructor
    · exact .inl
    · rintro (hMem | rfl)
      · exact hMem
      · exact hKnown
  · simp

theorem mem_registerAll {r : Registry} {kinds : List TagKind} {kind : TagKind} :
    kind ∈ (r.registerAll kinds).kinds ↔ kind ∈ r.kinds ∨ kind ∈ kinds := by
  unfold registerAll
  induction kinds generalizing r with
  | nil => simp
  | cons first rest ih => rw [List.foldl_cons, ih, mem_register, List.mem_cons, or_assoc]

theorem lookup_congr {r r' : Registry} (h : ∀ kind, kind ∈ r.kinds ↔ kind ∈ r'.kinds)
    (name : String) : r.lookup name = r'.lookup name := by
  apply Option.ext
  intro kind
  rw [lookup_eq_some_iff, lookup_eq_some_iff, h]

/-- Neither the order nor the number of the registrations of a name matters. -/
theorem lookup_registerAll_congr {kinds kinds' : List TagKind}
    (h : ∀ name, name ∈ kinds.map (·.name) ↔ name ∈ kinds'.map (·.name)) (name : String) :
    (empty.registerAll kinds).lookup name = (empty.registerAll kinds').lookup name := by
  apply lookup_congr
  intro kind
  rw [mem_registerAll, mem_registerAll]
  apply or_congr_right
  have hKind := h kind.name
  rwa [List.mem_map_of_injective @TagKind.name_injective,
    List.mem_map_of_injective @TagKind.name_injective] at hKind

/-- Whether the name of a tag is registered. -/
def has (r : Registry) (tag : DocTag) : Bool :=
  (r.lookup tag.name).isSome

end Registry

/-- A comment without its unregistered tags. -/
def DocumentedItem.onlyRegistered (r : Registry) : DocumentedItem → DocumentedItem
  | .commented owner comment => .commented owner { comment with tags := comment.tags.filter r.has }
  | .failed error => .failed error

theorem checkTag_unregistered (options : ValidationOptions) {tag : DocTag}
    (h : options.registry.has tag = false) (owner : Declaration) :
    checkTag options owner tag = [] := by
  have hNone : options.registry.lookup tag.name = none := by
    simpa only [Registry.has, Option.isSome_eq_false_iff, Option.isNone_iff_eq_none] using h
  rw [checkTag, hNone]

theorem flatMap_filter_of_nil {α β : Type} {p : α → Bool} {f : α → List β} {as : List α}
    (h : ∀ a ∈ as, p a = false → f a = []) : (as.filter p).flatMap f = as.flatMap f := by
  induction as with
  | nil => rfl
  | cons a as ih =>
    obtain ⟨hHead, hTail⟩ := List.forall_mem_cons.mp h
    rw [List.filter_cons, List.flatMap_cons]
    cases hp : p a with
    | true => rw [if_pos rfl, List.flatMap_cons, ih hTail]
    | false => rw [if_neg Bool.false_ne_true, hHead hp, List.nil_append, ih hTail]

theorem validateComment_onlyRegistered (options : ValidationOptions) (owner : Declaration)
    (comment : DocComment) :
    validateComment options owner
        { comment with tags := comment.tags.filter options.registry.has } =
      validateComment options owner comment := by
  unfold validateComment
  dsimp only
  rw [flatMap_filter_of_nil]
  intro tag _ hTag
  exact checkTag_unregistered options hTag owner

theorem validateItem?_onlyRegistered (options : ValidationOptions) (documented : DocumentedItem) :
    validateItem? options (documented.onlyRegistered options.registry) =
      validateItem? options documented := by
  cases documented with
  | commented owner comment =>
    simp only [DocumentedItem.onlyRegistered, validateItem?, validateComment_onlyRegistered]
  | failed error => rfl

theorem lintItems_onlyRegistered (options : ValidationOptions) (items : List DocumentedItem) :
    lintItems options (items.map (·.onlyRegistered options.registry)) = lintItems options items := by
  unfold lintItems
  rw [List.filterMap_map]
  congr 1
  apply List.filterMap_congr
  intro documented _
  exact validateItem?_onlyRegistered options documented

theorem checkTag_congr {options : ValidationOptions} {r r' : Registry}
    (h : ∀ name, r.lookup name = r'.lookup name) :
    checkTag { options with registry := r } = checkTag { options with registry := r' } := by
  funext owner tag
  unfold checkTag
  dsimp only
  rw [h tag.name]
  rfl

theorem lintItems_congr {options : ValidationOptions} {r r' : Registry}
    (h : ∀ name, r.lookup name = r'.lookup name) (items : List DocumentedItem) :
    lintItems { options with registry := r } items =
      lintItems { options with registry := r' } items := by
  have hItem : validateItem? { options with registry := r } =
      validateItem? { options with registry := r' } := by
    funext documented
    cases documented with
    | commented owner comment =>
      apply validateItem?_congr
      rw [validateComment, checkTag_congr h]
      rfl
    | failed error => rfl
  rw [lintItems, hItem, lintItems]

/-! ## Owners -/

theorem isApplicable_eq (r : Registry) (kind : TagKind) (owner : Declaration) :
    r.isApplicable kind owner = owner.isFunctionLike := by
  cases kind with
  | warnPerformance => rfl
  | analyzePerformance => rfl

theorem checkTag_functionLike (options : ValidationOptions) {owner : Declaration}
    (h : owner.isFunctionLike = true) (b : Bool) :
    checkTag { options with applicability := b } owner = checkTag options owner := by
  funext tag
  simp only [checkTag, isApplicable_eq, h, Bool.not_true, Bool.and_false]

theorem validateItem?_functionLike (options : ValidationOptions) {owner : Declaration}
    (h : owner.isFunctionLike = true) (b : Bool) (comment : DocComment) :
    validateItem? { options with applicability := b } (.commented owner comment) =
      validateItem? options (.commented owner comment) := by
  apply validateItem?_congr
  rw [validateComment, checkTag_functionLike options h b]
  rfl

/-- The one finding about a tag on a declaration that cannot be called. -/
theorem checkTag_inapplicable (options : ValidationOptions) {owner : Declaration}
    (h : owner.isFunctionLike = false) {tag : DocTag} (hTag : options.registry.has tag = true) :
    checkTag { options with applicability := true } owner tag =
      [{ kind := .inapplicableTag, severity := .error,
         message := tag.name ++ " is not applicable here", span := tag.span }] := by
  obtain ⟨kind, hKind⟩ := Option.isSome_iff_exists.mp hTag
  obtain ⟨-, hName⟩ := Registry.lookup_eq_some_iff.mp hKind
  simp only [checkTag, hKind, isApplicable_eq, h, Bool.not_false, Bool.and_self, if_true,
    inapplicableTagAt, Diagnostic.ofKind, DiagnosticKind.severity, hName]

theorem checkTag_unapplied (options : ValidationOptions) (owner : Declaration) (tag : DocTag) :
    checkTag { options with applicability := false } owner tag =
      (options.registry.lookup tag.name).elim [] fun kind =>
        validate kind tag.arguments tag.span := by
  unfold checkTag
  dsimp only
  cases options.registry.lookup tag.name with
  | none => rfl
  | some kind => rfl

theorem validateComment_inapplicable (options : ValidationOptions) {owner : Declaration}
    (h : owner.isFunctionLike = false) (comment : DocComment) :
    validateComment { options with applicability := true, minSeverity := .info } owner comment =
      (comment.tags.filter options.registry.has).map fun tag =>
        { kind := .inapplicableTag, severity := .error,
          message := tag.name ++ " is not applicable here", span := tag.span } := by
  have hNone : ∀ tag ∈ comment.tags, options.registry.has tag = false →
      checkTag { options with applicability := true } owner tag = [] := by
    intro tag _ hTag
    exact checkTag_unregistered { options with applicability := true } hTag owner
  rw [validateComment_info { options with applicability := true }, ← flatMap_filter_of_nil hNone,
    List.map_eq_flatMap]
  apply List.flatMap_congr
  intro tag hTag
  exact checkTag_inapplicable options h (List.mem_filter.mp hTag).2

theorem validateComment_unapplied (options : ValidationOptions) (owner : Declaration)
    (comment : DocComment) :
    validateComment { options with applicability := false, minSeverity := .info } owner comment =
      comment.tags.flatMap fun tag =>
        (options.registry.lookup tag.name).elim [] fun kind =>
          validate kind tag.arguments tag.span := by
  rw [validateComment_info { options with applicability := false }]
  apply List.flatMap_congr
  intro tag _
  exact checkTag_unapplied options owner tag

/-! ## Sources -/

theorem lintSource_eq_filterMap (options : ValidationOptions) (source : List Char) :
    lintSource options source = (Php.parseSource source).filterMap (validateItem? options) :=
  lintItems_eq_filterMap (Php.parseSource_ordered source) (Php.parseSource_apart source)

theorem lintSource_minSeverity (options : ValidationOptions) (s : Severity) (source : List Char) :
    lintSource { options with minSeverity := s } source =
      (lintSource { options with minSeverity := .info } source).filterMap (·.atLeast? s) := by
  rw [lintSource_eq_filterMap, lintSource_eq_filterMap, List.filterMap_filterMap]
  apply List.filterMap_congr
  intro documented _
  exact validateItem?_minSeverity options s documented

theorem FileDiagnostics.ofItems?_eq_none_iff {path : String} {document : Nat}
    {items : List ItemDiagnostics} : ofItems? path document items = none ↔ items = [] := by
  simp [ofItems?]

/-- **Options only select.** A least severity takes the milder findings away, then the items that have
none left, and the result is missing if nothing is left. Unregistered tags contribute nothing, and of
the registry only the registered names count. The check of owners changes nothing on functions and
methods; on any other declaration it puts one finding in the place of those about the arguments of
each registered tag. -/
theorem lintSource_selects (options : ValidationOptions) (source : List Char) :
    (∀ s path document,
      lintSource { options with minSeverity := s } source =
        (lintSource { options with minSeverity := .info } source).filterMap (·.atLeast? s) ∧
      (FileDiagnostics.ofItems? path document
          (lintSource { options with minSeverity := s } source) = none ↔
        (lintSource { options with minSeverity := .info } source).filterMap (·.atLeast? s) = [])) ∧
    lintItems options ((Php.parseSource source).map (·.onlyRegistered options.registry)) =
      lintSource options source ∧
    (∀ kinds kinds' : List TagKind,
      (∀ name, name ∈ kinds.map (·.name) ↔ name ∈ kinds'.map (·.name)) →
      lintSource { options with registry := Registry.empty.registerAll kinds } source =
        lintSource { options with registry := Registry.empty.registerAll kinds' } source) ∧
    lintSource options source = (Php.parseSource source).filterMap (validateItem? options) ∧
    ∀ owner comment, .commented owner comment ∈ Php.parseSource source →
      (owner.isFunctionLike = true → ∀ b,
        validateItem? { options with applicability := b } (.commented owner comment) =
          validateItem? options (.commented owner comment)) ∧
      (owner.isFunctionLike = false →
        validateComment { options with applicability := true, minSeverity := .info } owner comment =
          (comment.tags.filter options.registry.has).map (fun tag =>
            { kind := .inapplicableTag, severity := .error,
              message := tag.name ++ " is not applicable here", span := tag.span }) ∧
        validateComment { options with applicability := false, minSeverity := .info } owner comment =
          comment.tags.flatMap fun tag =>
            (options.registry.lookup tag.name).elim [] fun kind =>
              validate kind tag.arguments tag.span) := by
  refine ⟨?_, lintItems_onlyRegistered options _, ?_, lintSource_eq_filterMap options source, ?_⟩
  · intro s path document
    have hLess := lintSource_minSeverity options s source
    rw [FileDiagnostics.ofItems?_eq_none_iff, hLess]
    exact ⟨rfl, Iff.rfl⟩
  · intro kinds kinds' hNames
    exact lintItems_congr (Registry.lookup_registerAll_congr hNames) _
  · intro owner comment _
    refine ⟨fun h b => validateItem?_functionLike options h b comment, fun h => ?_⟩
    exact ⟨validateComment_inapplicable options h comment,
      validateComment_unapplied options owner comment⟩

/-- A class with an unregistered tag and a registered one. The check of owners hides that the argument
of the latter is unknown. -/
theorem lintSource_selects_class :
    let source := "<?php /** @x\n@kphp-warn-performance y */ class A".toList
    ∃ owner comment, .commented owner comment ∈ Php.parseSource source ∧
      owner.isFunctionLike = false ∧
      (validateComment {} owner comment).map (·.message) =
        ["@kphp-warn-performance is not applicable here"] ∧
      (validateComment { applicability := false } owner comment).map (·.message) =
        ["unknown item `y`"] := by
  intro source
  let tags : List DocTag :=
    [{ name := "@x", nameSpan := ⟨⟨10, 10, 0, 10⟩, ⟨12, 12, 0, 12⟩⟩,
       span := ⟨⟨10, 10, 0, 10⟩, ⟨12, 12, 0, 12⟩⟩ },
     { name := "@kphp-warn-performance", nameSpan := ⟨⟨13, 13, 1, 0⟩, ⟨35, 35, 1, 22⟩⟩,
       span := ⟨⟨13, 13, 1, 0⟩, ⟨37, 37, 1, 24⟩⟩,
       arguments := [{ name := "y", negated := false,
                       span := ⟨⟨36, 36, 1, 23⟩, ⟨37, 37, 1, 24⟩⟩ }] }]
  let owner : Declaration :=
    { kind := .class_, name := "A", span := ⟨⟨41, 41, 1, 28⟩, ⟨48, 48, 1, 35⟩⟩ }
  let comment : DocComment := { span := ⟨⟨6, 6, 0, 6⟩, ⟨40, 40, 1, 27⟩⟩, tags }
  have hItem : .commented owner comment ∈ Php.parseSource source := by
    rw [Php.parseSource, complete_eq_map]
    decide +kernel
  obtain ⟨-, -, -, -, hOwners⟩ := lintSource_selects {} source
  obtain ⟨hApplied, hUnapplied⟩ := (hOwners owner comment hItem).2 rfl
  refine ⟨owner, comment, hItem, rfl, ?_, ?_⟩
  · rw [hApplied]
    decide +kernel
  · rw [hUnapplied]
    decide +kernel

end TagLint
