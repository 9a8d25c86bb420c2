import TagLint.Lint
import TagLint.Proofs.CommentLines
import TagLint.Proofs.OwnerHead
import TagLint.Proofs.Positions

/-!
# Spans of findings

Every span that linting gives lies in the source, and the text it delimits is the one that the
finding is about. The offsets pass four layers: the search for comments, the lines of a comment, the
completion of positions and the checks of arguments. Each layer has its own statement of where things
stand, and the checks only hand spans on.

* `documentedItems_placed`: comments, tags, arguments and owners stand where their spans say.
* `parseSource_placed`: completion keeps all of this, since it keeps the offset of a boundary.
* `mem_checkArguments`: a finding about arguments has the span of the argument at fault.
* `validateItem?_cases`: what an item with findings looks like.
* `lintSource_spans`: the result for the findings of a source.
-/

namespace TagLint

open Text (byteWidth IsBoundary)

/-! ## Spans under a change of positions -/

/-- The change of positions keeps the byte offset of every character boundary. -/
def KeepsBoundaries (source : List Char) (f : Position → Position) : Prop :=
  ∀ p, IsBoundary source p.utf8 → (f p).utf8 = p.utf8

theorem keepsBoundaries_locate (source : List Char) :
    KeepsBoundaries source fun p => locate source p.utf8 := by
  intro p hp
  exact utf8_locate hp

section Map

variable {source text : List Char} {f : Position → Position}

theorem Span.Fits.map {s : Span} (h : s.Fits source) (hf : KeepsBoundaries source f) :
    (s.map f).Fits source := by
  have hStart := hf s.start h.start_isBoundary
  have hStop := hf s.stop h.stop_isBoundary
  refine Span.fits_of_boundaries ?_ ?_ ?_
  · rw [Span.map_start, Span.map_stop, hStart, hStop]
    exact h.ordered
  · rw [Span.map_start, hStart]
    exact h.start_isBoundary
  · rw [Span.map_stop, hStop]
    exact h.stop_isBoundary

theorem Span.Covers.map {s : Span} (h : s.Covers source text) (hf : KeepsBoundaries source f) :
    (s.map f).Covers source text := by
  have hStart := hf s.start h.fits.start_isBoundary
  have hStop := hf s.stop h.fits.stop_isBoundary
  refine ⟨?_, ?_⟩
  · rw [Span.map_start, hStart]
    exact h.standsAt
  · rw [Span.map_start, Span.map_stop, hStart, hStop]
    exact h.stop_eq

theorem DocTag.Placed.map {t : DocTag} (h : t.Placed source) (hf : KeepsBoundaries source f) :
    (t.mapPositions f).Placed source := by
  refine ⟨h.name_covers.map hf, ?_, ?_⟩
  · intro a ha
    obtain ⟨b, hb, rfl⟩ := List.mem_map.mp ha
    exact (h.arguments_cover b hb).map hf
  · obtain ⟨more, hMore⟩ := h.span_covers
    exact ⟨more, hMore.map hf⟩

end Map

/-! ## Places of items -/

/-- An item stands in the source where its spans say: its comment covers a text that opens like a
comment, and its owner, if it has one, lies in the source. -/
def DocumentedItem.Placed (source : List Char) : DocumentedItem → Prop
  | .commented owner comment =>
    owner.span.Fits source ∧ comment.span.Fits source ∧ ∀ t ∈ comment.tags, t.Placed source
  | .failed e => ∃ span reason text, e = .malformedComment span reason ∧ span.Covers source text

theorem DocumentedItem.Placed.map {source : List Char} {f : Position → Position}
    {item : DocumentedItem} (h : item.Placed source) (hf : KeepsBoundaries source f) :
    (item.mapPositions f).Placed source := by
  cases item with
  | commented owner comment =>
    obtain ⟨hOwner, hComment, hTags⟩ := h
    refine ⟨hOwner.map hf, hComment.map hf, ?_⟩
    intro t ht
    obtain ⟨u, hu, rfl⟩ := List.mem_map.mp ht
    exact (hTags u hu).map hf
  | failed e =>
    obtain ⟨span, reason, text, rfl, hSpan⟩ := h
    exact ⟨span.map f, reason, text, rfl, hSpan.map hf⟩

namespace Php

theorem RawComment.item?_placed {source : List Char} {raw : RawComment} {item : DocumentedItem}
    (hText : StandsAt source raw.text raw.start) (hFollowing : StandsAt source raw.following raw.stop)
    (h : raw.item? = some item) : item.Placed source := by
  unfold RawComment.item? at h
  cases hParse : DocComment.parse raw.text raw.start with
  | ok comment =>
    rw [hParse] at h
    dsimp only at h
    split at h
    · cases h
    · obtain rfl := Option.some.inj h
      obtain ⟨hSpan, hTags⟩ := DocComment.parse_placed hText hParse
      exact ⟨findOwner_fits hFollowing, hSpan.fits, hTags⟩
  | error e =>
    rw [hParse] at h
    obtain rfl := Option.some.inj h
    obtain ⟨-, rfl⟩ := DocComment.parse_eq_error_iff.mp hParse
    exact ⟨_, _, raw.text, rfl, Span.covers_ofBytes hText⟩

theorem documentedItems_placed (source : List Char) :
    ∀ item ∈ documentedItems source, item.Placed source := by
  intro item hItem
  obtain ⟨raw, hRaw, hRead⟩ := List.mem_filterMap.mp hItem
  obtain ⟨hText, hFollowing⟩ := docComments_standsAt hRaw
  exact raw.item?_placed hText hFollowing hRead

theorem parseSource_placed (source : List Char) :
    ∀ item ∈ parseSource source, item.Placed source := by
  intro item hItem
  rw [parseSource, complete_eq_map] at hItem
  obtain ⟨raw, hRaw, rfl⟩ := List.mem_map.mp hItem
  exact (documentedItems_placed source raw hRaw).map (keepsBoundaries_locate source)

end Php

/-! ## Findings about arguments -/

/-- What the arguments of a list have shown, read from its start. -/
def Seen.after (kind : TagKind) (arguments : List Argument) : Seen :=
  arguments.foldl (Seen.add kind) {}

/-- The kinds of findings that are about one argument. -/
def DiagnosticKind.isAboutArgument : DiagnosticKind → Bool
  | .negatedWildcard | .misplacedWildcard | .unknownItem | .redundantItem
  | .negationWithoutWildcard | .duplicateItem => true
  | .missingArguments | .inapplicableTag | .parsingError => false

/-- A finding whose fix, if there is one, deletes the span that the finding is about. -/
def Diagnostic.FixesItself (d : Diagnostic) : Prop :=
  ∀ fix ∈ d.fix, fix.remove = d.span

theorem eq_of_mem_findingIf {condition : Bool} {d e : Diagnostic} (h : d ∈ findingIf condition e) :
    d = e := by
  cases condition with
  | false => cases h
  | true => exact List.mem_singleton.mp h

theorem mem_checkArgument {kind : TagKind} {seen : Seen} {a : Argument} {d : Diagnostic}
    (h : d ∈ checkArgument kind seen a) :
    d.span = a.span ∧ d.kind.isAboutArgument = true ∧ d.FixesItself := by
  unfold checkArgument at h
  split at h
  · rcases List.mem_append.mp h with h | h
    · obtain rfl := eq_of_mem_findingIf h
      exact ⟨rfl, rfl, by rintro fix ⟨⟩⟩
    · obtain rfl := eq_of_mem_findingIf h
      exact ⟨rfl, rfl, by rintro fix ⟨⟩⟩
  · split at h
    · rcases List.mem_append.mp h with h | h
      · rcases List.mem_append.mp h with h | h
        · obtain rfl := eq_of_mem_findingIf h
          exact ⟨rfl, rfl, by rintro fix ⟨⟩; rfl⟩
        · obtain rfl := eq_of_mem_findingIf h
          exact ⟨rfl, rfl, by rintro fix ⟨⟩⟩
      · obtain rfl := eq_of_mem_findingIf h
        exact ⟨rfl, rfl, by rintro fix ⟨⟩; rfl⟩
    · obtain rfl := List.mem_singleton.mp h
      exact ⟨rfl, rfl, by rintro fix ⟨⟩; rfl⟩

theorem mem_checkArguments {kind : TagKind} {seen : Seen} {arguments : List Argument}
    {d : Diagnostic} (h : d ∈ checkArguments kind seen arguments) :
    ∃ before a after, arguments = before ++ a :: after ∧
      d ∈ checkArgument kind (before.foldl (Seen.add kind) seen) a := by
  induction arguments generalizing seen with
  | nil => cases h
  | cons a rest ih =>
    rcases List.mem_append.mp h with h | h
    · exact ⟨[], a, rest, rfl, h⟩
    · obtain ⟨before, b, after, rfl, hFinding⟩ := ih h
      exact ⟨a :: before, b, after, rfl, hFinding⟩

/-! ## The findings of a source -/

/-- The finding shows in the source what it is about: the argument at fault, or a tag by its name. -/
def Diagnostic.Shows (options : ValidationOptions) (source : List Char) (owner : Declaration)
    (tag : DocTag) (d : Diagnostic) : Prop :=
  ∃ kind, options.registry.lookup tag.name = some kind ∧
    match d.kind with
    | .missingArguments =>
      tag.arguments = [] ∧ ∃ more, d.span.text? source = some (tag.name.toList ++ more)
    | .inapplicableTag =>
      kind.isApplicable owner = false ∧ ∃ more, d.span.text? source = some (tag.name.toList ++ more)
    | .parsingError => False
    | _ =>
      ∃ before a after, tag.arguments = before ++ a :: after ∧
        d ∈ checkArgument kind (Seen.after kind before) a ∧ d.span.text? source = some a.word

theorem shows_of_mem_checkArgument {options : ValidationOptions} {source : List Char}
    {owner : Declaration} {tag : DocTag} {kind : TagKind} {before after : List Argument}
    {a : Argument} {d : Diagnostic} (hKind : options.registry.lookup tag.name = some kind)
    (hSplit : tag.arguments = before ++ a :: after)
    (hFinding : d ∈ checkArgument kind (Seen.after kind before) a)
    (hText : d.span.text? source = some a.word) : d.Shows options source owner tag := by
  refine ⟨kind, hKind, ?_⟩
  have hAbout := (mem_checkArgument hFinding).2.1
  cases hd : d.kind with
  | missingArguments | inapplicableTag | parsingError =>
    rw [hd] at hAbout
    cases hAbout
  | negatedWildcard | misplacedWildcard | unknownItem | redundantItem | negationWithoutWildcard
  | duplicateItem => exact ⟨before, a, after, hSplit, hFinding, hText⟩

theorem checkTag_shows {options : ValidationOptions} {source : List Char} {owner : Declaration}
    {tag : DocTag} (hTag : tag.Placed source) {d : Diagnostic}
    (h : d ∈ checkTag options owner tag) :
    d.span.Fits source ∧ d.FixesItself ∧ d.Shows options source owner tag := by
  unfold checkTag at h
  obtain ⟨more, hMore⟩ := hTag.span_covers
  cases hKind : options.registry.lookup tag.name with
  | none =>
    rw [hKind] at h
    cases h
  | some kind =>
    rw [hKind] at h
    dsimp only at h
    split at h
    case isTrue hApplicable =>
      obtain rfl := List.mem_singleton.mp h
      simp only [Registry.isApplicable, Bool.and_eq_true, Bool.not_eq_true'] at hApplicable
      refine ⟨hMore.fits, by rintro fix ⟨⟩, kind, hKind, ?_⟩
      exact ⟨hApplicable.2, more, hMore.text?_eq⟩
    case isFalse =>
      unfold validate at h
      split at h
      case isTrue hEmpty =>
        obtain rfl := List.mem_singleton.mp h
        refine ⟨hMore.fits, by rintro fix ⟨⟩, kind, hKind, ?_⟩
        exact ⟨List.isEmpty_iff.mp hEmpty, more, hMore.text?_eq⟩
      case isFalse =>
        obtain ⟨before, a, after, hSplit, hFinding⟩ := mem_checkArguments h
        obtain ⟨hSpan, -, hFix⟩ := mem_checkArgument hFinding
        have hCovers := hTag.arguments_cover a (by simp [hSplit])
        rw [← hSpan] at hCovers
        exact ⟨hCovers.fits, hFix,
          shows_of_mem_checkArgument hKind hSplit hFinding hCovers.text?_eq⟩

/-- What holds of the span of an item and of each of its findings. -/
structure ItemDiagnostics.Faithful (options : ValidationOptions) (source : List Char)
    (item : ItemDiagnostics) : Prop where
  span_fits : item.span.Fits source ∧ (item.span.text? source).isSome
  findings_fit : ∀ d ∈ item.diagnostics, d.span.Fits source ∧ (d.span.text? source).isSome
  fixes : ∀ d ∈ item.diagnostics, ∀ fix ∈ d.fix, fix.remove = d.span
  shows : ∀ d ∈ item.diagnostics, d.kind ≠ .parsingError →
    ∃ owner comment tag, .commented owner comment ∈ Php.parseSource source ∧
      item.itemType = .declaration owner.kind ∧ item.name = owner.name ∧ tag ∈ comment.tags ∧
      d.Shows options source owner tag

theorem Span.Fits.text?_isSome {source : List Char} {s : Span} (h : s.Fits source) :
    (s.text? source).isSome := by
  obtain ⟨text, hCovers⟩ := h.exists_covers
  rw [hCovers.text?_eq]
  rfl

/-- What an item with findings looks like: a commented declaration or a comment that was not read. -/
theorem validateItem?_cases {options : ValidationOptions} {documented : DocumentedItem}
    {item : ItemDiagnostics} (h : validateItem? options documented = some item) :
    (∃ owner comment, documented = .commented owner comment ∧
      validateComment options owner comment ≠ [] ∧
      item = ⟨.declaration owner.kind, owner.name,
        if owner.span.isEmpty then comment.span else owner.span,
        validateComment options owner comment⟩) ∨
    (∃ error, documented = .failed error ∧
      options.minSeverity ≤ DiagnosticKind.parsingError.severity ∧
      item = ⟨.parsingError, "", error.span?.getD {},
        [.ofKind .parsingError error.message (error.span?.getD {})]⟩) := by
  cases documented with
  | commented owner comment =>
    unfold validateItem? at h
    dsimp only at h
    split at h
    · cases h
    · rename_i hSome
      rw [List.isEmpty_iff] at hSome
      exact .inl ⟨owner, comment, rfl, hSome, (Option.some.inj h).symm⟩
  | failed error =>
    unfold validateItem? at h
    dsimp only at h
    split at h
    · rename_i hGrave
      exact .inr ⟨error, rfl, hGrave, (Option.some.inj h).symm⟩
    · cases h

theorem validateItem?_fits {options : ValidationOptions} {source : List Char}
    {documented : DocumentedItem} {item : ItemDiagnostics} (hPlaced : documented.Placed source)
    (h : validateItem? options documented = some item) : item.span.Fits source := by
  rcases validateItem?_cases h with ⟨owner, comment, rfl, -, rfl⟩ | ⟨error, rfl, -, rfl⟩
  · obtain ⟨hOwner, hComment, -⟩ := hPlaced
    dsimp only
    split
    · exact hComment
    · exact hOwner
  · obtain ⟨span, reason, text, rfl, hSpan⟩ := hPlaced
    exact hSpan.fits

theorem validateItem?_faithful {options : ValidationOptions} {source : List Char}
    {documented : DocumentedItem} {item : ItemDiagnostics}
    (hMem : documented ∈ Php.parseSource source)
    (h : validateItem? options documented = some item) : item.Faithful options source := by
  have hPlaced := Php.parseSource_placed source documented hMem
  have hSpan := validateItem?_fits hPlaced h
  rcases validateItem?_cases h with ⟨owner, comment, rfl, -, rfl⟩ | ⟨error, rfl, -, rfl⟩
  · obtain ⟨-, -, hTags⟩ := hPlaced
    have hFinding : ∀ d ∈ validateComment options owner comment, ∃ tag ∈ comment.tags,
        d.span.Fits source ∧ d.FixesItself ∧ d.Shows options source owner tag := by
      intro d hd
      obtain ⟨tag, hTag, hd⟩ := List.mem_flatMap.mp (List.mem_filter.mp hd).1
      exact ⟨tag, hTag, checkTag_shows (hTags tag hTag) hd⟩
    refine ⟨⟨hSpan, hSpan.text?_isSome⟩, ?_, ?_, ?_⟩
    · intro d hd
      obtain ⟨tag, -, hFits, -, -⟩ := hFinding d hd
      exact ⟨hFits, hFits.text?_isSome⟩
    · intro d hd
      obtain ⟨tag, -, -, hFix, -⟩ := hFinding d hd
      exact hFix
    · intro d hd _
      obtain ⟨tag, hTag, -, -, hShows⟩ := hFinding d hd
      exact ⟨owner, comment, tag, hMem, rfl, rfl, hTag, hShows⟩
  · -- the finding is the item itself, with the same span and no fix
    refine ⟨⟨hSpan, hSpan.text?_isSome⟩, ?_, ?_, ?_⟩
    · intro d hd
      obtain rfl := List.mem_singleton.mp hd
      exact ⟨hSpan, hSpan.text?_isSome⟩
    · intro d hd
      obtain rfl := List.mem_singleton.mp hd
      rintro fix ⟨⟩
    · intro d hd hKind
      obtain rfl := List.mem_singleton.mp hd
      exact absurd rfl hKind

/-- **Spans of findings.** Whatever the source and the options, the span of every reported item and
finding lies in the source with both ends between characters, a fix deletes the span of its finding,
and a finding about a tag shows the argument at fault or starts with the name of the tag. -/
theorem lintSource_spans (options : ValidationOptions) (source : List Char) :
    ∀ item ∈ lintSource options source, item.Faithful options source := by
  intro item hItem
  rw [lintSource, lintItems, List.mem_mergeSort] at hItem
  obtain ⟨documented, hMem, hValid⟩ := List.mem_filterMap.mp hItem
  exact validateItem?_faithful hMem hValid

/-- A source whose only finding is about a negated item behind a character of two bytes. -/
theorem lintSource_spans_negated :
    let source := "<?php /** é\n@kphp-warn-performance !x */ fn".toList
    ∃ item ∈ lintSource {} source, item.diagnostics.length = 1 ∧ item.Faithful {} source ∧
      ∀ d ∈ item.diagnostics, d.span.text? source = some ['!', 'x'] := by
  intro source
  let item : ItemDiagnostics :=
    { itemType := .declaration .function, name := "", span := ⟨⟨42, 41, 1, 29⟩, ⟨44, 43, 1, 31⟩⟩,
      diagnostics := [unknownItemAt "x" ⟨⟨36, 35, 1, 23⟩, ⟨38, 37, 1, 25⟩⟩] }
  have hItem : item ∈ lintSource {} source := by
    rw [lintSource, Php.parseSource, complete_eq_map]
    decide +kernel
  refine ⟨item, hItem, rfl, lintSource_spans {} source item hItem, ?_⟩
  decide +kernel

end TagLint
