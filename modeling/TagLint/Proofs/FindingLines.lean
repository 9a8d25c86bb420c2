import TagLint.Proofs.SourceOrder
import TagLint.Report

/-!
# Findings and lines

Compact reports have one line a finding, and labelled reports one line an item. For the latter this
holds of any value, since line feeds are escaped. For the former it holds because a finding takes
nothing from the source but the words of one line.

* `Json.oneLine_compact`: a value without space is one line.
* `lintSource_oneLine`: the line of every finding is one line.
-/

namespace TagLint

/-- A text without line feeds. -/
def OneLine (text : String) : Prop :=
  '\n' ∉ text.toList

instance (text : String) : Decidable (OneLine text) :=
  inferInstanceAs (Decidable ('\n' ∉ text.toList))

@[simp]
theorem oneLine_append {a b : String} : OneLine (a ++ b) ↔ OneLine a ∧ OneLine b := by
  simp [OneLine]

theorem oneLine_ofList {cs : List Char} : OneLine (String.ofList cs) ↔ '\n' ∉ cs := by
  simp [OneLine]

theorem oneLine_toString (n : Nat) : OneLine (toString n) := by
  change OneLine (String.ofList (Nat.toDigits 10 n))
  rw [oneLine_ofList]
  intro hMem
  have hDigit := Nat.isDigit_of_mem_toDigits (by decide) (by decide) hMem
  cases hDigit

theorem oneLine_intercalate {separator : String} (hSeparator : OneLine separator)
    {texts : List String} (h : ∀ text ∈ texts, OneLine text) :
    OneLine (separator.intercalate texts) := by
  induction texts with
  | nil =>
    rw [String.intercalate_nil]
    decide
  | cons text texts ih =>
    obtain ⟨hText, hTexts⟩ := List.forall_mem_cons.mp h
    cases texts with
    | nil => rwa [String.intercalate_singleton]
    | cons next texts =>
      rw [String.intercalate_cons_cons, oneLine_append, oneLine_append]
      exact ⟨⟨hText, hSeparator⟩, ih hTexts⟩

/-! ## Data -/

namespace Json

theorem escapeChar_oneLine (c : Char) : '\n' ∉ escapeChar c := by
  have hDigits : ∀ n < 0x20, '\n' ∉ Text.hexDigits n := by decide
  unfold escapeChar
  split
  case h_8 hFeed _ _ =>
    split
    case isTrue hLow => simp [hDigits c.toNat (by omega)]
    case isFalse =>
      split
      case isTrue hLow => simp [hDigits c.toNat hLow]
      case isFalse => simpa using Ne.symm hFeed
  all_goals decide

theorem oneLine_string (s : String) : OneLine (string s) := by
  rw [string, oneLine_ofList]
  simp [escapeChar_oneLine]

mutual

theorem oneLine_compact (v : Json) : OneLine v.compact := by
  cases v with
  | bool b => cases b <;> decide
  | nat n => exact oneLine_toString n
  | str s => exact oneLine_string s
  | arr elements =>
    have hElements := oneLine_intercalate (by decide : OneLine ",") (oneLine_compactElements elements)
    simp only [compact, oneLine_append]
    exact ⟨⟨by decide, hElements⟩, by decide⟩
  | obj fields =>
    have hFields := oneLine_intercalate (by decide : OneLine ",") (oneLine_compactFields fields)
    simp only [compact, oneLine_append]
    exact ⟨⟨by decide, hFields⟩, by decide⟩

theorem oneLine_compactElements (elements : List Json) :
    ∀ text ∈ compactElements elements, OneLine text := by
  cases elements with
  | nil => simp [compactElements]
  | cons v rest =>
    rw [compactElements]
    exact List.forall_mem_cons.mpr ⟨oneLine_compact v, oneLine_compactElements rest⟩

theorem oneLine_compactFields (fields : List (String × Json)) :
    ∀ text ∈ compactFields fields, OneLine text := by
  cases fields with
  | nil => simp [compactFields]
  | cons field rest =>
    obtain ⟨key, v⟩ := field
    have hField : OneLine (string key ++ ":" ++ compact v) := by
      simp only [oneLine_append]
      exact ⟨⟨oneLine_string key, by decide⟩, oneLine_compact v⟩
    rw [compactFields]
    exact List.forall_mem_cons.mpr ⟨hField, oneLine_compactFields rest⟩

end

end Json

/-! ## Words -/

theorem Argument.name_subset_word (a : Argument) : a.name.toList ⊆ a.word := by
  unfold word
  split
  · exact List.subset_cons_self _ _
  · exact List.Subset.refl _

namespace DocComment

theorem scanArguments_oneLine {offset : Nat} {cs : List Char} {a : Argument}
    (h : a ∈ scanArguments offset cs) : OneLine a.name := by
  induction lineWords cs generalizing offset with
  | ending hBlanks hTail =>
    rw [scanArguments_ending hBlanks hTail] at h
    cases h
  | word hBlanks hNe hWord _ ih =>
    rw [scanArguments_word hBlanks hNe hWord] at h
    rcases List.mem_cons.mp h with rfl | h
    · intro hFeed
      have hMem := Argument.name_subset_word _ hFeed
      rw [Argument.word_ofWord] at hMem
      have hBlank := hWord.all _ hMem
      revert hBlank
      decide
    · exact ih h

theorem scanLines_oneLine {offset : Nat} {ls : List (List Char)} {tag : DocTag}
    (h : tag ∈ scanLines offset ls) : ∀ a ∈ tag.arguments, OneLine a.name := by
  induction ls generalizing offset with
  | nil => cases h
  | cons line ls ih =>
    rcases List.mem_append.mp h with h | h
    · rw [Option.mem_toList, scanLine?] at h
      intro a ha
      rcases content_cases (lineContent line) with
        ⟨letters, rest, hContent, hNe, hLetters⟩ | ⟨rest, hContent, hRest⟩ | hContent
      · rw [hContent, scanTag?_letters hNe hLetters] at h
        obtain rfl := Option.some.inj h
        exact scanArguments_oneLine ha
      · rw [hContent, scanTag?_no_letters hRest] at h
        cases h
      · rw [scanTag?_no_sign hContent] at h
        cases h
    · exact ih h

theorem parse_oneLine {text : List Char} {offset : Nat} {comment : DocComment}
    (h : parse text offset = .ok comment) :
    ∀ tag ∈ comment.tags, ∀ a ∈ tag.arguments, OneLine a.name := by
  obtain ⟨body, -, rfl⟩ := exists_body_of_parse h
  intro tag hTag
  exact scanLines_oneLine hTag

end DocComment

/-- What the findings about an item take from the source stays on one line. -/
def DocumentedItem.OneLine : DocumentedItem → Prop
  | .commented _ comment => ∀ tag ∈ comment.tags, ∀ a ∈ tag.arguments, TagLint.OneLine a.name
  | .failed error => TagLint.OneLine error.message

theorem Php.parseSource_oneLine (source : List Char) :
    ∀ documented ∈ parseSource source, documented.OneLine := by
  intro documented hDocumented
  obtain ⟨raw, -, ⟨comment, hParse, rfl⟩ | rfl⟩ := parseSource_cases hDocumented
  · -- completion of positions keeps the names
    intro tag' hTag' a' ha'
    obtain ⟨tag, hTag, rfl⟩ := List.mem_map.mp hTag'
    obtain ⟨a, ha, rfl⟩ := List.mem_map.mp ha'
    exact DocComment.parse_oneLine hParse tag hTag a ha
  · change TagLint.OneLine ("error parsing a doc comment: " ++ DocComment.delimitersRequired)
    decide

/-! ## Findings -/

theorem Position.oneLine_display (p : Position) : OneLine p.display := by
  simp only [display, oneLine_append]
  exact ⟨⟨oneLine_toString _, by decide⟩, oneLine_toString _⟩

theorem oneLine_compactLine {d : Diagnostic} (hMessage : OneLine d.message)
    (hFix : ∀ fix ∈ d.fix, OneLine fix.message) : OneLine (compactLine d) := by
  have hStart : OneLine d.span.start.display := d.span.start.oneLine_display
  have hSeverity : OneLine d.severity.name := by cases d.severity <;> decide
  have hKind : OneLine d.kind.name := by cases d.kind <;> decide
  have hNote : OneLine (fixNote d) := by
    unfold fixNote
    cases hSome : d.fix with
    | none => decide
    | some fix =>
      simp only [oneLine_append]
      exact ⟨⟨by decide, hFix fix hSome⟩, by decide⟩
  simp only [compactLine, oneLine_append, hStart, hSeverity, hKind, hMessage, hNote]
  decide

theorem oneLine_ofKind {message : String} (h : OneLine message) (kind : DiagnosticKind)
    (span : Span) : OneLine (compactLine (.ofKind kind message span)) :=
  oneLine_compactLine h (by rintro fix ⟨⟩)

theorem oneLine_removable {message label : String} (h : OneLine message) (hLabel : OneLine label)
    (kind : DiagnosticKind) (span : Span) :
    OneLine (compactLine ((Diagnostic.ofKind kind message span).removable label)) :=
  oneLine_compactLine h (by rintro fix ⟨⟩; exact hLabel)

theorem checkArgument_oneLine {kind : TagKind} {seen : Seen} {a : Argument} {d : Diagnostic}
    (hName : OneLine a.name) (h : d ∈ checkArgument kind seen a) : OneLine (compactLine d) := by
  unfold checkArgument at h
  split at h
  · rcases List.mem_append.mp h with h | h
    · obtain rfl := eq_of_mem_findingIf h
      exact oneLine_ofKind (by decide) _ _
    · obtain rfl := eq_of_mem_findingIf h
      exact oneLine_ofKind (by decide) _ _
  · split at h
    · rcases List.mem_append.mp h with h | h
      · rcases List.mem_append.mp h with h | h
        · obtain rfl := eq_of_mem_findingIf h
          exact oneLine_removable (by decide) (oneLine_append.mpr ⟨by decide, hName⟩) _ _
        · obtain rfl := eq_of_mem_findingIf h
          exact oneLine_ofKind (by decide) _ _
      · obtain rfl := eq_of_mem_findingIf h
        exact oneLine_removable (by decide) (oneLine_append.mpr ⟨by decide, hName⟩) _ _
    · obtain rfl := List.mem_singleton.mp h
      have hMessage : OneLine ("unknown item `" ++ a.name ++ "`") := by
        simp only [oneLine_append]
        exact ⟨⟨by decide, hName⟩, by decide⟩
      exact oneLine_removable hMessage (oneLine_append.mpr ⟨by decide, hName⟩) _ _

theorem checkTag_oneLine {options : ValidationOptions} {owner : Declaration} {tag : DocTag}
    (hNames : ∀ a ∈ tag.arguments, OneLine a.name) {d : Diagnostic}
    (h : d ∈ checkTag options owner tag) : OneLine (compactLine d) := by
  unfold checkTag at h
  split at h
  · cases h
  · rename_i kind _
    split at h
    · obtain rfl := List.mem_singleton.mp h
      have hKind : OneLine kind.name := by cases kind <;> decide
      exact oneLine_ofKind (oneLine_append.mpr ⟨hKind, by decide⟩) _ _
    · unfold validate at h
      split at h
      · obtain rfl := List.mem_singleton.mp h
        exact oneLine_ofKind (by decide) _ _
      · obtain ⟨before, a, after, hSplit, hFinding⟩ := mem_checkArguments h
        exact checkArgument_oneLine (hNames a (by simp [hSplit])) hFinding

theorem validateItem?_oneLine {options : ValidationOptions} {documented : DocumentedItem}
    (hOneLine : documented.OneLine) {item : ItemDiagnostics}
    (h : validateItem? options documented = some item) :
    ∀ d ∈ item.diagnostics, OneLine (compactLine d) := by
  intro d hd
  rcases validateItem?_cases h with ⟨owner, comment, rfl, -, rfl⟩ | ⟨error, rfl, -, rfl⟩
  · obtain ⟨tag, hTag, hFinding⟩ := List.mem_flatMap.mp (List.mem_of_mem_filter hd)
    exact checkTag_oneLine (hOneLine tag hTag) hFinding
  · obtain rfl := List.mem_singleton.mp hd
    exact oneLine_ofKind hOneLine _ _

theorem lintSource_oneLine (options : ValidationOptions) (source : List Char) :
    ∀ item ∈ lintSource options source, ∀ d ∈ item.diagnostics, OneLine (compactLine d) := by
  intro item hItem
  rw [lintSource, lintItems, List.mem_mergeSort] at hItem
  obtain ⟨documented, hDocumented, hFound⟩ := List.mem_filterMap.mp hItem
  exact validateItem?_oneLine (Php.parseSource_oneLine source documented hDocumented) hFound

end TagLint
