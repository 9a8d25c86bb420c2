import TagLint.Settings.Fields

/-!
# Values laid over each other

What a value laid over another one gives, told key by key. Two tables are laid over each other under
each key apart, so what stands at the path of a field depends only on what the two tables have there,
as long as the groups of fields are tables.

* `lookup_overlayTable`: the value under one key.
* `IsLayer.overlay`: layers laid over each other make a layer.
* `IsLayer.given?_overlay`: the value of one field.
* `IsLayer.ofValue_eq`: settings are read field by field.
-/

namespace TagLint.Settings

/-! ## Tables -/

theorem lookup_cons_eq_ite {β : Type} (key other : String) (b : β) (entries : List (String × β)) :
    List.lookup other ((key, b) :: entries) =
      if other = key then some b else List.lookup other entries := by
  by_cases h : other = key
  · rw [if_pos h, h, List.lookup_cons_self]
  · rw [if_neg h, List.lookup_cons, beq_eq_false_iff_ne.mpr h]

theorem Table.lookup_insert (key other : String) (v : Value) (t : Table) :
    (Table.insert key v t).lookup other = if other = key then some v else t.lookup other := by
  induction t with
  | nil => exact lookup_cons_eq_ite key other v []
  | cons field rest ih =>
    obtain ⟨k, w⟩ := field
    unfold Table.insert
    by_cases hSame : key = k
    · subst hSame
      rw [if_pos rfl, lookup_cons_eq_ite, lookup_cons_eq_ite]
      split
      · rfl
      · rfl
    · rw [if_neg hSame]
      split
      · rw [lookup_cons_eq_ite]
      · rw [lookup_cons_eq_ite, lookup_cons_eq_ite, ih]
        by_cases hOther : other = k
        · subst hOther
          rw [if_pos rfl, if_pos rfl, if_neg (Ne.symm hSame)]
        · rw [if_neg hOther, if_neg hOther]

theorem lookup_overlayTable (rule : ListRule) (below above : Table) (key : String) :
    (Value.overlayTable rule below above).lookup key =
      Option.merge (Value.overlay rule) (below.lookup key) (above.lookup key) := by
  induction above with
  | nil => rw [Value.overlayTable, List.lookup_nil, Option.merge_none_right]
  | cons field rest ih =>
    obtain ⟨k, v⟩ := field
    rw [Value.overlayTable, Table.lookup_insert, lookup_cons_eq_ite]
    by_cases h : key = k
    · subst h
      rw [if_pos rfl, if_pos rfl]
      cases below.lookup key with
      | none => rfl
      | some w => rfl
    · rw [if_neg h, if_neg h, ih]

/-- What holds of two values, and of what they amount to together, holds of whatever is there. -/
theorem of_merge_eq_some {α : Type} {f : α → α → α} {P : α → Prop} {below above : Option α}
    (hBelow : ∀ a, below = some a → P a) (hAbove : ∀ b, above = some b → P b)
    (h : ∀ a b, P a → P b → P (f a b)) : ∀ c, Option.merge f below above = some c → P c := by
  intro c hc
  cases below with
  | none =>
    rw [Option.merge_none_left] at hc
    exact hAbove c hc
  | some a =>
    cases above with
    | none => exact hBelow c hc
    | some b => exact Option.some.inj hc ▸ h a b (hBelow a rfl) (hAbove b rfl)

/-! ## Paths -/

namespace Value

/-- The value at the end of a path of keys. -/
def at? : List String → Value → Option Value
  | [], v => some v
  | key :: keys, .table fields => (fields.lookup key).bind (at? keys)
  | _ :: _, _ => none

def IsTable (v : Value) : Prop :=
  ∃ fields, v = .table fields

instance : DecidablePred IsTable
  | .table fields => isTrue ⟨fields, rfl⟩
  | .bool _ | .signed _ | .unsigned _ | .float _ | .string _ | .character _ | .list _ =>
    isFalse (by rintro ⟨fields, h⟩; cases h)

theorem IsTable.overlay {v w : Value} (hv : v.IsTable) (hw : w.IsTable) (rule : ListRule) :
    (v.overlay rule w).IsTable := by
  obtain ⟨below, rfl⟩ := hv
  obtain ⟨above, rfl⟩ := hw
  exact ⟨_, by rw [Value.overlay]⟩

theorem at?_key {v : Value} {fields : Table} (h : v = .table fields) (key : String) :
    v.at? [key] = fields.lookup key := by
  subst h
  rw [at?]
  cases List.lookup key fields with
  | none => rfl
  | some w => rfl

theorem at?_cons_cons (v : Value) (group key : String) :
    v.at? [group, key] = (v.at? [group]).bind (at? [key]) := by
  cases v with
  | table fields =>
    rw [at?_key rfl, at?]
  | _ => rfl

theorem at?_overlay_key {v w : Value} (hv : v.IsTable) (hw : w.IsTable) (rule : ListRule)
    (key : String) :
    (v.overlay rule w).at? [key] =
      Option.merge (Value.overlay rule) (v.at? [key]) (w.at? [key]) := by
  obtain ⟨below, rfl⟩ := hv
  obtain ⟨above, rfl⟩ := hw
  rw [at?_key (by rw [Value.overlay]) key, at?_key rfl, at?_key rfl, lookup_overlayTable]

/-! ## Values of fields -/

def bool? : Value → Option Bool
  | .bool b => some b
  | _ => none

/-- A text, or a single character. -/
def text? : Value → Option String
  | .string s => some s
  | .character c => some c.toString
  | _ => none

/-- A list of texts. -/
def texts? : Value → Option (List String)
  | .list elements => elements.mapM text?
  | _ => none

/-- The name of a severity. -/
def severity? : Value → Option Severity
  | .string name => Severity.ofExactName? name
  | _ => none

/-- A value that is neither a list nor a table takes the place of any other. -/
theorem overlay_of_not_compound {w : Value} (hList : ∀ elements, w ≠ .list elements)
    (hTable : ∀ fields, w ≠ .table fields) (rule : ListRule) (v : Value) :
    v.overlay rule w = w := by
  cases w with
  | list elements => exact absurd rfl (hList elements)
  | table fields => exact absurd rfl (hTable fields)
  | _ => cases v <;> simp [Value.overlay]

theorem texts?_overlay {v w : Value} {a b : List String} (hv : v.texts? = some a)
    (hw : w.texts? = some b) (rule : ListRule) :
    (v.overlay rule w).texts? = some (match rule with
      | .join => a ++ b
      | .replace => b) := by
  cases v with
  | list below =>
    cases w with
    | list above =>
      cases rule with
      | join =>
        simp only [texts?] at hv hw
        simp only [Value.overlay, texts?, List.mapM_append, hv, hw]
        rfl
      | replace =>
        simp only [Value.overlay]
        exact hw
    | _ => cases hw
  | _ => cases hv

end Value

/-! ## Fields -/

/-- A field of the settings: where it stands, which values it can have, and what two of them in a row
amount to. -/
structure Field (α : Type) where
  group : String
  key : String
  read? : Value → Option α
  merge : ListRule → α → α → α
  read?_overlay : ∀ {v w : Value} {a b : α}, read? v = some a → read? w = some b →
    ∀ rule, read? (v.overlay rule w) = some (merge rule a b)

namespace Field

variable {α : Type}

def path (field : Field α) : List String :=
  [field.group, field.key]

/-- The value that a layer gives to a field. -/
def given? (field : Field α) (v : Value) : Option α :=
  (v.at? field.path).bind field.read?

/-- The field has a value of its type, if it has one. -/
def Typed (field : Field α) (v : Value) : Prop :=
  ∀ w, v.at? field.path = some w → ∃ a, field.read? w = some a

instance (field : Field α) (v : Value) : Decidable (field.Typed v) :=
  decidable_of_iff (∀ w ∈ v.at? field.path, (field.read? w).isSome) (by
    simp only [Option.isSome_iff_exists]
    rfl)

/-- A field that is not a list: the later value counts. -/
def scalar (group key : String) (read? : Value → Option α)
    (h : ∀ {w a}, read? w = some a →
      (∀ elements, w ≠ .list elements) ∧ ∀ fields, w ≠ .table fields) : Field α where
  group
  key
  read?
  merge _ _ later := later
  read?_overlay := by
    intro v w a b _ hw rule
    rw [Value.overlay_of_not_compound (h hw).1 (h hw).2]
    exact hw

def flag (group key : String) : Field Bool :=
  scalar group key Value.bool? (by
    intro w a h
    cases w with
    | bool b => simp
    | _ => cases h)

def text (group key : String) : Field String :=
  scalar group key Value.text? (by
    intro w a h
    cases w with
    | string s => simp
    | character c => simp
    | _ => cases h)

def severity (group key : String) : Field Severity :=
  scalar group key Value.severity? (by
    intro w a h
    cases w with
    | string s => simp
    | _ => cases h)

/-- A list of texts, to which a later one is added. -/
def texts (group key : String) : Field (List String) where
  group
  key
  read? := Value.texts?
  merge
    | .join, earlier, later => earlier ++ later
    | .replace, _, later => later
  read?_overlay := by
    intro v w a b hv hw rule
    rw [Value.texts?_overlay hv hw]
    cases rule with
    | join => rfl
    | replace => rfl

def paths : Field (List String) := texts "kphptags" "paths"
def exclude : Field (List String) := texts "kphptags" "exclude"
def applicability : Field Bool := flag "kphptags" "applicability"
def minSeverity : Field Severity := severity "kphptags" "min_severity"
def out : Field String := text "output" "out"
def json : Field Bool := flag "output" "json"
def compact : Field Bool := flag "output" "compact"
def sort : Field Bool := flag "output" "sort"

/-- All fields, whatever their type. -/
def all : List (Σ α : Type, Field α) :=
  [⟨_, paths⟩, ⟨_, exclude⟩, ⟨_, applicability⟩, ⟨_, minSeverity⟩, ⟨_, out⟩, ⟨_, json⟩, ⟨_, compact⟩,
    ⟨_, sort⟩]

end Field

/-- A layer of settings: its groups are tables, and its fields have values of their types. -/
structure IsLayer (v : Value) : Prop where
  isTable : v.IsTable
  groups : ∀ f ∈ Field.all, ∀ w, v.at? [f.2.group] = some w → w.IsTable
  typed : ∀ f ∈ Field.all, f.2.Typed v

namespace IsLayer

instance (v : Value) : Decidable (IsLayer v) :=
  decidable_of_iff
    (v.IsTable ∧ (∀ f ∈ Field.all, ∀ w ∈ v.at? [f.2.group], w.IsTable) ∧
      ∀ f ∈ Field.all, f.2.Typed v)
    ⟨fun ⟨hTable, hGroups, hTyped⟩ => ⟨hTable, hGroups, hTyped⟩,
      fun h => ⟨h.isTable, h.groups, h.typed⟩⟩

variable {v w : Value} {α : Type}

theorem at?_overlay (hv : IsLayer v) (hw : IsLayer w) (field : Field α)
    (hField : ⟨α, field⟩ ∈ Field.all) (rule : ListRule) :
    (v.overlay rule w).at? field.path =
      Option.merge (Value.overlay rule) (v.at? field.path) (w.at? field.path) := by
  unfold Field.path
  rw [Value.at?_cons_cons, Value.at?_cons_cons v, Value.at?_cons_cons w,
    Value.at?_overlay_key hv.isTable hw.isTable]
  cases hBelow : v.at? [field.group] with
  | none => simp
  | some below =>
    cases hAbove : w.at? [field.group] with
    | none => simp
    | some above =>
      have hTable := hv.groups ⟨α, field⟩ hField below hBelow
      have hTable' := hw.groups ⟨α, field⟩ hField above hAbove
      exact Value.at?_overlay_key hTable hTable' rule field.key

theorem overlay (hv : IsLayer v) (hw : IsLayer w) (rule : ListRule) :
    IsLayer (v.overlay rule w) := by
  refine ⟨hv.isTable.overlay hw.isTable rule, ?_, ?_⟩
  · intro f hf
    rw [Value.at?_overlay_key hv.isTable hw.isTable]
    apply of_merge_eq_some (hv.groups f hf) (hw.groups f hf)
    intro below above hBelow hAbove
    exact hBelow.overlay hAbove rule
  · intro f hf
    unfold Field.Typed
    rw [hv.at?_overlay hw f.2 hf]
    apply of_merge_eq_some (hv.typed f hf) (hw.typed f hf)
    rintro below above ⟨a, ha⟩ ⟨b, hb⟩
    exact ⟨_, f.2.read?_overlay ha hb rule⟩

theorem given?_overlay (hv : IsLayer v) (hw : IsLayer w) (field : Field α)
    (hField : ⟨α, field⟩ ∈ Field.all) (rule : ListRule) :
    field.given? (v.overlay rule w) =
      Option.merge (field.merge rule) (field.given? v) (field.given? w) := by
  have hTyped : field.Typed v := hv.typed ⟨α, field⟩ hField
  have hTyped' : field.Typed w := hw.typed ⟨α, field⟩ hField
  unfold Field.given?
  rw [hv.at?_overlay hw field hField]
  cases hBelow : v.at? field.path with
  | none => simp
  | some below =>
    obtain ⟨a, ha⟩ := hTyped below hBelow
    cases hAbove : w.at? field.path with
    | none => simp [ha]
    | some above =>
      obtain ⟨b, hb⟩ := hTyped' above hAbove
      simp [ha, hb, field.read?_overlay ha hb rule]

end IsLayer

/-! ## Reading fields -/

theorem readBool_of_bool? {v : Value} {b : Bool} (h : v.bool? = some b) : readBool v = .ok b := by
  cases v with
  | bool c => exact congrArg Except.ok (Option.some.inj h)
  | _ => cases h

theorem readPath_of_text? {v : Value} {text : String} (h : v.text? = some text) :
    readPath v = .ok text := by
  cases v with
  | string s => exact congrArg Except.ok (Option.some.inj h)
  | character c => exact congrArg Except.ok (Option.some.inj h)
  | _ => cases h

theorem readPathsFrom_of_mapM {elements : List Value} {texts : List String}
    (h : elements.mapM Value.text? = some texts) (position : Nat) :
    readPathsFrom position elements = .ok texts := by
  induction elements generalizing texts position with
  | nil => exact congrArg Except.ok (Option.some.inj h)
  | cons v vs ih =>
    rw [List.mapM_cons] at h
    obtain ⟨text, hText, h⟩ := Option.bind_eq_some_iff.mp h
    obtain ⟨rest, hRest, h⟩ := Option.bind_eq_some_iff.mp h
    obtain rfl := Option.some.inj h
    rw [readPathsFrom, readPath_of_text? hText, ih hRest]
    rfl

theorem readPaths_of_texts? {v : Value} {texts : List String} (h : v.texts? = some texts) :
    readPaths v = .ok texts := by
  cases v with
  | list elements => exact readPathsFrom_of_mapM h 0
  | _ => cases h

theorem readSeverity_of_severity? {v : Value} {s : Severity} (h : v.severity? = some s) :
    readSeverity v = .ok s := by
  cases v with
  | string name =>
    have hName : Severity.ofExactName? name = some s := h
    simp only [readSeverity, readSeverityName, hName]
  | _ => cases h

namespace IsLayer

variable {v : Value} {α : Type}

theorem readField_eq (h : IsLayer v) (field : Field α) (hField : ⟨α, field⟩ ∈ Field.all)
    {inner : Table} (hGroup : v.at? [field.group] = some (.table inner))
    {read : Value → Except Error α} (hRead : ∀ {w a}, field.read? w = some a → read w = .ok a)
    {a : Option α} (ha : field.given? v = a) : readField inner field.key read = .ok a := by
  subst ha
  have hAt : v.at? field.path = inner.lookup field.key := by
    rw [Field.path, Value.at?_cons_cons, hGroup, Option.bind_some, Value.at?_key rfl]
  unfold readField Field.given?
  rw [hAt]
  cases hLookup : List.lookup field.key inner with
  | none => rfl
  | some w =>
    have hTyped : field.Typed v := h.typed ⟨α, field⟩ hField
    obtain ⟨a, ha⟩ := hTyped w (hAt.trans hLookup)
    simp only [under, hRead ha, Option.bind_some, ha]
    rfl

theorem exists_group (h : IsLayer v) (field : Field α) (hField : ⟨α, field⟩ ∈ Field.all) {a : α}
    (ha : field.given? v = some a) : ∃ inner, v.at? [field.group] = some (.table inner) := by
  obtain ⟨w, hw, -⟩ := Option.bind_eq_some_iff.mp ha
  rw [Field.path, Value.at?_cons_cons] at hw
  obtain ⟨group, hGroup, -⟩ := Option.bind_eq_some_iff.mp hw
  obtain ⟨inner, rfl⟩ := h.groups ⟨α, field⟩ hField group hGroup
  exact ⟨inner, hGroup⟩

theorem readAnalysis_eq (h : IsLayer v) {s : AnalysisSettings}
    (hPaths : Field.paths.given? v = some s.paths)
    (hExclude : Field.exclude.given? v = some s.exclude)
    (hApplicability : Field.applicability.given? v = some s.applicability)
    (hMinSeverity : Field.minSeverity.given? v = some s.minSeverity) :
    ∃ w, v.at? ["kphptags"] = some w ∧ readAnalysis w = .ok s := by
  obtain ⟨inner, hGroup⟩ := h.exists_group .paths (by simp [Field.all]) hPaths
  have hA : readField inner "applicability" readBool = .ok (some s.applicability) :=
    h.readField_eq .applicability (by simp [Field.all]) hGroup readBool_of_bool? hApplicability
  have hE : readField inner "exclude" readPaths = .ok (some s.exclude) :=
    h.readField_eq .exclude (by simp [Field.all]) hGroup readPaths_of_texts? hExclude
  have hM : readField inner "min_severity" readSeverity = .ok (some s.minSeverity) :=
    h.readField_eq .minSeverity (by simp [Field.all]) hGroup readSeverity_of_severity? hMinSeverity
  have hP : readField inner "paths" readPaths = .ok (some s.paths) :=
    h.readField_eq .paths (by simp [Field.all]) hGroup readPaths_of_texts? hPaths
  refine ⟨_, hGroup, ?_⟩
  simp only [readAnalysis, hA, hE, hM, hP]
  rfl

theorem readOutput_eq (h : IsLayer v) {s : OutputSettings} (hOut : Field.out.given? v = s.out)
    (hJson : Field.json.given? v = some s.json)
    (hCompact : Field.compact.given? v = some s.compact)
    (hSort : Field.sort.given? v = some s.sort) :
    ∃ w, v.at? ["output"] = some w ∧ readOutput w = .ok s := by
  obtain ⟨inner, hGroup⟩ := h.exists_group .json (by simp [Field.all]) hJson
  have hC : readField inner "compact" readBool = .ok (some s.compact) :=
    h.readField_eq .compact (by simp [Field.all]) hGroup readBool_of_bool? hCompact
  have hJ : readField inner "json" readBool = .ok (some s.json) :=
    h.readField_eq .json (by simp [Field.all]) hGroup readBool_of_bool? hJson
  have hO : readField inner "out" readPath = .ok s.out :=
    h.readField_eq .out (by simp [Field.all]) hGroup readPath_of_text? hOut
  have hS : readField inner "sort" readBool = .ok (some s.sort) :=
    h.readField_eq .sort (by simp [Field.all]) hGroup readBool_of_bool? hSort
  refine ⟨_, hGroup, ?_⟩
  simp only [readOutput, hC, hJ, hO, hS]
  rfl

theorem ofValue_eq (h : IsLayer v) {s : Settings}
    (hPaths : Field.paths.given? v = some s.analysis.paths)
    (hExclude : Field.exclude.given? v = some s.analysis.exclude)
    (hApplicability : Field.applicability.given? v = some s.analysis.applicability)
    (hMinSeverity : Field.minSeverity.given? v = some s.analysis.minSeverity)
    (hOut : Field.out.given? v = s.output.out)
    (hJson : Field.json.given? v = some s.output.json)
    (hCompact : Field.compact.given? v = some s.output.compact)
    (hSort : Field.sort.given? v = some s.output.sort) : ofValue v = .ok s := by
  obtain ⟨fields, rfl⟩ := h.isTable
  obtain ⟨analysis, hAnalysis, hReadAnalysis⟩ :=
    h.readAnalysis_eq hPaths hExclude hApplicability hMinSeverity
  obtain ⟨output, hOutput, hReadOutput⟩ := h.readOutput_eq hOut hJson hCompact hSort
  rw [Value.at?_key rfl] at hAnalysis hOutput
  simp only [ofValue, readField_of_lookup _ hAnalysis hReadAnalysis,
    readField_of_lookup _ hOutput hReadOutput]
  rfl

end IsLayer

end TagLint.Settings
