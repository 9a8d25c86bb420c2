import Mathlib.Data.List.Basic
import TagLint.Proofs.Overlay
import TagLint.Settings.Layers

/-!
# Layers of settings

Where each field of the settings of a run gets its value from: a scalar field from the topmost layer
that gives it one, a list of paths from all of them. A field does not depend on any other, and keys
that name no field mean nothing.

* `given?_table`: the value that the variables together give to a field.
* `given?_layers`: the value that the layers below the command line give to a field.
* `load_layered`: the settings of a run.
-/

namespace TagLint.Settings

open Files (AbsolutePath FileTree)
open scoped List

variable {α : Type}

/-! ## Variables -/

namespace Field

/-- The value that a variable gives to a field. -/
def inVariable? (field : Field α) (entry : String × String) : Option α :=
  (Variables.single? entry.1 entry.2).bind field.given?

theorem inVariable?_of_single (field : Field α) (entry : String × String) {v : Value}
    (h : Variables.single? entry.1 entry.2 = some v) : field.inVariable? entry = field.given? v := by
  rw [inVariable?, h, Option.bind_some]

/-- The value that the variables give to a field. -/
def inVariables? (field : Field α) (environment : List (String × String)) : Option α :=
  environment.findSome? field.inVariable?

/-- The name of the variable for a field. -/
def variableName (field : Field α) : String :=
  "KT_" ++ field.group.toUpper ++ "_" ++ field.key.toUpper

end Field

/-- Variables whose values have the types of their fields, not two for one field. -/
structure IsEnvironment (environment : List (String × String)) : Prop where
  isLayer : ∀ entry ∈ environment, ∀ v, Variables.single? entry.1 entry.2 = some v → IsLayer v
  once : ∀ f ∈ Field.all, environment.Pairwise fun entry other =>
    f.2.inVariable? entry = none ∨ f.2.inVariable? other = none

instance (environment : List (String × String)) : Decidable (IsEnvironment environment) :=
  decidable_of_iff
    ((∀ entry ∈ environment, ∀ v ∈ Variables.single? entry.1 entry.2, IsLayer v) ∧
      ∀ f ∈ Field.all, environment.Pairwise fun entry other =>
        f.2.inVariable? entry = none ∨ f.2.inVariable? other = none)
    ⟨fun ⟨hLayers, hOnce⟩ => ⟨hLayers, hOnce⟩, fun h => ⟨h.isLayer, h.once⟩⟩

theorem isLayer_empty : IsLayer (.table []) := by
  decide

theorem merge_eq_or {f : α → α → α} {below above : Option α} (h : below = none ∨ above = none) :
    Option.merge f below above = below.or above := by
  rcases h with rfl | rfl
  · simp
  · simp

section Fold

variable {v : Value} {vs : List Value} (hv : IsLayer v) (hvs : ∀ w ∈ vs, IsLayer w)

include hv hvs

theorem IsLayer.foldl (rule : ListRule) : IsLayer (vs.foldl (Value.overlay rule) v) := by
  induction vs generalizing v with
  | nil => exact hv
  | cons w vs ih =>
    obtain ⟨hw, hRest⟩ := List.forall_mem_cons.mp hvs
    exact ih (hv.overlay hw rule) hRest

/-- If no two values give the field one, their order and the rule for lists do not matter. -/
theorem IsLayer.given?_foldl (field : Field α) (hField : ⟨α, field⟩ ∈ Field.all)
    (hOnce : (v :: vs).Pairwise fun u w => field.given? u = none ∨ field.given? w = none)
    (rule : ListRule) :
    field.given? (vs.foldl (Value.overlay rule) v) =
      (field.given? v).or (vs.findSome? field.given?) := by
  induction vs generalizing v with
  | nil => simp
  | cons w vs ih =>
    obtain ⟨hw, hRest⟩ := List.forall_mem_cons.mp hvs
    obtain ⟨hFirst, hOthers⟩ := List.pairwise_cons.mp hOnce
    obtain ⟨hNext, hOthers⟩ := List.pairwise_cons.mp hOthers
    have hBoth := hv.given?_overlay hw field hField rule
    rw [merge_eq_or (hFirst w List.mem_cons_self)] at hBoth
    rw [List.foldl_cons, ih (hv.overlay hw rule) hRest, hBoth, List.findSome?_cons]
    · cases field.given? w with
      | none => simp
      | some b => simp
    · apply List.pairwise_cons.mpr
      refine ⟨?_, hOthers⟩
      intro u hu
      rw [hBoth]
      rcases hFirst u (List.mem_cons_of_mem _ hu) with hNone | hNone
      · rcases hNext u hu with hNone' | hNone'
        · exact .inl (by rw [hNone, hNone', Option.or_none])
        · exact .inr hNone'
      · exact .inr hNone

end Fold

namespace IsEnvironment

variable {environment : List (String × String)}

theorem isLayer_of_mem (h : IsEnvironment environment) :
    ∀ v ∈ environment.filterMap (fun (name, text) => Variables.single? name text), IsLayer v := by
  intro v hv
  obtain ⟨entry, hEntry, hSingle⟩ := List.mem_filterMap.mp hv
  exact h.isLayer entry hEntry v hSingle

theorem isLayer_table (h : IsEnvironment environment) : IsLayer (Variables.table environment) :=
  isLayer_empty.foldl h.isLayer_of_mem .replace

theorem given?_table (h : IsEnvironment environment) (field : Field α)
    (hField : ⟨α, field⟩ ∈ Field.all) :
    field.given? (Variables.table environment) = field.inVariables? environment := by
  have hOnce : (Value.table [] :: environment.filterMap
      fun (name, text) => Variables.single? name text).Pairwise
        fun v w => field.given? v = none ∨ field.given? w = none := by
    apply List.pairwise_cons.mpr
    refine ⟨fun w _ => .inl rfl, ?_⟩
    apply (h.once ⟨α, field⟩ hField).filterMap
    intro entry other hEither v hv w hw
    rw [← field.inVariable?_of_single entry hv, ← field.inVariable?_of_single other hw]
    exact hEither
  have hFold := isLayer_empty.given?_foldl h.isLayer_of_mem field hField hOnce .replace
  rw [← List.head?_filterMap, List.filterMap_filterMap, List.head?_filterMap] at hFold
  exact hFold

end IsEnvironment

/-! ## The configuration file -/

/-- The configuration file that a path leads to has these fields. If there is none, it has no field;
otherwise it is a text without reserved keys. -/
inductive FileGives (tree : FileTree) (path : String) : Table → Prop
  | missing (h : findFile? tree path = none) : FileGives tree path []
  | text {place : AbsolutePath} {bytes : ByteArray} {text : String} {fields : Table}
      (h : findFile? tree path = some place) (hRead : tree.read place = .ok bytes)
      (hText : String.fromUTF8? bytes = some text) (hFields : Toml.parse? text.toList = some fields)
      (hBare : areBareFields fields = true) : FileGives tree path fields

theorem FileGives.fileLayer_eq {tree : FileTree} {path : String} {fields : Table}
    (h : FileGives tree path fields) : fileLayer tree path = .ok (.table fields) := by
  cases h with
  | missing h => rw [fileLayer, h]
  | text h hRead hText hFields hBare =>
    have hUnwrap : Table.unwrap? fields = some fields := unwrapFields?_of_areBareFields hBare
    simp only [fileLayer, h, hRead, fileValue, hText, Option.bind_some, hFields, hUnwrap]

/-! ## All layers -/

/-- The value of the topmost layer that gives a field one. -/
def Field.topmost? (field : Field α) (file : Value) (environment : List (String × String))
    (option : Option α) : Option α :=
  (option.or (field.inVariables? environment)).or (field.given? file)

/-- The lists of all layers in a row, from the lowest layer on. -/
def Field.joined (field : Field (List String)) (file : Value)
    (environment : List (String × String)) (more : List String) : List String :=
  (field.given? file).getD [] ++ (field.inVariables? environment).getD [] ++ more

/-- The settings that a file, variables and a command line make together. -/
def layered (file : Value) (environment : List (String × String))
    (arguments : CommandLine.Arguments) : Settings where
  analysis := {
    paths := Field.paths.joined file environment arguments.paths
    exclude := Field.exclude.joined file environment arguments.exclude
    applicability := (Field.applicability.topmost? file environment arguments.applicability).getD true
    minSeverity := (Field.minSeverity.topmost? file environment arguments.minSeverity).getD .info }
  output := {
    out := Field.out.topmost? file environment arguments.out
    json := (Field.json.topmost? file environment arguments.json).getD false
    compact := (Field.compact.topmost? file environment arguments.compact).getD false
    sort := (Field.sort.topmost? file environment arguments.sort).getD false }

theorem isLayer_defaults : IsLayer (toValue {}) := by
  decide

section Load

variable {file : Value} {environment : List (String × String)} (hFile : IsLayer file)
  (hEnvironment : IsEnvironment environment)

include hFile hEnvironment

theorem isLayer_overlayAll :
    IsLayer (overlayAll [toValue {}, file, Variables.table environment]) :=
  ((isLayer_empty.overlay isLayer_defaults .join).overlay hFile .join).overlay
    hEnvironment.isLayer_table .join

theorem given?_layers (field : Field α) (hField : ⟨α, field⟩ ∈ Field.all) :
    field.given? (overlayAll [toValue {}, file, Variables.table environment]) =
      Option.merge (field.merge .join)
        (Option.merge (field.merge .join) (field.given? (toValue {})) (field.given? file))
        (field.inVariables? environment) := by
  have hDefaults := isLayer_empty.overlay isLayer_defaults .join
  unfold overlayAll
  rw [List.foldl_cons, List.foldl_cons, List.foldl_cons, List.foldl_nil,
    (hDefaults.overlay hFile .join).given?_overlay hEnvironment.isLayer_table field hField,
    hDefaults.given?_overlay hFile field hField,
    isLayer_empty.given?_overlay isLayer_defaults field hField, hEnvironment.given?_table field hField]
  exact congrArg (fun d => Option.merge _ (Option.merge _ d _) _) (Option.merge_none_left)

/-- Of a scalar field the topmost value counts. -/
theorem given?_scalar (field : Field α) (hField : ⟨α, field⟩ ∈ Field.all)
    (hMerge : field.merge .join = fun _ later => later) :
    field.given? (overlayAll [toValue {}, file, Variables.table environment]) =
      (field.topmost? file environment none).or (field.given? (toValue {})) := by
  have hLater : ∀ below above : Option α,
      Option.merge (fun _ later => later) below above = above.or below := by
    intro below above
    cases below <;> cases above <;> rfl
  rw [given?_layers hFile hEnvironment field hField, hMerge, hLater, hLater, Field.topmost?,
    Option.none_or, Option.or_assoc]

/-- Lists of texts are joined. -/
theorem given?_texts (field : Field (List String)) (hField : ⟨_, field⟩ ∈ Field.all)
    (hMerge : field.merge .join = fun earlier later => earlier ++ later)
    (hDefault : field.given? (toValue {}) = some []) :
    field.given? (overlayAll [toValue {}, file, Variables.table environment]) =
      some (field.joined file environment []) := by
  rw [given?_layers hFile hEnvironment field hField, hMerge, hDefault, Field.joined]
  cases field.given? file <;> cases field.inVariables? environment <;> simp

theorem ofValue_overlayAll :
    ofValue (overlayAll [toValue {}, file, Variables.table environment]) =
      .ok (layered file environment {}) := by
  apply (isLayer_overlayAll hFile hEnvironment).ofValue_eq
  · exact given?_texts hFile hEnvironment .paths (by simp [Field.all]) rfl rfl
  · exact given?_texts hFile hEnvironment .exclude (by simp [Field.all]) rfl rfl
  · exact (given?_scalar hFile hEnvironment .applicability (by simp [Field.all]) rfl).trans
      Option.or_some
  · exact (given?_scalar hFile hEnvironment .minSeverity (by simp [Field.all]) rfl).trans
      Option.or_some
  · exact (given?_scalar hFile hEnvironment .out (by simp [Field.all]) rfl).trans Option.or_none
  · exact (given?_scalar hFile hEnvironment .json (by simp [Field.all]) rfl).trans Option.or_some
  · exact (given?_scalar hFile hEnvironment .compact (by simp [Field.all]) rfl).trans Option.or_some
  · exact (given?_scalar hFile hEnvironment .sort (by simp [Field.all]) rfl).trans Option.or_some

end Load

theorem Field.topmost?_eq_or (field : Field α) (file : Value) (environment : List (String × String))
    (option : Option α) :
    field.topmost? file environment option = option.or (field.topmost? file environment none) := by
  rw [topmost?, topmost?, Option.none_or, Option.or_assoc]

theorem Field.getD_topmost? (field : Field α) (file : Value) (environment : List (String × String))
    (option : Option α) (d : α) :
    (field.topmost? file environment option).getD d =
      option.getD ((field.topmost? file environment none).getD d) := by
  rw [topmost?_eq_or]
  cases option with
  | none => rfl
  | some a => rfl

theorem layered_withArguments (file : Value) (environment : List (String × String))
    (arguments : CommandLine.Arguments) :
    (layered file environment {}).withArguments arguments = layered file environment arguments := by
  simp only [layered, withArguments, Field.joined, List.append_nil,
    Field.topmost?_eq_or .out _ _ arguments.out, Field.getD_topmost? _ _ _ arguments.applicability,
    Field.getD_topmost? _ _ _ arguments.minSeverity, Field.getD_topmost? _ _ _ arguments.json,
    Field.getD_topmost? _ _ _ arguments.compact, Field.getD_topmost? _ _ _ arguments.sort]

theorem load_eq_layered {tree : FileTree} {environment : List (String × String)}
    {arguments : CommandLine.Arguments} {fields : Table}
    (hFile : FileGives tree (filePath arguments environment) fields)
    (hFields : IsLayer (.table fields)) (hEnvironment : IsEnvironment environment) :
    load tree environment arguments = .ok (layered (.table fields) environment arguments) := by
  unfold load
  rw [hFile.fileLayer_eq]
  simp only [bind, Except.bind, ofValue_overlayAll hFields hEnvironment]
  exact congrArg Except.ok (layered_withArguments _ _ _)

/-! ## Keys that name no field -/

/-- A path of keys that leads neither to a field or a group nor on from a field. -/
def Apart (path : List String) : Prop :=
  ∀ f ∈ Field.all, ¬ path <+: f.2.path ∧ ¬ f.2.path <+: path

instance (path : List String) : Decidable (Apart path) :=
  inferInstanceAs (Decidable (∀ f ∈ Field.all, _))

namespace Value

theorem at?_nested_cons (key other : String) (keys others : List String) (v : Value) :
    (nested (key :: keys) v).at? (other :: others) =
      if other = key then (nested keys v).at? others else none := by
  rw [nested, at?, Table.single, lookup_cons_eq_ite, List.lookup_nil]
  split
  · rfl
  · rfl

theorem at?_nested {path query : List String} (h : ¬ path <+: query) (h' : ¬ query <+: path)
    (v : Value) : (nested path v).at? query = none := by
  induction path generalizing query with
  | nil => exact absurd List.nil_prefix h
  | cons key keys ih =>
    cases query with
    | nil => exact absurd List.nil_prefix h'
    | cons other others =>
      rw [at?_nested_cons]
      by_cases hKey : other = key
      · subst hKey
        rw [List.cons_prefix_cons, and_iff_right rfl] at h h'
        rw [if_pos rfl]
        exact ih h h'
      · rw [if_neg hKey]

theorem at?_nested_self (path : List String) (v : Value) : (nested path v).at? path = some v := by
  induction path with
  | nil => rfl
  | cons key keys ih => rw [at?_nested_cons, if_pos rfl, ih]

end Value

namespace Apart

variable {path : List String}

theorem given?_nested (h : Apart path) (field : Field α) (hField : ⟨α, field⟩ ∈ Field.all)
    (v : Value) : field.given? (.nested path v) = none := by
  obtain ⟨hBelow, hAbove⟩ := h ⟨α, field⟩ hField
  rw [Field.given?, Value.at?_nested hBelow hAbove, Option.bind_none]

theorem isLayer_nested (h : Apart path) (v : Value) : IsLayer (.nested path v) := by
  obtain ⟨key, keys, rfl⟩ : ∃ key keys, path = key :: keys := by
    apply List.exists_cons_of_ne_nil
    rintro rfl
    exact (h ⟨_, .paths⟩ (by simp [Field.all])).1 List.nil_prefix
  refine ⟨⟨_, rfl⟩, ?_, ?_⟩
  · intro f hf w hw
    rw [Value.at?_nested_cons] at hw
    split at hw
    · rename_i hKey
      -- the path goes on behind the group, since it does not end there
      cases keys with
      | nil =>
        subst hKey
        exact absurd (by simp [Field.path]) (h f hf).1
      | cons next keys => exact Option.some.inj hw ▸ ⟨_, rfl⟩
    · cases hw
  · intro f hf w hw
    rw [Value.at?_nested (h f hf).1 (h f hf).2] at hw
    cases hw

end Apart

/-- The name of a variable that gives no field a value. -/
def ApartName (name : String) : Prop :=
  ∀ path, Variables.keyPath? name = some path → Apart path

section ApartName

variable {name : String} (h : ApartName name)

include h

theorem ApartName.inVariable?_eq (field : Field α) (hField : ⟨α, field⟩ ∈ Field.all)
    (text : String) : field.inVariable? (name, text) = none := by
  unfold Field.inVariable? Variables.single?
  cases hPath : Variables.keyPath? name with
  | none => simp
  | some path => simpa using (h path hPath).given?_nested field hField _

theorem ApartName.inVariables?_eq (field : Field α) (hField : ⟨α, field⟩ ∈ Field.all)
    (before after : List (String × String)) (text : String) :
    field.inVariables? (before ++ (name, text) :: after) = field.inVariables? (before ++ after) := by
  unfold Field.inVariables?
  rw [List.findSome?_append, List.findSome?_cons, h.inVariable?_eq field hField,
    List.findSome?_append]

end ApartName

theorem layered_congr {file file' : Value} {environment environment' : List (String × String)}
    (hFile : ∀ f ∈ Field.all, f.2.given? file = f.2.given? file')
    (hEnvironment : ∀ f ∈ Field.all, f.2.inVariables? environment = f.2.inVariables? environment')
    (arguments : CommandLine.Arguments) :
    layered file environment arguments = layered file' environment' arguments := by
  simp only [Field.all, List.forall_mem_cons, List.not_mem_nil] at hFile hEnvironment
  obtain ⟨hPaths, hExclude, hApplicability, hMinSeverity, hOut, hJson, hCompact, hSort, -⟩ := hFile
  obtain ⟨hPaths', hExclude', hApplicability', hMinSeverity', hOut', hJson', hCompact', hSort', -⟩ :=
    hEnvironment
  simp only [layered, Field.joined, Field.topmost?, hPaths, hExclude, hApplicability, hMinSeverity,
    hOut, hJson, hCompact, hSort, hPaths', hExclude', hApplicability', hMinSeverity', hOut', hJson',
    hCompact', hSort']

/-! ## The settings of a run -/

theorem keyPath?_variableName : ∀ f ∈ Field.all,
    Variables.keyPath? f.2.variableName = some f.2.path := by
  decide +kernel

example : Field.all.map (·.2.variableName) = ["KT_KPHPTAGS_PATHS", "KT_KPHPTAGS_EXCLUDE",
    "KT_KPHPTAGS_APPLICABILITY", "KT_KPHPTAGS_MIN_SEVERITY", "KT_OUTPUT_OUT", "KT_OUTPUT_JSON",
    "KT_OUTPUT_COMPACT", "KT_OUTPUT_SORT"] := by
  decide +kernel

theorem inVariable?_variableName (f : Σ α : Type, Field α) (hf : f ∈ Field.all) (text : String) :
    f.2.inVariable? (f.2.variableName, text) = f.2.read? (Variables.value text) := by
  rw [Field.inVariable?, Variables.single?, keyPath?_variableName f hf, Option.map_some,
    Option.bind_some, Field.given?, Value.at?_nested_self, Option.bind_some]

theorem apartName_filePathVariable : ApartName filePathVariable := by
  have hPath : Variables.keyPath? filePathVariable = some ["config", "path"] := by decide +kernel
  intro path h
  obtain rfl := Option.some.inj (hPath.symm.trans h)
  decide +kernel

theorem IsEnvironment.of_append_cons {before after : List (String × String)}
    {entry : String × String} (h : IsEnvironment (before ++ entry :: after)) :
    IsEnvironment (before ++ after) := by
  have hSub : before ++ after <+ before ++ entry :: after :=
    (List.sublist_cons_self entry after).append_left before
  constructor
  · intro other hOther
    exact h.isLayer other (hSub.mem hOther)
  · intro f hf
    exact (h.once f hf).sublist hSub

/-- A path that names no field adds nothing to a file. -/
theorem Apart.layered_overlay {path : List String} (h : Apart path) {file : Value}
    (hFile : IsLayer file) (v : Value) (environment : List (String × String))
    (arguments : CommandLine.Arguments) :
    layered (file.overlay .join (.nested path v)) environment arguments =
      layered file environment arguments := by
  apply layered_congr
  · intro f hf
    rw [hFile.given?_overlay (h.isLayer_nested v) f.2 hf, h.given?_nested f.2 hf,
      Option.merge_none_right]
  · intro f _
    rfl

theorem filePath_append_cons {before after : List (String × String)} {name : String}
    (h : name ≠ filePathVariable) (text : String) (arguments : CommandLine.Arguments) :
    filePath arguments (before ++ (name, text) :: after) = filePath arguments (before ++ after) := by
  unfold filePath
  rw [List.lookup_append, List.lookup_append, lookup_cons_eq_ite, if_neg h.symm]

/-- **Configuration layering.** The file is the one that the command line names, else the one of its
variable, else the default. If it has no reserved keys and all values have the types of their fields,
the settings can be read: a scalar field has the value of the command line, else of its variable, else
of the file, else the default, and a list of paths is that of the file, then that of its variable,
then that of the command line. Keys that name no field have no effect, in the file or among the
variables; so the variable for the path of the file does nothing but choose it. -/
theorem load_layered {tree : FileTree} {environment : List (String × String)}
    {arguments : CommandLine.Arguments} {fields : Table}
    (hFile : FileGives tree
      ((arguments.config.or (environment.lookup "KT_CONFIG_PATH")).getD ".kphptags.toml") fields)
    (hFields : IsLayer (.table fields)) (hEnvironment : IsEnvironment environment) :
    load tree environment arguments = .ok (layered (.table fields) environment arguments) ∧
    (∀ f ∈ Field.all, ∀ text,
      f.2.inVariable? (f.2.variableName, text) = f.2.read? (Variables.value text)) ∧
    ApartName "KT_CONFIG_PATH" ∧
    (∀ before name text after, environment = before ++ (name, text) :: after → ApartName name →
      layered (.table fields) (before ++ after) arguments =
          layered (.table fields) environment arguments ∧
        (name ≠ "KT_CONFIG_PATH" →
          load tree (before ++ after) arguments = load tree environment arguments)) ∧
    ∀ path v tree' fields', Apart path →
      .table fields' = (Value.table fields).overlay .join (.nested path v) →
      FileGives tree' (filePath arguments environment) fields' →
      load tree' environment arguments = load tree environment arguments := by
  have hLoad := load_eq_layered hFile hFields hEnvironment
  refine ⟨hLoad, inVariable?_variableName, apartName_filePathVariable, ?_, ?_⟩
  · rintro before name text after rfl hName
    have hSame : layered (.table fields) (before ++ after) arguments =
        layered (.table fields) (before ++ (name, text) :: after) arguments := by
      apply layered_congr
      · intro f _
        rfl
      · intro f hf
        exact (hName.inVariables?_eq f.2 hf before after text).symm
    refine ⟨hSame, ?_⟩
    intro hOther
    have hFile' : FileGives tree (filePath arguments (before ++ after)) fields := by
      rw [← filePath_append_cons hOther text arguments]
      exact hFile
    rw [hLoad, ← hSame]
    exact load_eq_layered hFile' hFields hEnvironment.of_append_cons
  · intro path v tree' fields' hApart hMore hFile'
    have hFields' : IsLayer (.table fields') := by
      rw [hMore]
      exact hFields.overlay (hApart.isLayer_nested v) .join
    rw [hLoad, load_eq_layered hFile' hFields' hEnvironment, hMore, hApart.layered_overlay hFields]

/-- A file that a variable names, variables for two fields and for none, and a command line. -/
theorem load_layered_named :
    let text := "[kphptags]\npaths = [\"a\"]\nmin_severity = \"error\"\n[output]\njson = true\nx = 1\n"
    let tree : FileTree := { entries := [(["c.toml"], .file text.toUTF8)] }
    let environment := [("KT_KPHPTAGS_PATHS", "[b]"), ("KT_CONFIG_PATH", "c.toml"),
      ("KT_OUTPUT_JSON", "false"), ("KT_OUTPUT_X", "2")]
    load tree environment { paths := ["c"], sort := some true } =
      .ok { analysis := { paths := ["a", "b", "c"], minSeverity := .error }
            output := { sort := true } } := by
  intro text tree environment
  obtain ⟨fields, hFields⟩ : ∃ fields, Toml.parse? text.toList = some fields :=
    Option.isSome_iff_exists.mp (by decide +kernel)
  have hAll : ∀ fields ∈ Toml.parse? text.toList, areBareFields fields = true ∧
      IsLayer (.table fields) ∧
      layered (.table fields) environment { paths := ["c"], sort := some true } =
        { analysis := { paths := ["a", "b", "c"], minSeverity := .error }
          output := { sort := true } } := by
    decide +kernel
  obtain ⟨hBare, hLayer, hSettings⟩ := hAll fields hFields
  have hFound : findFile? tree "c.toml" = some ["c.toml"] := by decide +kernel
  have hText : String.fromUTF8? text.toUTF8 = some text := by decide +kernel
  have hFile : FileGives tree "c.toml" fields := .text hFound rfl hText hFields hBare
  rw [(load_layered hFile hLayer (by decide +kernel)).1, hSettings]

/-- A key that names no field is in the way if it is reserved. -/
theorem load_reservedKeys :
    let files := ["[output]\n___figment_value_id = 3\n", "[output]\n___figment_value_value = 3\n"]
    files.map (fun text => load { entries := [([".kphptags.toml"], .file text.toUTF8)] } [] {}) =
        [.error { fault := .unreadable },
          .error { path := ["output"]
                   fault := .invalidType "signed int `3`" "struct OutputConfig" }] ∧
      (∀ text ∈ files, ∃ fields, Toml.parse? text.toList = some fields ∧ IsLayer (.table fields)) ∧
      Apart ["output", "___figment_value_id"] ∧ Apart ["output", "___figment_value_value"] ∧
      load { entries := [([".kphptags.toml"], .file "[output]\n".toUTF8)] } [] {} = .ok {} := by
  intro files
  refine ⟨by decide +kernel, ?_, by decide +kernel, by decide +kernel, by decide +kernel⟩
  intro text hText
  have hAll : ∀ text ∈ files, (Toml.parse? text.toList).isSome = true ∧
      ∀ fields ∈ Toml.parse? text.toList, IsLayer (.table fields) := by
    decide +kernel
  obtain ⟨hSome, hLayer⟩ := hAll text hText
  obtain ⟨fields, hFields⟩ := Option.isSome_iff_exists.mp hSome
  exact ⟨fields, hFields, hLayer fields hFields⟩

end TagLint.Settings
