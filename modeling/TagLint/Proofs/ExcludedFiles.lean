import TagLint.Proofs.FailedRuns

/-!
# Excluded files

The search of a directory turns back at an excluded path, so it finds nothing at or below one unless
it has started below it; a file given by name is left out only if it is excluded itself. So an excluded
directory keeps out what lies in it, except for inputs that lie in it themselves.

* `mem_stepsBelow`: the paths that the search of a directory meets on the way to a file.
* `mem_findPhpFiles_iff`: which files are found.
* `findPhpFiles_below_iff`: which files below an excluded path are found nevertheless.
* `findPhpFiles_inputsBelow`: inputs that lie in an excluded directory find files there.
-/

namespace TagLint.Files

/-! ## Paths below paths -/

/-- The path lies below another one, at any depth. -/
def AbsolutePath.IsBelow (p directory : AbsolutePath) : Prop :=
  directory <+: p ∧ p ≠ directory

theorem AbsolutePath.IsBelow.length_lt {p directory : AbsolutePath} (h : p.IsBelow directory) :
    directory.length < p.length := by
  have hLe := h.1.length_le
  have hNe : directory.length ≠ p.length := fun hLength => h.2 (h.1.eq_of_length hLength).symm
  omega

theorem mem_stepsBelow {directory p q : AbsolutePath} (h : directory <+: p) :
    q ∈ stepsBelow directory p ↔ q.IsBelow directory ∧ q <+: p := by
  simp only [stepsBelow, List.mem_map, List.mem_range]
  constructor
  · rintro ⟨k, hk, rfl⟩
    have hLength : (p.take (directory.length + k + 1)).length = directory.length + k + 1 := by
      rw [List.length_take]
      omega
    refine ⟨⟨?_, ?_⟩, List.take_prefix _ p⟩
    · exact List.prefix_of_prefix_length_le h (List.take_prefix _ p) (by omega)
    · intro hEq
      rw [hEq] at hLength
      omega
  · rintro ⟨hBelow, hPrefix⟩
    have hLt := hBelow.length_lt
    have hLe := hPrefix.length_le
    refine ⟨q.length - directory.length - 1, by omega, ?_⟩
    rw [show directory.length + (q.length - directory.length - 1) + 1 = q.length by omega]
    exact (List.prefix_iff_eq_take.mp hPrefix).symm

/-! ## What a search reaches -/

variable {tree : FileTree} {index : IgnoreIndex} {exclude : List AbsolutePath}
  {directory p x : AbsolutePath}

theorem reaches_iff : reaches index exclude directory p = true ↔
    directory <+: p ∧ directory ∉ exclude ∧
      ∀ q : AbsolutePath, q.IsBelow directory → q <+: p →
        q ∉ exclude ∧ index.ignores q (q != p) = false := by
  simp only [reaches, Bool.and_eq_true, List.isPrefixOf_iff_prefix, Bool.not_eq_true',
    List.all_eq_true, List.contains_eq_mem, decide_eq_false_iff_not, and_assoc]
  refine and_congr_right fun hPrefix => and_congr_right fun _ => ?_
  simp only [mem_stepsBelow hPrefix, and_imp]

/-- The search of a directory comes past an excluded path only if it starts below it. -/
theorem isBelow_of_reaches (h : reaches index exclude directory p = true) (hExcluded : x ∈ exclude)
    (hPrefix : x <+: p) : directory.IsBelow x := by
  obtain ⟨hDirectory, hStart, hSteps⟩ := reaches_iff.mp h
  have hNe : directory ≠ x := by
    rintro rfl
    exact hStart hExcluded
  rcases List.prefix_or_prefix_of_prefix hPrefix hDirectory with hAbove | hBelow
  · exact ⟨hAbove, hNe⟩
  · exact absurd hExcluded (hSteps x ⟨hBelow, hNe.symm⟩ hPrefix).1

theorem mem_searchDirectory_iff : p ∈ searchDirectory tree index exclude directory ↔
    ∃ entry, (p, entry) ∈ tree.entries ∧ entry.isDirectory = false ∧ hasPhpName p = true ∧
      reaches index exclude directory p = true := by
  simp only [searchDirectory, List.mem_filterMap, Option.ite_none_right_eq_some, Bool.and_eq_true,
    Bool.not_eq_true', Option.some.injEq]
  constructor
  · rintro ⟨⟨place, entry⟩, hMem, ⟨⟨hFile, hName⟩, hReach⟩, rfl⟩
    exact ⟨entry, hMem, hFile, hName, hReach⟩
  · rintro ⟨entry, hMem, hFile, hName, hReach⟩
    exact ⟨(p, entry), hMem, ⟨⟨hFile, hName⟩, hReach⟩, rfl⟩

/-! ## The files that are found -/

theorem mem_of_resolveAll {paths : List String} {places : List AbsolutePath}
    (h : resolveAll tree paths = .ok places) :
    p ∈ places ↔ ∃ path ∈ paths, tree.resolve path = .ok p := by
  induction paths generalizing places with
  | nil =>
    obtain rfl : [] = places := Except.ok.inj h
    simp
  | cons path paths ih =>
    rw [resolveAll_cons] at h
    cases hPath : tree.resolve path with
    | error failure =>
      rw [hPath] at h
      cases h
    | ok place =>
      cases hRest : resolveAll tree paths with
      | error e =>
        rw [hPath, hRest] at h
        cases h
      | ok rest =>
        rw [hPath, hRest] at h
        obtain rfl : place :: rest = places := Except.ok.inj h
        simp [hPath, ih hRest, eq_comm]

/-- The files of a successful search are the files given by name, unless they are excluded
themselves, and those that the searches of the directories reach. -/
theorem mem_findPhpFiles_iff {paths exclude : List String} {sort : Bool} {files : List AbsolutePath}
    (h : findPhpFiles tree paths exclude sort = .ok files) :
    ∃ excluded inputs, resolveAll tree exclude = .ok excluded ∧
      resolveAll tree paths = .ok inputs ∧
      ∀ p, p ∈ files ↔
        (p ∈ inputs ∧ tree.isDirectory p = false ∧ hasPhpExtension p = true ∧ p ∉ excluded) ∨
          ∃ directory ∈ inputs, tree.isDirectory directory = true ∧
            p ∈ searchDirectory tree (.ofTree tree) excluded directory := by
  unfold findPhpFiles at h
  cases hExclude : resolveAll tree exclude with
  | error e =>
    rw [hExclude] at h
    cases h
  | ok excluded =>
    cases hPaths : resolveAll tree paths with
    | error e =>
      rw [hExclude, hPaths] at h
      cases h
    | ok inputs =>
      rw [hExclude, hPaths] at h
      obtain rfl := Except.ok.inj h
      refine ⟨excluded, inputs, rfl, rfl, fun p => ?_⟩
      cases sort <;>
        simp [and_assoc]

/-! ## Files below excluded paths -/

/-- Whether given by name or found by a search, a file at or below an excluded path lies below it, and
so does the input that it comes from. -/
theorem exists_input_below {excluded inputs : List AbsolutePath} (hExcluded : x ∈ excluded)
    (hPrefix : x <+: p)
    (h : (p ∈ inputs ∧ tree.isDirectory p = false ∧ hasPhpExtension p = true ∧ p ∉ excluded) ∨
      ∃ directory ∈ inputs, tree.isDirectory directory = true ∧
        p ∈ searchDirectory tree index excluded directory) :
    ∃ place ∈ inputs, place.IsBelow x ∧ place <+: p := by
  rcases h with ⟨hInput, -, -, hKept⟩ | ⟨directory, hInput, -, hFound⟩
  · refine ⟨p, hInput, ⟨hPrefix, ?_⟩, List.prefix_refl p⟩
    rintro rfl
    exact hKept hExcluded
  · obtain ⟨-, -, -, -, hReach⟩ := mem_searchDirectory_iff.mp hFound
    exact ⟨directory, hInput, isBelow_of_reaches hReach hExcluded hPrefix, (reaches_iff.mp hReach).1⟩

/-- **Excluded files.** No file that is found is excluded itself. It lies below an excluded path
exactly if it comes from an input that does: a file given by name, or a directory whose search has
started there. -/
theorem findPhpFiles_below_iff {paths exclude : List String} {sort : Bool}
    {files : List AbsolutePath} (h : findPhpFiles tree paths exclude sort = .ok files) :
    ∀ path ∈ exclude, ∃ x, tree.resolve path = .ok x ∧ ∀ file ∈ files, file ≠ x ∧
      (file.IsBelow x ↔ ∃ input ∈ paths, ∃ place, tree.resolve input = .ok place ∧
        place.IsBelow x ∧ place <+: file) := by
  obtain ⟨excluded, inputs, hExclude, hInputs, hFiles⟩ := mem_findPhpFiles_iff h
  intro path hPath
  obtain ⟨x, hx⟩ := resolve_of_resolveAll hExclude path hPath
  have hExcluded : x ∈ excluded := (mem_of_resolveAll hExclude).mpr ⟨path, hPath, hx⟩
  refine ⟨x, hx, fun file hFile => ?_⟩
  have hBelow : x <+: file → ∃ input ∈ paths, ∃ place, tree.resolve input = .ok place ∧
      place.IsBelow x ∧ place <+: file := by
    intro hPrefix
    obtain ⟨place, hPlace, hBelow, hAbove⟩ :=
      exists_input_below hExcluded hPrefix ((hFiles file).mp hFile)
    obtain ⟨input, hInput, hResolve⟩ := (mem_of_resolveAll hInputs).mp hPlace
    exact ⟨input, hInput, place, hResolve, hBelow, hAbove⟩
  have hStrict : ∀ place : AbsolutePath, place.IsBelow x → place <+: file → file.IsBelow x := by
    intro place hPlace hAbove
    have hLt := hPlace.length_lt
    have hLe := hAbove.length_le
    refine ⟨hPlace.1.trans hAbove, ?_⟩
    rintro rfl
    omega
  constructor
  · rintro rfl
    obtain ⟨-, -, place, -, hPlace, hAbove⟩ := hBelow (List.prefix_refl file)
    exact (hStrict place hPlace hAbove).2 rfl
  · constructor
    · intro hFileBelow
      exact hBelow hFileBelow.1
    · rintro ⟨-, -, place, -, hPlace, hAbove⟩
      exact hStrict place hPlace hAbove

/-- A project whose code of others is excluded. -/
def vendorTree : FileTree :=
  { entries := [(["src", "a.php"], .file .empty), (["vendor", "lib", "c.php"], .file .empty)] }

/-- The search of the project leaves the excluded directory out. -/
theorem findPhpFiles_below_iff_project :
    let files : List AbsolutePath := [["src", "a.php"]]
    findPhpFiles vendorTree ["/"] ["vendor"] true = .ok files ∧
      ∃ x, vendorTree.resolve "vendor" = .ok x ∧
        ∀ file ∈ files, file ≠ x ∧ ¬ file.IsBelow x := by
  intro files
  have hFiles : findPhpFiles vendorTree ["/"] ["vendor"] true = .ok files := by decide +kernel
  have hRoot : vendorTree.resolve "/" = .ok [] := by decide +kernel
  obtain ⟨x, hx, hFound⟩ := findPhpFiles_below_iff hFiles "vendor" List.mem_cons_self
  refine ⟨hFiles, x, hx, fun file hFile => ?_⟩
  obtain ⟨hNe, hBelow⟩ := hFound file hFile
  refine ⟨hNe, ?_⟩
  rw [hBelow]
  -- the only input is the root, which lies below nothing
  rintro ⟨input, hInput, place, hPlace, hInputBelow, -⟩
  obtain rfl := List.mem_singleton.mp hInput
  obtain rfl : [] = place := Except.ok.inj (hRoot.symm.trans hPlace)
  exact absurd hInputBelow.length_lt (Nat.not_lt_zero _)

/-- A file given by name and the search of a directory that lies in an excluded one find files
there. -/
theorem findPhpFiles_inputsBelow :
    let file : AbsolutePath := ["vendor", "lib", "c.php"]
    findPhpFiles vendorTree ["vendor/lib/c.php"] ["vendor"] true = .ok [file] ∧
      findPhpFiles vendorTree ["vendor/lib"] ["vendor"] true = .ok [file] ∧
      ∃ x, vendorTree.resolve "vendor" = .ok x ∧ file.IsBelow x := by
  intro file
  have hBelow : file.IsBelow ["vendor"] := ⟨⟨["lib", "c.php"], rfl⟩, by decide⟩
  exact ⟨by decide +kernel, by decide +kernel, ["vendor"], by decide +kernel, hBelow⟩

end TagLint.Files
