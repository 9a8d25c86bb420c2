import Mathlib.Data.List.Nodup
import TagLint.Proofs.FoundFiles

/-!
# Walks of directories

Directories are walked by several workers at once: of the paths that wait, any one may be visited
next, and what lies in a directory waits from then on. The order of the visits decides about the order
in which files are found and about nothing else.

* `Walk.perm`: what has been found and what the waiting paths still lead to is the same at any moment.
* `walked_iff`: a complete walk finds what the searches of its directories find, and in any order.
* `findPhpFiles_canonical`: what does not depend on the order of the visits.
-/

namespace TagLint.Files

open scoped List

/-! ## Trees -/

theorem AbsolutePath.IsBelow.trans {p q directory : AbsolutePath} (h : p.IsBelow q)
    (h' : q.IsBelow directory) : p.IsBelow directory := by
  refine ⟨h'.1.trans h.1, ?_⟩
  rintro rfl
  have hLt := h.length_lt
  have hLt' := h'.length_lt
  omega

theorem mem_above {p q : AbsolutePath} : q ∈ IgnoreIndex.above p ↔ p.IsBelow q := by
  simp only [IgnoreIndex.above, List.mem_map, List.mem_reverse, List.mem_range]
  constructor
  · rintro ⟨k, hk, rfl⟩
    refine ⟨List.take_prefix k p, fun hEq => ?_⟩
    have hLength := congrArg List.length hEq
    rw [List.length_take] at hLength
    omega
  · intro h
    exact ⟨q.length, h.length_lt, (List.prefix_iff_eq_take.mp h.1).symm⟩

namespace FileTree

/-- The entries make up a tree: no path is listed twice, and nothing lies below a file. -/
structure IsTree (tree : FileTree) : Prop where
  nodup : (tree.entries.map (·.1)).Nodup
  above : ∀ e ∈ tree.entries, ∀ q ∈ IgnoreIndex.above e.1, tree.isDirectory q = true

instance (tree : FileTree) : Decidable tree.IsTree :=
  decidable_of_iff ((tree.entries.map (·.1)).Nodup ∧
    ∀ e ∈ tree.entries, ∀ q ∈ IgnoreIndex.above e.1, tree.isDirectory q = true)
    ⟨fun h => ⟨h.1, h.2⟩, fun h => ⟨h.nodup, h.above⟩⟩

/-- The paths that are known to lead somewhere: the listed ones and the working directory. -/
def places (tree : FileTree) : List AbsolutePath :=
  tree.workingDirectory :: tree.entries.map (·.1)

/-- The most names on the way to a place. -/
def depth (tree : FileTree) : Nat :=
  (tree.places.map List.length).max?.getD 0

/-- What lies directly in a directory. -/
def contents (tree : FileTree) (directory : AbsolutePath) : List AbsolutePath :=
  ((tree.places.filter fun p => directory.isPrefixOf p && p != directory).map
    (·.take (directory.length + 1))).eraseDups

variable {tree : FileTree} {directory p q : AbsolutePath} {entry : Entry}

theorem mem_contents : q ∈ tree.contents directory ↔
    ∃ p ∈ tree.places, p.IsBelow directory ∧ q = p.take (directory.length + 1) := by
  simp only [contents, List.mem_eraseDups, List.mem_map, List.mem_filter, Bool.and_eq_true,
    List.isPrefixOf_iff_prefix, bne_iff_ne, AbsolutePath.IsBelow, and_assoc]
  refine exists_congr fun p => and_congr_right fun _ => and_congr_right fun _ =>
    and_congr_right fun _ => eq_comm

theorem length_of_mem_contents (h : q ∈ tree.contents directory) :
    q.length = directory.length + 1 := by
  obtain ⟨p, -, hBelow, rfl⟩ := mem_contents.mp h
  have hLt := hBelow.length_lt
  rw [List.length_take]
  omega

theorem isBelow_of_mem_contents (h : q ∈ tree.contents directory) : q.IsBelow directory := by
  obtain ⟨p, -, ⟨⟨rest, rfl⟩, -⟩, rfl⟩ := mem_contents.mp h
  refine ⟨?_, fun hEq => ?_⟩
  · rw [List.take_length_add_append]
    exact List.prefix_append _ _
  · have hLength := length_of_mem_contents h
    rw [hEq] at hLength
    omega

theorem length_le_depth (h : q ∈ tree.contents directory) : q.length ≤ tree.depth := by
  obtain ⟨p, hPlace, -, rfl⟩ := mem_contents.mp h
  have hLe : p.length ≤ tree.depth := List.le_max?_getD_of_mem (List.mem_map_of_mem hPlace)
  exact Nat.le_trans (List.take_prefix _ p).length_le hLe

theorem IsTree.isDirectory_eq (hTree : tree.IsTree) (h : (p, entry) ∈ tree.entries) :
    tree.isDirectory p = entry.isDirectory := by
  have hLookup : tree.entries.lookup p = some entry := by
    obtain ⟨front, back, hSplit⟩ := List.append_of_mem h
    refine List.lookup_eq_some_iff.mpr ⟨front, back, hSplit, fun e he => ?_⟩
    have hNodup := hTree.nodup
    rw [hSplit, List.map_append, List.map_cons, List.nodup_append] at hNodup
    rw [bne_iff_ne]
    exact (hNodup.2.2 e.1 (List.mem_map_of_mem he) p List.mem_cons_self).symm
  simp [isDirectory, entry?, hLookup]

theorem IsTree.isDirectory_of_isBelow (hTree : tree.IsTree) (h : (p, entry) ∈ tree.entries)
    (hBelow : p.IsBelow q) : tree.isDirectory q = true :=
  hTree.above _ h q (mem_above.mpr hBelow)

/-- Of the paths on the way to a listed file, all but the file itself are directories. -/
theorem IsTree.isDirectory_eq_bne (hTree : tree.IsTree) (h : (p, entry) ∈ tree.entries)
    (hFile : entry.isDirectory = false) (hPrefix : q <+: p) : tree.isDirectory q = (q != p) := by
  by_cases hEq : q = p
  · simp [hEq, hTree.isDirectory_eq h, hFile]
  · rw [hTree.isDirectory_of_isBelow h ⟨hPrefix, Ne.symm hEq⟩, bne_iff_ne.mpr hEq]

/-- What lies in a directory and is no directory itself is a listed file. -/
theorem mem_entries_of_mem_contents (h : q ∈ tree.contents directory)
    (hFile : tree.isDirectory q = false) : ∃ entry, (q, entry) ∈ tree.entries ∧
      entry.isDirectory = false := by
  unfold isDirectory entry? at hFile
  cases hLookup : tree.entries.lookup q with
  | some entry =>
    exact ⟨entry, mem_of_lookup hLookup, by simpa [hLookup] using hFile⟩
  | none =>
    -- it lies on the way to a place, so it would be a directory
    obtain ⟨p, hPlace, -, rfl⟩ := mem_contents.mp h
    have hAbove := List.take_prefix (directory.length + 1) p
    rcases List.mem_cons.mp hPlace with rfl | hPlace
    · simp [hLookup, hAbove, Entry.isDirectory] at hFile
    · obtain ⟨e, he, rfl⟩ := List.mem_map.mp hPlace
      have hAny : tree.entries.any ((e.1.take (directory.length + 1)).isPrefixOf ·.1) = true :=
        List.any_eq_true.mpr ⟨e, he, List.isPrefixOf_iff_prefix.mpr hAbove⟩
      simp [hLookup, hAny, Entry.isDirectory] at hFile

end FileTree

/-! ## One visit -/

/-- What a walk goes on to from a directory: the directories in it and the files with the name of a PHP
file, unless they are ignored. -/
def nextPaths (tree : FileTree) (index : IgnoreIndex) (directory : AbsolutePath) : List AbsolutePath :=
  (tree.contents directory).filter fun p =>
    !index.ignores p (tree.isDirectory p) && (tree.isDirectory p || hasPhpName p)

/-- What the visit of a path gives: the paths to visit from there, and the files found. An excluded path
gives nothing. -/
def visit (tree : FileTree) (index : IgnoreIndex) (exclude : List AbsolutePath) (p : AbsolutePath) :
    List AbsolutePath × List AbsolutePath :=
  if exclude.contains p then ([], [])
  else if tree.isDirectory p then (nextPaths tree index p, [])
  else ([], [p])

section

variable {tree : FileTree} {index : IgnoreIndex} {exclude : List AbsolutePath}
  {directory p q : AbsolutePath}

theorem mem_nextPaths : q ∈ nextPaths tree index directory ↔
    q ∈ tree.contents directory ∧ index.ignores q (tree.isDirectory q) = false ∧
      (tree.isDirectory q = true ∨ hasPhpName q = true) := by
  simp [nextPaths]

theorem searchDirectory_of_mem (h : p ∈ exclude) : searchDirectory tree index exclude p = [] := by
  rw [List.eq_nil_iff_forall_not_mem]
  intro q hq
  obtain ⟨-, -, -, -, hReach⟩ := mem_searchDirectory_iff.mp hq
  exact (reaches_iff.mp hReach).2.1 h

theorem nodup_searchDirectory (hTree : tree.IsTree) :
    (searchDirectory tree index exclude directory).Nodup := by
  refine List.Pairwise.filterMap _ ?_ (List.pairwise_map.mp hTree.nodup)
  intro e e' hNe p hp p' hp'
  rw [Option.ite_none_right_eq_some] at hp hp'
  rw [← Option.some.inj hp.2, ← Option.some.inj hp'.2]
  exact hNe

/-- A path that waits for its visit: a directory or a PHP file. -/
def IsWaiting (tree : FileTree) (p : AbsolutePath) : Prop :=
  tree.isDirectory p = true ∨
    hasPhpName p = true ∧ ∃ entry, (p, entry) ∈ tree.entries ∧ entry.isDirectory = false

theorem searchDirectory_of_file (hTree : tree.IsTree) (h : IsWaiting tree p)
    (hFile : tree.isDirectory p = false) (hKept : p ∉ exclude) :
    searchDirectory tree index exclude p = [p] := by
  obtain ⟨hName, entry, hEntry, hEntryFile⟩ := h.resolve_left (by simp [hFile])
  rw [← List.perm_singleton, List.perm_ext_iff_of_nodup (nodup_searchDirectory hTree) (by simp)]
  intro q
  rw [mem_searchDirectory_iff, List.mem_singleton]
  constructor
  · rintro ⟨other, hOther, -, -, hReach⟩
    by_contra hNe
    have hDirectory := hTree.isDirectory_of_isBelow hOther ⟨(reaches_iff.mp hReach).1, hNe⟩
    simp [hFile] at hDirectory
  · rintro rfl
    refine ⟨entry, hEntry, hEntryFile, hName, reaches_iff.mpr ⟨List.prefix_refl q, hKept, ?_⟩⟩
    intro x hBelow hPrefix
    have hLt := hBelow.length_lt
    have hLe := hPrefix.length_le
    omega

theorem isWaiting_of_mem_nextPaths (h : p ∈ nextPaths tree index directory) : IsWaiting tree p := by
  obtain ⟨hContents, -, hKind⟩ := mem_nextPaths.mp h
  by_cases hDirectory : tree.isDirectory p = true
  · exact .inl hDirectory
  · have hFile : tree.isDirectory p = false := by simpa using hDirectory
    exact .inr ⟨hKind.resolve_left hDirectory, FileTree.mem_entries_of_mem_contents hContents hFile⟩

/-- The first step from a directory to a file below it. -/
theorem mem_searchDirectory_step (hTree : tree.IsTree) (hDirectory : tree.isDirectory directory = true)
    (hKept : directory ∉ exclude) :
    p ∈ searchDirectory tree index exclude directory ↔
      ∃ q ∈ nextPaths tree index directory, p ∈ searchDirectory tree index exclude q := by
  simp only [mem_searchDirectory_iff, reaches_iff]
  constructor
  · rintro ⟨entry, hEntry, hFile, hName, hAbove, -, hSteps⟩
    have hBelow : p.IsBelow directory := by
      refine ⟨hAbove, ?_⟩
      rintro rfl
      rw [hTree.isDirectory_eq hEntry, hFile] at hDirectory
      cases hDirectory
    have hPlace : p ∈ tree.places := List.mem_cons_of_mem _ (List.mem_map_of_mem hEntry)
    have hContents := FileTree.mem_contents.mpr ⟨p, hPlace, hBelow, rfl⟩
    have hFirst := FileTree.isBelow_of_mem_contents hContents
    have hPrefix := List.take_prefix (directory.length + 1) p
    obtain ⟨hStart, hHeard⟩ := hSteps _ hFirst hPrefix
    rw [← hTree.isDirectory_eq_bne hEntry hFile hPrefix] at hHeard
    refine ⟨_, mem_nextPaths.mpr ⟨hContents, hHeard, ?_⟩, entry, hEntry, hFile, hName, hPrefix, hStart,
      ?_⟩
    · by_cases hLast : p.take (directory.length + 1) = p
      · rw [hLast]
        exact .inr hName
      · exact .inl (hTree.isDirectory_of_isBelow hEntry ⟨hPrefix, Ne.symm hLast⟩)
    · intro x hx
      exact hSteps x (hx.trans hFirst)
  · rintro ⟨q, hq, entry, hEntry, hFile, hName, hPrefix, hStart, hSteps⟩
    obtain ⟨hContents, hHeard, -⟩ := mem_nextPaths.mp hq
    have hFirst := FileTree.isBelow_of_mem_contents hContents
    rw [hTree.isDirectory_eq_bne hEntry hFile hPrefix] at hHeard
    refine ⟨entry, hEntry, hFile, hName, hFirst.1.trans hPrefix, hKept, ?_⟩
    intro x hx hxPrefix
    -- the way to the file leads over what lies directly in the directory
    have hBehind : q <+: x := by
      have hLt := hx.length_lt
      have hLength := FileTree.length_of_mem_contents hContents
      exact List.prefix_of_prefix_length_le hPrefix hxPrefix (by omega)
    by_cases hEq : x = q
    · rw [hEq]
      exact ⟨hStart, hHeard⟩
    · exact hSteps x ⟨hBehind, hEq⟩ hxPrefix

/-- The search of a directory is that of what lies in it. -/
theorem searchDirectory_perm (hTree : tree.IsTree) (hDirectory : tree.isDirectory directory = true)
    (hKept : directory ∉ exclude) :
    searchDirectory tree index exclude directory ~
      (nextPaths tree index directory).flatMap (searchDirectory tree index exclude) := by
  have hApart : ((nextPaths tree index directory).flatMap
      (searchDirectory tree index exclude)).Nodup := by
    have hNext : (nextPaths tree index directory).Nodup := (nodup_eraseDups _).filter _
    refine List.nodup_flatMap.mpr ⟨fun q _ => nodup_searchDirectory hTree, ?_⟩
    refine List.Pairwise.imp_of_mem ?_ hNext
    intro q q' hq hq' hNe p hp hp'
    -- a file lies below one path of each length
    obtain ⟨-, -, -, -, hReach⟩ := mem_searchDirectory_iff.mp hp
    obtain ⟨-, -, -, -, hReach'⟩ := mem_searchDirectory_iff.mp hp'
    have hLength := FileTree.length_of_mem_contents (mem_nextPaths.mp hq).1
    have hLength' := FileTree.length_of_mem_contents (mem_nextPaths.mp hq').1
    have hPrefix := List.prefix_of_prefix_length_le (reaches_iff.mp hReach).1
      (reaches_iff.mp hReach').1 (by omega)
    exact hNe (hPrefix.eq_of_length (by omega))
  rw [List.perm_ext_iff_of_nodup (nodup_searchDirectory hTree) hApart]
  intro p
  rw [List.mem_flatMap]
  exact mem_searchDirectory_step hTree hDirectory hKept

/-- A visit keeps what is found together with what the search of the further paths finds. -/
theorem visit_perm (hTree : tree.IsTree) (h : IsWaiting tree p) :
    (visit tree index exclude p).2 ++
        (visit tree index exclude p).1.flatMap (searchDirectory tree index exclude) ~
      searchDirectory tree index exclude p := by
  unfold visit
  by_cases hExcluded : p ∈ exclude
  · simp [hExcluded, searchDirectory_of_mem hExcluded]
  · cases hDirectory : tree.isDirectory p with
    | true => simpa [hExcluded] using (searchDirectory_perm hTree hDirectory hExcluded).symm
    | false => simp [hExcluded, searchDirectory_of_file hTree h hDirectory hExcluded]

theorem isWaiting_of_mem_visit (h : q ∈ (visit tree index exclude p).1) : IsWaiting tree q := by
  unfold visit at h
  split at h
  · cases h
  · split at h
    · exact isWaiting_of_mem_nextPaths h
    · cases h

end

/-! ## Any order of visits -/

/-- The paths that wait and the files found after any number of visits, each of any path that waits. -/
inductive Walk (tree : FileTree) (index : IgnoreIndex) (exclude directories : List AbsolutePath) :
    List AbsolutePath → List AbsolutePath → Prop
  | start : Walk tree index exclude directories directories []
  | visit {before after found : List AbsolutePath} {p : AbsolutePath}
      (h : Walk tree index exclude directories (before ++ p :: after) found) :
      Walk tree index exclude directories (before ++ (visit tree index exclude p).1 ++ after)
        (found ++ (visit tree index exclude p).2)

namespace Walk

variable {tree : FileTree} {index : IgnoreIndex} {exclude directories pending found : List AbsolutePath}

theorem isWaiting (hDirectories : ∀ p ∈ directories, tree.isDirectory p = true)
    (h : Walk tree index exclude directories pending found) : ∀ p ∈ pending, IsWaiting tree p := by
  induction h with
  | start => exact fun p hp => .inl (hDirectories p hp)
  | visit h ih =>
    intro q hq
    simp only [List.mem_append] at hq
    rcases hq with (hq | hq) | hq
    · exact ih q (List.mem_append_left _ hq)
    · exact isWaiting_of_mem_visit hq
    · exact ih q (List.mem_append_right _ (List.mem_cons_of_mem _ hq))

/-- The files found and those that the waiting paths lead to are those of the directories. -/
theorem perm (hTree : tree.IsTree) (hDirectories : ∀ p ∈ directories, tree.isDirectory p = true)
    (h : Walk tree index exclude directories pending found) :
    found ++ pending.flatMap (searchDirectory tree index exclude) ~
      directories.flatMap (searchDirectory tree index exclude) := by
  induction h with
  | start => simp
  | @visit before after found p h ih =>
    have hWaiting := h.isWaiting hDirectories p (List.mem_append_right _ List.mem_cons_self)
    refine List.Perm.trans ?_ ih
    simp only [List.flatMap_append, List.flatMap_cons, List.append_assoc]
    refine (List.perm_append_comm_assoc _ _ _).append_left found |>.trans ?_
    rw [← List.append_assoc (Files.visit tree index exclude p).2]
    exact (((visit_perm hTree hWaiting).append_right _).append_left _).append_left found

/-- A file that waits is found at its visit. -/
theorem visitFile {before after : List AbsolutePath} {p : AbsolutePath}
    (h : Walk tree index exclude directories (before ++ p :: after) found)
    (hFile : tree.isDirectory p = false) (hKept : p ∉ exclude) :
    Walk tree index exclude directories (before ++ after) (found ++ [p]) := by
  simpa [Files.visit, hFile, hKept] using h.visit

/-- Files that wait can be visited in any order. -/
theorem visitFiles {order : List AbsolutePath}
    (h : Walk tree index exclude directories pending found)
    (hFiles : ∀ p ∈ pending, tree.isDirectory p = false ∧ p ∉ exclude) (hOrder : order ~ pending) :
    Walk tree index exclude directories [] (found ++ order) := by
  induction order generalizing pending found with
  | nil =>
    obtain rfl := List.nil_perm.mp hOrder
    simpa using h
  | cons p order ih =>
    have hp : p ∈ pending := hOrder.subset List.mem_cons_self
    obtain ⟨before, after, rfl⟩ := List.append_of_mem hp
    have hRest : ∀ q ∈ before ++ after, tree.isDirectory q = false ∧ q ∉ exclude := by
      intro q hq
      exact hFiles q (List.perm_middle.symm.subset (List.mem_cons_of_mem p hq))
    have hVisit := h.visitFile (hFiles p hp).1 (hFiles p hp).2
    simpa using ih hVisit hRest (hOrder.trans List.perm_middle).cons_inv

/-- Wherever the path waits, a walk can go on until files wait in its place. -/
def LeadsToFiles (tree : FileTree) (index : IgnoreIndex) (exclude directories : List AbsolutePath)
    (p : AbsolutePath) : Prop :=
  ∀ before after found : List AbsolutePath,
    Walk tree index exclude directories (before ++ p :: after) found →
      ∃ files, (∀ q ∈ files, tree.isDirectory q = false ∧ q ∉ exclude) ∧
        Walk tree index exclude directories (before ++ files ++ after) found

theorem visitDirectories {paths before after : List AbsolutePath}
    (hPaths : ∀ p ∈ paths, LeadsToFiles tree index exclude directories p)
    (h : Walk tree index exclude directories (before ++ paths ++ after) found) :
    ∃ files, (∀ q ∈ files, tree.isDirectory q = false ∧ q ∉ exclude) ∧
      Walk tree index exclude directories (before ++ files ++ after) found := by
  induction paths generalizing before with
  | nil => exact ⟨[], by simp, h⟩
  | cons p paths ih =>
    rw [List.append_assoc, List.cons_append] at h
    obtain ⟨first, hFirst, h⟩ := hPaths p List.mem_cons_self _ _ _ h
    rw [← List.append_assoc] at h
    obtain ⟨rest, hRest, h⟩ := ih (fun q hq => hPaths q (List.mem_cons_of_mem _ hq)) h
    refine ⟨first ++ rest, ?_, by simpa using h⟩
    intro q hq
    exact (List.mem_append.mp hq).elim (hFirst q) (hRest q)

/-- Directories are left for deeper paths at every visit, down to the deepest place of the tree. -/
theorem leadsToFiles (p : AbsolutePath) : LeadsToFiles tree index exclude directories p := by
  intro before after found h
  have hVisit := h.visit
  by_cases hExcluded : p ∈ exclude
  · exact ⟨[], by simp, by simpa [Files.visit, hExcluded] using hVisit⟩
  · cases hDirectory : tree.isDirectory p with
    | false => exact ⟨[p], by simp [hDirectory, hExcluded], by simpa using h⟩
    | true =>
      have hInside : Walk tree index exclude directories
          (before ++ nextPaths tree index p ++ after) found := by
        simpa [Files.visit, hExcluded, hDirectory] using hVisit
      refine visitDirectories (fun q hq => ?_) hInside
      have hContents := (mem_nextPaths.mp hq).1
      have hLength := FileTree.length_of_mem_contents hContents
      have hDepth := FileTree.length_le_depth hContents
      exact leadsToFiles q
termination_by tree.depth - p.length

end Walk

/-- **Walks in any order.** The complete walks of some directories find what the searches of the
directories find, in every order. -/
theorem walked_iff {tree : FileTree} {index : IgnoreIndex}
    {exclude directories found : List AbsolutePath} (hTree : tree.IsTree)
    (hDirectories : ∀ p ∈ directories, tree.isDirectory p = true) :
    Walk tree index exclude directories [] found ↔
      found ~ directories.flatMap (searchDirectory tree index exclude) := by
  constructor
  · intro h
    simpa using h.perm hTree hDirectories
  · intro hPerm
    -- all directories are visited first, and then the files in the given order
    have hStart : Walk tree index exclude directories ([] ++ directories ++ []) [] := by
      simpa using Walk.start
    obtain ⟨files, hFiles, h⟩ :=
      Walk.visitDirectories (fun p _ => Walk.leadsToFiles p) hStart
    simp only [List.nil_append, List.append_nil] at h
    have hOwn : files.flatMap (searchDirectory tree index exclude) = files := by
      have hSingle : ∀ p ∈ files, searchDirectory tree index exclude p = [p] := by
        intro p hp
        exact searchDirectory_of_file hTree (h.isWaiting hDirectories p hp) (hFiles p hp).1
          (hFiles p hp).2
      rw [List.flatMap_congr hSingle, List.flatMap_singleton']
    have hTotal := h.perm hTree hDirectories
    rw [List.nil_append, hOwn] at hTotal
    simpa using h.visitFiles hFiles (hPerm.trans hTotal.symm)

/-! ## The files of a search -/

/-- The lists of files that a search can give, for all orders in which its directories are walked. -/
def CanFind (tree : FileTree) (paths exclude : List String) (sort : Bool) (files : List AbsolutePath) :
    Prop :=
  ∃ excluded inputs walked, resolveAll tree exclude = .ok excluded ∧
    resolveAll tree paths = .ok inputs ∧
    Walk tree (.ofTree tree) excluded (inputs.filter (tree.isDirectory ·)) [] walked ∧
    files = listed sort (namedFiles tree excluded inputs ++ walked)

section

variable {tree : FileTree} {paths exclude : List String} {sort : Bool} {files : List AbsolutePath}
  {excluded inputs : List AbsolutePath} {p : AbsolutePath}

theorem walked_inputs_iff {walked : List AbsolutePath} (hTree : tree.IsTree) :
    Walk tree (.ofTree tree) excluded (inputs.filter (tree.isDirectory ·)) [] walked ↔
      walked ~ searchedFiles tree excluded inputs :=
  walked_iff hTree fun _ hp => (List.mem_filter.mp hp).2

theorem canFind_of_findPhpFiles (hTree : tree.IsTree)
    (h : findPhpFiles tree paths exclude sort = .ok files) : CanFind tree paths exclude sort files := by
  obtain ⟨excluded, inputs, hExclude, hPaths, rfl⟩ := findPhpFiles_eq_ok_iff.mp h
  exact ⟨excluded, inputs, _, hExclude, hPaths, (walked_inputs_iff hTree).mpr (.refl _), rfl⟩

theorem CanFind.nodup (h : CanFind tree paths exclude sort files) : files.Nodup := by
  obtain ⟨-, -, -, -, -, -, rfl⟩ := h
  exact nodup_listed _ _

theorem CanFind.mem_iff (hTree : tree.IsTree) {outcome : List AbsolutePath}
    (h : CanFind tree paths exclude sort outcome)
    (hFiles : findPhpFiles tree paths exclude sort = .ok files) : p ∈ outcome ↔ p ∈ files := by
  obtain ⟨excluded, inputs, walked, hExclude, hPaths, hWalked, rfl⟩ := h
  obtain ⟨excluded', inputs', hExclude', hPaths', rfl⟩ := findPhpFiles_eq_ok_iff.mp hFiles
  obtain rfl := Except.ok.inj (hExclude.symm.trans hExclude')
  obtain rfl := Except.ok.inj (hPaths.symm.trans hPaths')
  rw [mem_listed, mem_listed, List.mem_append, List.mem_append,
    ((walked_inputs_iff hTree).mp hWalked).mem_iff]

/-- A sorted list is the same for every order of the walk. -/
theorem CanFind.eq (hTree : tree.IsTree) {outcome : List AbsolutePath}
    (h : CanFind tree paths exclude true outcome)
    (hFiles : findPhpFiles tree paths exclude true = .ok files) : outcome = files := by
  have hMem : ∀ p, p ∈ outcome ↔ p ∈ files := fun p => h.mem_iff hTree hFiles
  obtain ⟨excluded, inputs, walked, -, -, -, rfl⟩ := h
  obtain ⟨excluded', inputs', -, -, rfl⟩ := findPhpFiles_eq_ok_iff.mp hFiles
  exact eq_of_strict (listed_strict _) (listed_strict _) hMem

theorem exists_resolveAll {paths : List String}
    (h : ∀ path ∈ paths, ∃ place, tree.resolve path = .ok place) :
    ∃ places, resolveAll tree paths = .ok places := by
  cases hAll : resolveAll tree paths with
  | ok places => exact ⟨places, rfl⟩
  | error e =>
    obtain ⟨path, hMem, failure, hFailure, -⟩ := resolveAll_eq_error hAll
    obtain ⟨place, hPlace⟩ := h path hMem
    rw [hPlace] at hFailure
    cases hFailure

/-- A list of paths leads to places that depend on its members alone. -/
theorem resolveAll_congr {paths' : List String} (h : ∀ path, path ∈ paths' ↔ path ∈ paths)
    (hPaths : resolveAll tree paths = .ok inputs) :
    ∃ inputs', resolveAll tree paths' = .ok inputs' ∧ ∀ p, p ∈ inputs' ↔ p ∈ inputs := by
  have hPlaces : ∀ path ∈ paths', ∃ place, tree.resolve path = .ok place := by
    intro path hMem
    exact resolve_of_resolveAll hPaths path ((h path).mp hMem)
  obtain ⟨inputs', hPaths'⟩ := exists_resolveAll hPlaces
  refine ⟨inputs', hPaths', fun p => ?_⟩
  simp only [mem_of_resolveAll hPaths', mem_of_resolveAll hPaths, h]

/-- Each input adds its files. -/
theorem mem_union_iff : p ∈ namedFiles tree excluded inputs ++ searchedFiles tree excluded inputs ↔
    ∃ place ∈ inputs,
      p ∈ namedFiles tree excluded [place] ++ searchedFiles tree excluded [place] := by
  simp only [namedFiles, searchedFiles, List.mem_append, List.mem_filter, List.mem_flatMap,
    List.mem_singleton]
  constructor
  · rintro (⟨hp, hTaken⟩ | ⟨directory, ⟨hInput, hDirectory⟩, hp⟩)
    · exact ⟨p, hp, .inl ⟨rfl, hTaken⟩⟩
    · exact ⟨directory, hInput, .inr ⟨directory, ⟨rfl, hDirectory⟩, hp⟩⟩
  · rintro ⟨place, hInput, ⟨rfl, hTaken⟩ | ⟨directory, ⟨rfl, hDirectory⟩, hp⟩⟩
    · exact .inl ⟨hInput, hTaken⟩
    · exact .inr ⟨directory, ⟨hInput, hDirectory⟩, hp⟩

theorem mem_union_congr {excluded' inputs' : List AbsolutePath}
    (hExcluded : ∀ q, q ∈ excluded' ↔ q ∈ excluded) (hInputs : ∀ q, q ∈ inputs' ↔ q ∈ inputs) :
    p ∈ namedFiles tree excluded' inputs' ++ searchedFiles tree excluded' inputs' ↔
      p ∈ namedFiles tree excluded inputs ++ searchedFiles tree excluded inputs := by
  simp only [namedFiles, searchedFiles, List.mem_append, List.mem_filter, List.mem_flatMap,
    mem_searchDirectory_iff, reaches_iff, List.contains_eq_mem, hExcluded, hInputs]

/-- The files of a search are those of its inputs, each searched alone. -/
theorem exists_union (h : findPhpFiles tree paths exclude sort = .ok files) :
    ∃ own : String → List AbsolutePath,
      (∀ path ∈ paths, findPhpFiles tree [path] exclude sort = .ok (own path)) ∧
        ∀ p, p ∈ files ↔ ∃ path ∈ paths, p ∈ own path := by
  obtain ⟨excluded, inputs, hExclude, hPaths, rfl⟩ := findPhpFiles_eq_ok_iff.mp h
  choose! place hPlace using resolve_of_resolveAll hPaths
  refine ⟨fun path => listed sort (namedFiles tree excluded [place path] ++
    searchedFiles tree excluded [place path]), ?_, fun p => ?_⟩
  · intro path hMem
    exact findPhpFiles_eq_ok_iff.mpr
      ⟨excluded, [place path], hExclude, resolveAll_singleton (hPlace path hMem), rfl⟩
  · simp only [mem_listed]
    rw [mem_union_iff]
    constructor
    · rintro ⟨q, hq, hp⟩
      obtain ⟨path, hMem, hResolve⟩ := (mem_of_resolveAll hPaths).mp hq
      obtain rfl := Except.ok.inj (hResolve.symm.trans (hPlace path hMem))
      exact ⟨path, hMem, hp⟩
    · rintro ⟨path, hMem, hp⟩
      exact ⟨place path, (mem_of_resolveAll hPaths).mpr ⟨path, hMem, hPlace path hMem⟩, hp⟩

/-- Neither the order nor the repetition of inputs and excluded paths matters to a sorted list. -/
theorem findPhpFiles_congr {paths' exclude' : List String}
    (hPaths : ∀ path, path ∈ paths' ↔ path ∈ paths)
    (hExclude : ∀ path, path ∈ exclude' ↔ path ∈ exclude)
    (h : findPhpFiles tree paths exclude true = .ok files) :
    findPhpFiles tree paths' exclude' true = .ok files := by
  obtain ⟨excluded, inputs, hExcluded, hInputs, rfl⟩ := findPhpFiles_eq_ok_iff.mp h
  obtain ⟨excluded', hExcluded', hSameExcluded⟩ := resolveAll_congr hExclude hExcluded
  obtain ⟨inputs', hInputs', hSameInputs⟩ := resolveAll_congr hPaths hInputs
  refine findPhpFiles_eq_ok_iff.mpr ⟨excluded', inputs', hExcluded', hInputs', ?_⟩
  exact listed_congr fun p => (mem_union_congr hSameExcluded hSameInputs).symm

/-- **Canonical lists of files.** A successful search gives one of the lists that the walks of its
directories can give. All of these list the files of the inputs, each searched alone, and each file
once. If they are sorted, they are one list in strictly increasing order, which the order and the
repetition of inputs and excluded paths do not change. If they are not, the files given by name come
first, in the order of their first mention, and those that only a walk finds come behind. -/
theorem findPhpFiles_canonical (hTree : tree.IsTree)
    (h : findPhpFiles tree paths exclude sort = .ok files) :
    CanFind tree paths exclude sort files ∧
    (∃ own : String → List AbsolutePath,
      (∀ path ∈ paths, findPhpFiles tree [path] exclude sort = .ok (own path)) ∧
      ∀ outcome, CanFind tree paths exclude sort outcome →
        outcome.Nodup ∧ ∀ p, p ∈ outcome ↔ ∃ path ∈ paths, p ∈ own path) ∧
    (sort = true → files.Pairwise (fun p q => p < q) ∧
      ∀ paths' exclude' outcome, (∀ path, path ∈ paths' ↔ path ∈ paths) →
        (∀ path, path ∈ exclude' ↔ path ∈ exclude) →
        (CanFind tree paths' exclude' true outcome ↔ outcome = files)) ∧
    (sort = false → ∀ outcome, CanFind tree paths exclude false outcome →
      ∃ excluded inputs rest, resolveAll tree exclude = .ok excluded ∧
        resolveAll tree paths = .ok inputs ∧
        outcome = (namedFiles tree excluded inputs).eraseDups ++ rest ∧
        ∀ p ∈ rest, p ∈ searchedFiles tree excluded inputs ∧ p ∉ namedFiles tree excluded inputs) := by
  refine ⟨canFind_of_findPhpFiles hTree h, ?_, ?_, ?_⟩
  · obtain ⟨own, hOwn, hUnion⟩ := exists_union h
    refine ⟨own, hOwn, fun outcome hOutcome => ⟨hOutcome.nodup, fun p => ?_⟩⟩
    rw [hOutcome.mem_iff hTree h, hUnion]
  · rintro rfl
    constructor
    · obtain ⟨-, -, -, -, rfl⟩ := findPhpFiles_eq_ok_iff.mp h
      exact listed_strict _
    · intro paths' exclude' outcome hPaths hExclude
      have hSame := findPhpFiles_congr hPaths hExclude h
      constructor
      · intro hOutcome
        exact hOutcome.eq hTree hSame
      · rintro rfl
        exact canFind_of_findPhpFiles hTree hSame
  · rintro rfl outcome ⟨excluded, inputs, walked, hExclude, hPaths, hWalked, rfl⟩
    obtain ⟨rest, hSplit, hRest⟩ := listed_append (namedFiles tree excluded inputs) walked
    refine ⟨excluded, inputs, rest, hExclude, hPaths, hSplit, fun p hp => ?_⟩
    have hFound := ((walked_inputs_iff hTree).mp hWalked).mem_iff.mp (hRest p hp).1
    exact ⟨hFound, (hRest p hp).2⟩

end

/-- A file inside of a directory that is given twice. -/
theorem findPhpFiles_canonical_overlapping :
    let tree : FileTree := { entries := [(["z.php"], .file .empty), (["src", "b.php"], .file .empty),
      (["src", "a.php"], .file .empty), (["src", "c.txt"], .file .empty)] }
    let files : List AbsolutePath := [["src", "a.php"], ["src", "b.php"], ["z.php"]]
    tree.IsTree ∧ findPhpFiles tree ["z.php", "src", "src/b.php"] [] true = .ok files ∧
      ∀ outcome, CanFind tree ["src/b.php", "src", "z.php", "src"] [] true outcome ↔
        outcome = files := by
  intro tree files
  have hTree : tree.IsTree := by decide
  have hInputs : resolveAll tree ["z.php", "src", "src/b.php"] =
      .ok [["z.php"], ["src"], ["src", "b.php"]] := by decide +kernel
  have hFound : namedFiles tree [] [["z.php"], ["src"], ["src", "b.php"]] ++
      searchedFiles tree [] [["z.php"], ["src"], ["src", "b.php"]] =
        [["z.php"], ["src", "b.php"], ["src", "b.php"], ["src", "a.php"]] := by decide +kernel
  have hFiles : findPhpFiles tree ["z.php", "src", "src/b.php"] [] true = .ok files := by
    refine findPhpFiles_eq_ok_iff.mpr ⟨[], _, rfl, hInputs, ?_⟩
    refine eq_of_strict (by decide +kernel) (listed_strict _) fun p => ?_
    rw [mem_listed, hFound]
    grind
  refine ⟨hTree, hFiles, fun outcome => ?_⟩
  obtain ⟨-, -, hSorted, -⟩ := findPhpFiles_canonical hTree hFiles
  exact (hSorted rfl).2 _ _ outcome (by grind) (by grind)

end TagLint.Files
