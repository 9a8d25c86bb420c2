import TagLint.Proofs.FoundFiles

/-!
# Ignore files above a directory

The search of a directory also hears the ignore files in the directories above it, although only what
lies in the directory itself should count. For a path below the directory, the files above it are asked
after those inside, kind by kind, so they matter exactly through what they say about such paths.

* `above_append`: the directories above a path, those inside of another directory first.
* `versioned_append_of_mem`, `versioned_append_of_notMem`: where version control is heard.
* `SameButRulesAbove.ignores_eq`: two trees that differ in ignore files above a directory ignore the same
  paths in it, as far as those files say the same.
* `findPhpFiles_rulesAbove`: which files the change can add or take away.
* `findPhpFiles_parentRules`: it can take away a file.
-/

namespace TagLint.Files

/-! ## Directories inside and outside -/

namespace IgnoreIndex

/-- The directories above a path that are not above a directory, the nearest first. -/
def within (directory q : AbsolutePath) : List AbsolutePath :=
  (List.range (q.length - directory.length)).reverse.map fun k => q.take (directory.length + k)

theorem above_append {directory q : AbsolutePath} (h : directory <+: q) :
    above q = within directory q ++ above directory := by
  obtain ⟨rest, rfl⟩ := h
  have hOutside : (List.range directory.length).reverse.map (directory ++ rest).take =
      above directory := by
    apply List.map_congr_left
    intro k hk
    rw [List.mem_reverse, List.mem_range] at hk
    rw [List.take_append_of_le_length (Nat.le_of_lt hk)]
  have hRange : List.range (directory ++ rest).length =
      List.range directory.length ++ (List.range rest.length).map (directory.length + ·) := by
    rw [List.length_append, List.range_add]
  rw [above, hRange, List.reverse_append, List.map_append, hOutside, within, ← List.map_reverse,
    List.map_map, List.length_append, Nat.add_sub_cancel_left]
  rfl

theorem prefix_of_mem_within {directory q x : AbsolutePath} (h : directory <+: q)
    (hx : x ∈ within directory q) : directory <+: x := by
  obtain ⟨k, -, rfl⟩ := List.mem_map.mp hx
  obtain ⟨rest, rfl⟩ := h
  rw [List.take_length_add_append]
  exact List.prefix_append _ _

theorem verdict?_append (table : RuleTable) (xs ys : List AbsolutePath) (q : AbsolutePath)
    (isDirectory : Bool) :
    verdict? table (xs ++ ys) q isDirectory =
      (verdict? table xs q isDirectory).or (verdict? table ys q isDirectory) :=
  List.findSome?_append

theorem verdict?_congr {table table' : RuleTable} {directories : List AbsolutePath}
    (h : ∀ x ∈ directories, table.lookup x = table'.lookup x) (q : AbsolutePath) (isDirectory : Bool) :
    verdict? table directories q isDirectory = verdict? table' directories q isDirectory := by
  induction directories with
  | nil => rfl
  | cons x directories ih =>
    have hRest := ih fun y hy => h y (List.mem_cons_of_mem _ hy)
    unfold verdict? at hRest ⊢
    rw [List.findSome?_cons, List.findSome?_cons, h x List.mem_cons_self, hRest]

theorem versioned_cons_of_mem {index : IgnoreIndex} {x : AbsolutePath} (h : x ∈ index.repositories)
    (xs : List AbsolutePath) : index.versioned (x :: xs) = [x] := by
  simp [versioned, h]

theorem versioned_cons_of_notMem {index : IgnoreIndex} {x : AbsolutePath}
    (h : x ∉ index.repositories) (xs : List AbsolutePath) :
    index.versioned (x :: xs) =
      if index.versioned xs = [] then [] else x :: index.versioned xs := by
  unfold versioned
  rw [List.dropWhile_cons_of_pos (by simpa using h), List.takeWhile_cons_of_pos (by simpa using h)]
  cases xs.dropWhile (· ∉ index.repositories) with
  | nil => rfl
  | cons top rest => simp

/-- A repository inside keeps the directories outside from being heard. -/
theorem versioned_append_of_mem {index : IgnoreIndex} {xs : List AbsolutePath}
    (h : ∃ x ∈ xs, x ∈ index.repositories) (ys : List AbsolutePath) :
    index.versioned (xs ++ ys) = index.versioned xs := by
  induction xs with
  | nil => obtain ⟨x, ⟨⟩, -⟩ := h
  | cons x xs ih =>
    rw [List.cons_append]
    by_cases hx : x ∈ index.repositories
    · rw [versioned_cons_of_mem hx, versioned_cons_of_mem hx]
    · obtain ⟨y, hy, hTop⟩ := h
      have hRest : y ∈ xs := by
        rcases List.mem_cons.mp hy with rfl | hy
        · exact absurd hTop hx
        · exact hy
      rw [versioned_cons_of_notMem hx, versioned_cons_of_notMem hx, ih ⟨y, hRest, hTop⟩]

/-- Without a repository inside, version control is heard if it is heard outside. -/
theorem versioned_append_of_notMem {index : IgnoreIndex} {xs : List AbsolutePath}
    (h : ∀ x ∈ xs, x ∉ index.repositories) (ys : List AbsolutePath) :
    index.versioned (xs ++ ys) =
      if index.versioned ys = [] then [] else xs ++ index.versioned ys := by
  induction xs with
  | nil => by_cases hNil : index.versioned ys = [] <;> simp [hNil]
  | cons x xs ih =>
    rw [List.cons_append, versioned_cons_of_notMem (h x List.mem_cons_self),
      ih fun y hy => h y (List.mem_cons_of_mem _ hy)]
    by_cases hNil : index.versioned ys = []
    · simp [hNil]
    · simp [hNil]

theorem versioned_subset (index : IgnoreIndex) (xs : List AbsolutePath) : index.versioned xs ⊆ xs := by
  induction xs with
  | nil => simp [versioned]
  | cons x xs ih =>
    by_cases hx : x ∈ index.repositories
    · rw [versioned_cons_of_mem hx]
      exact List.cons_subset_cons x (List.nil_subset xs)
    · rw [versioned_cons_of_notMem hx]
      split
      · exact List.nil_subset _
      · exact List.cons_subset_cons x ih

theorem versioned_congr {index index' : IgnoreIndex} {directories : List AbsolutePath}
    (h : ∀ x, x ∈ index.repositories ↔ x ∈ index'.repositories) :
    index.versioned directories = index'.versioned directories := by
  simp only [versioned, h]

theorem mem_directoriesHolding {names : List String} {p x : AbsolutePath} :
    x ∈ directoriesHolding names p ↔ ∃ name ∈ names, x ++ [name] <+: p := by
  induction p generalizing x with
  | nil => simp [directoriesHolding]
  | cons first p ih =>
    simp only [directoriesHolding, List.mem_append, List.mem_map, ih]
    cases x with
    | nil => simp
    | cons y x => simp [List.cons_prefix_cons, and_left_comm, eq_comm]

end IgnoreIndex

/-! ## Trees that differ above a directory -/

/-- The names of ignore files. -/
def ignoreFileNames : List String :=
  [ownIgnoreName, sharedIgnoreName, gitIgnoreName]

/-- Whether an entry is an ignore file in a directory above another directory. -/
def isRuleFileAbove (directory : AbsolutePath) (e : AbsolutePath × Entry) : Bool :=
  !e.2.isDirectory && e.1.getLast?.any (ignoreFileNames.contains ·)
    && e.1.dropLast.isPrefixOf directory && e.1.dropLast != directory

/-- The trees have the same entries but for ignore files above a directory. -/
def SameButRulesAbove (directory : AbsolutePath) (tree tree' : FileTree) : Prop :=
  tree.entries.filter (!isRuleFileAbove directory ·) =
    tree'.entries.filter (!isRuleFileAbove directory ·)

theorem exists_of_isRuleFileAbove {directory : AbsolutePath} {e : AbsolutePath × Entry}
    (h : isRuleFileAbove directory e = true) :
    ∃ place name, e.1 = place ++ [name] ∧ name ∈ ignoreFileNames ∧ directory.IsBelow place := by
  obtain ⟨p, entry⟩ := e
  simp only [isRuleFileAbove, Bool.and_eq_true, List.isPrefixOf_iff_prefix, Option.any_eq_true,
    bne_iff_ne] at h
  obtain ⟨⟨⟨-, name, hName, hMem⟩, hPrefix⟩, hNe⟩ := h
  refine ⟨p.dropLast, name, ?_, by simpa using hMem, hPrefix, hNe.symm⟩
  exact (List.dropLast_append_getLast? name hName).symm

theorem lookup_filterMap_filter {α β γ : Type} [BEq β] [LawfulBEq β] {f : α → Option (β × γ)}
    {keep : α → Bool} {x : β} (h : ∀ a, keep a = false → ∀ r, f a = some r → r.1 ≠ x)
    (as : List α) : ((as.filter keep).filterMap f).lookup x = (as.filterMap f).lookup x := by
  induction as with
  | nil => rfl
  | cons a as ih =>
    cases hKeep : keep a with
    | false =>
      rw [List.filter_cons_of_neg (by simp [hKeep]), ih]
      cases hf : f a with
      | none => rw [List.filterMap_cons_none hf]
      | some r =>
        have hNe : (x == r.1) = false := by simpa using (h a hKeep r hf).symm
        rw [List.filterMap_cons_some hf, List.lookup_cons, hNe]
    | true =>
      rw [List.filter_cons_of_pos hKeep]
      cases hf : f a with
      | none => rw [List.filterMap_cons_none hf, List.filterMap_cons_none hf, ih]
      | some r =>
        rw [List.filterMap_cons_some hf, List.filterMap_cons_some hf, List.lookup_cons,
          List.lookup_cons, ih]

/-- What the ignore files above a directory say about a path below it is the same in two trees: of
each kind, the nearest file that decides gives the same verdict. Those of version control are not
asked behind the top of a repository. -/
structure IgnoreIndex.SaySame (index index' : IgnoreIndex) (directory q : AbsolutePath)
    (isDirectory : Bool) : Prop where
  own : verdict? index.own (above directory) q isDirectory =
    verdict? index'.own (above directory) q isDirectory
  shared : verdict? index.shared (above directory) q isDirectory =
    verdict? index'.shared (above directory) q isDirectory
  git : (∀ x ∈ within directory q, x ∉ index.repositories) →
    verdict? index.git (index.versioned (above directory)) q isDirectory =
      verdict? index'.git (index'.versioned (above directory)) q isDirectory

theorem repositoryNames_apart : ∀ name ∈ repositoryNames, name ∉ ignoreFileNames := by decide

namespace SameButRulesAbove

variable {tree tree' : FileTree} {directory : AbsolutePath}

theorem symm (h : SameButRulesAbove directory tree tree') : SameButRulesAbove directory tree' tree :=
  Eq.symm h

theorem mem_entries (h : SameButRulesAbove directory tree tree') {e : AbsolutePath × Entry}
    (hMem : e ∈ tree.entries) (hKeep : isRuleFileAbove directory e = false) : e ∈ tree'.entries := by
  have hFilter : e ∈ tree.entries.filter (!isRuleFileAbove directory ·) :=
    List.mem_filter.mpr ⟨hMem, by simp [hKeep]⟩
  rw [h] at hFilter
  exact (List.mem_filter.mp hFilter).1

theorem lookup_ruleTable (h : SameButRulesAbove directory tree tree') (name : String)
    {x : AbsolutePath} (hx : directory <+: x) :
    (ruleTable tree name).lookup x = (ruleTable tree' name).lookup x := by
  have hElsewhere : ∀ e : AbsolutePath × Entry, (!isRuleFileAbove directory e) = false →
      e.1.dropLast ≠ x := by
    intro e hRule hPlace
    obtain ⟨place, last, hEntry, -, hBelow⟩ := exists_of_isRuleFileAbove (by simpa using hRule)
    rw [hEntry, List.dropLast_concat] at hPlace
    subst hPlace
    have hLt := hBelow.length_lt
    have hLe := hx.length_le
    omega
  unfold ruleTable
  rw [← lookup_filterMap_filter, h, lookup_filterMap_filter]
  all_goals
    intro e hRule r hr
    split at hr
    · split at hr
      · cases hr
        exact hElsewhere e hRule
      · cases hr
    · cases hr
    · cases hr

/-- A directory that lies above an entry in both trees is no repository through an ignore file
alone. -/
theorem mem_repositories (h : SameButRulesAbove directory tree tree') {e : AbsolutePath × Entry}
    (hMem : e ∈ tree'.entries) (hBelow : directory <+: e.1) {x : AbsolutePath}
    (hx : x ∈ (IgnoreIndex.ofTree tree).repositories) :
    x ∈ (IgnoreIndex.ofTree tree').repositories := by
  simp only [IgnoreIndex.ofTree, List.mem_flatMap, IgnoreIndex.mem_directoriesHolding] at hx ⊢
  obtain ⟨found, hFound, name, hName, hPrefix⟩ := hx
  cases hRule : isRuleFileAbove directory found with
  | false => exact ⟨found, h.mem_entries hFound hRule, name, hName, hPrefix⟩
  | true =>
    obtain ⟨place, last, hEntry, hLast, hPlace⟩ := exists_of_isRuleFileAbove hRule
    rw [hEntry, List.prefix_concat_iff] at hPrefix
    rcases hPrefix with hEq | hPrefix
    · obtain rfl : name = last := by simpa using (List.append_inj' hEq rfl).2
      exact absurd hLast (repositoryNames_apart name hName)
    · exact ⟨e, hMem, name, hName, hPrefix.trans (hPlace.1.trans hBelow)⟩

theorem repositories_iff (h : SameButRulesAbove directory tree tree') {e : AbsolutePath × Entry}
    (hMem : e ∈ tree.entries) (hMem' : e ∈ tree'.entries) (hBelow : directory <+: e.1)
    (x : AbsolutePath) :
    x ∈ (IgnoreIndex.ofTree tree).repositories ↔ x ∈ (IgnoreIndex.ofTree tree').repositories :=
  ⟨h.mem_repositories hMem' hBelow, h.symm.mem_repositories hMem hBelow⟩

open IgnoreIndex in
/-- The own and the shared files are asked from the path up to the root. -/
theorem verdict?_above (h : SameButRulesAbove directory tree tree') (name : String) {q : AbsolutePath}
    (hq : directory <+: q) {isDirectory : Bool}
    (hOutside : verdict? (ruleTable tree name) (above directory) q isDirectory =
      verdict? (ruleTable tree' name) (above directory) q isDirectory) :
    verdict? (ruleTable tree name) (above q) q isDirectory =
      verdict? (ruleTable tree' name) (above q) q isDirectory := by
  have hTable : ∀ x ∈ within directory q,
      (ruleTable tree name).lookup x = (ruleTable tree' name).lookup x := by
    intro x hx
    exact h.lookup_ruleTable name (prefix_of_mem_within hq hx)
  rw [above_append hq, verdict?_append, verdict?_append, hOutside, verdict?_congr hTable]

open IgnoreIndex in
/-- The files of version control are asked up to the nearest repository, which may lie inside. -/
theorem verdict?_versioned (h : SameButRulesAbove directory tree tree') {e : AbsolutePath × Entry}
    (hMem : e ∈ tree.entries) (hMem' : e ∈ tree'.entries) (hBelow : directory <+: e.1)
    {q : AbsolutePath} (hq : directory <+: q) {isDirectory : Bool}
    (hOutside : (∀ x ∈ within directory q, x ∉ (ofTree tree).repositories) →
      verdict? (ofTree tree).git ((ofTree tree).versioned (above directory)) q isDirectory =
        verdict? (ofTree tree').git ((ofTree tree').versioned (above directory)) q isDirectory) :
    verdict? (ofTree tree).git ((ofTree tree).versioned (above q)) q isDirectory =
      verdict? (ofTree tree').git ((ofTree tree').versioned (above q)) q isDirectory := by
  have hTable : ∀ x ∈ within directory q,
      (ofTree tree).git.lookup x = (ofTree tree').git.lookup x := by
    intro x hx
    exact h.lookup_ruleTable gitIgnoreName (prefix_of_mem_within hq hx)
  have hRepositories := h.repositories_iff hMem hMem' hBelow
  -- both trees hear version control in the same directories
  rw [← versioned_congr hRepositories] at hOutside ⊢
  rw [above_append hq]
  by_cases hTop : ∃ x ∈ within directory q, x ∈ (ofTree tree).repositories
  · rw [versioned_append_of_mem hTop]
    exact verdict?_congr (fun x hx => hTable x (versioned_subset _ _ hx)) q isDirectory
  · have hNone : ∀ x ∈ within directory q, x ∉ (ofTree tree).repositories := by
      intro x hx hRepository
      exact hTop ⟨x, hx, hRepository⟩
    rw [versioned_append_of_notMem hNone]
    split
    · rfl
    · rw [verdict?_append, verdict?_append, hOutside hNone, verdict?_congr hTable]

open IgnoreIndex in
theorem ignores_eq (h : SameButRulesAbove directory tree tree') {e : AbsolutePath × Entry}
    (hMem : e ∈ tree.entries) (hMem' : e ∈ tree'.entries) (hBelow : directory <+: e.1)
    {q : AbsolutePath} (hq : directory <+: q) {isDirectory : Bool}
    (hSay : (ofTree tree).SaySame (ofTree tree') directory q isDirectory) :
    (ofTree tree).ignores q isDirectory = (ofTree tree').ignores q isDirectory := by
  have hOwn : verdict? (ofTree tree).own (above q) q isDirectory =
      verdict? (ofTree tree').own (above q) q isDirectory := h.verdict?_above _ hq hSay.own
  have hShared : verdict? (ofTree tree).shared (above q) q isDirectory =
      verdict? (ofTree tree').shared (above q) q isDirectory := h.verdict?_above _ hq hSay.shared
  have hGit := h.verdict?_versioned hMem hMem' hBelow hq hSay.git
  simp only [ignores, hOwn, hShared, hGit]

theorem reaches_eq (h : SameButRulesAbove directory tree tree') {e : AbsolutePath × Entry}
    (hMem : e ∈ tree.entries) (hMem' : e ∈ tree'.entries) (exclude : List AbsolutePath)
    (hSay : ∀ q : AbsolutePath, q.IsBelow directory → q <+: e.1 →
      (IgnoreIndex.ofTree tree).SaySame (.ofTree tree') directory q (q != e.1)) :
    reaches (.ofTree tree) exclude directory e.1 = reaches (.ofTree tree') exclude directory e.1 := by
  rw [Bool.eq_iff_iff, reaches_iff, reaches_iff]
  refine and_congr_right fun hBelow => and_congr_right fun _ => ?_
  refine forall_congr' fun q => forall_congr' fun hq => forall_congr' fun hPrefix => ?_
  rw [h.ignores_eq hMem hMem' hBelow hq.1 (hSay q hq hPrefix)]

/-- An ignore file is no PHP file. -/
theorem not_isRuleFileAbove {p : AbsolutePath} (h : hasPhpName p = true) (entry : Entry) :
    isRuleFileAbove directory (p, entry) = false := by
  have hNames : ∀ name ∈ ignoreFileNames, hasPhpName [name] = false := by decide
  rw [← Bool.not_eq_true]
  intro hRule
  obtain ⟨place, name, rfl, hName, -⟩ := exists_of_isRuleFileAbove hRule
  have hLast : hasPhpName (place ++ [name]) = hasPhpName [name] := by simp [hasPhpName]
  rw [hLast, hNames name hName] at h
  cases h

theorem mem_searchDirectory (h : SameButRulesAbove directory tree tree') {p : AbsolutePath}
    {exclude : List AbsolutePath}
    (hSay : ∀ q : AbsolutePath, q.IsBelow directory → q <+: p →
      (IgnoreIndex.ofTree tree).SaySame (.ofTree tree') directory q (q != p)) :
    p ∈ searchDirectory tree (.ofTree tree) exclude directory ↔
      p ∈ searchDirectory tree' (.ofTree tree') exclude directory := by
  rw [mem_searchDirectory_iff, mem_searchDirectory_iff]
  constructor
  · rintro ⟨entry, hMem, hFile, hName, hReach⟩
    have hMem' := h.mem_entries hMem (not_isRuleFileAbove hName entry)
    rw [h.reaches_eq hMem hMem' exclude hSay] at hReach
    exact ⟨entry, hMem', hFile, hName, hReach⟩
  · rintro ⟨entry, hMem', hFile, hName, hReach⟩
    have hMem := h.symm.mem_entries hMem' (not_isRuleFileAbove hName entry)
    rw [← h.reaches_eq hMem hMem' exclude hSay] at hReach
    exact ⟨entry, hMem, hFile, hName, hReach⟩

end SameButRulesAbove

/-! ## Files that a change above can touch -/

/-- **Ignore files above a directory.** Between two trees that differ in ignore files above a directory
alone, the search of the directory finds the same files, as far as those ignore files say the same: a
file is found in both or in neither if they say the same about all paths on the way to it. -/
theorem findPhpFiles_rulesAbove {tree tree' : FileTree} {directory : AbsolutePath} {path : String}
    {exclude : List String} {excluded : List AbsolutePath}
    (hSame : SameButRulesAbove directory tree tree') (hPath : tree.resolve path = .ok directory)
    (hPath' : tree'.resolve path = .ok directory) (hDirectory : tree.isDirectory directory = true)
    (hDirectory' : tree'.isDirectory directory = true)
    (hExclude : resolveAll tree exclude = .ok excluded)
    (hExclude' : resolveAll tree' exclude = .ok excluded) (sort : Bool) :
    ∃ files files', findPhpFiles tree [path] exclude sort = .ok files ∧
      findPhpFiles tree' [path] exclude sort = .ok files' ∧
      (∀ p, (∀ q : AbsolutePath, q.IsBelow directory → q <+: p →
          (IgnoreIndex.ofTree tree).SaySame (.ofTree tree') directory q (q != p)) →
        (p ∈ files ↔ p ∈ files')) ∧
      ((∀ (q : AbsolutePath) (isDirectory : Bool), q.IsBelow directory →
          (IgnoreIndex.ofTree tree).SaySame (.ofTree tree') directory q isDirectory) →
        files.Perm files' ∧ (sort = true → files = files')) := by
  have hFiles := findPhpFiles_directory hPath hDirectory hExclude sort
  have hFiles' := findPhpFiles_directory hPath' hDirectory' hExclude' sort
  refine ⟨_, _, hFiles, hFiles', ?_, ?_⟩
  · intro p hSay
    rw [mem_listed, mem_listed]
    exact hSame.mem_searchDirectory hSay
  · intro hSay
    have hAll : ∀ p, p ∈ searchDirectory tree (.ofTree tree) excluded directory ↔
        p ∈ searchDirectory tree' (.ofTree tree') excluded directory := by
      intro p
      exact hSame.mem_searchDirectory fun q hq _ => hSay q (q != p) hq
    constructor
    · rw [List.perm_ext_iff_of_nodup (nodup_listed _ _) (nodup_listed _ _)]
      intro p
      rw [mem_listed, mem_listed, hAll]
    · rintro rfl
      exact listed_congr hAll

/-- A directory below a repository whose ignore file has a line. -/
def parentRules (line : String) : FileTree :=
  { entries := [([".git"], .directory), ([".gitignore"], .file line.toUTF8),
      (["d", "a.php"], .file .empty)] }

/-- The same without the ignore file. -/
def noParentRules : FileTree :=
  { entries := [([".git"], .directory), (["d", "a.php"], .file .empty)] }

theorem sameButRulesAbove_parentRules (line : String) :
    SameButRulesAbove ["d"] (parentRules line) noParentRules := rfl

/-- A line about another directory leaves the file where it is. -/
theorem findPhpFiles_rulesAbove_build :
    let file : AbsolutePath := ["d", "a.php"]
    SameButRulesAbove ["d"] (parentRules "/build") noParentRules ∧
      ∃ files files', findPhpFiles (parentRules "/build") ["d"] [] true = .ok files ∧
        findPhpFiles noParentRules ["d"] [] true = .ok files' ∧ file ∈ files' ∧ file ∈ files := by
  intro file
  have hSame := sameButRulesAbove_parentRules "/build"
  have hPath : (parentRules "/build").resolve "d" = .ok ["d"] := by decide +kernel
  have hPath' : noParentRules.resolve "d" = .ok ["d"] := by decide +kernel
  have hExclude : resolveAll (parentRules "/build") [] = .ok [] := rfl
  have hExclude' : resolveAll noParentRules [] = .ok [] := rfl
  obtain ⟨files, files', hFiles, hFiles', hMem, -⟩ :=
    findPhpFiles_rulesAbove hSame hPath hPath' (by decide +kernel) (by decide +kernel) hExclude
      hExclude' true
  have hFound : findPhpFiles noParentRules ["d"] [] true = .ok [file] := by decide +kernel
  obtain rfl := Except.ok.inj (hFiles'.symm.trans hFound)
  have hThere : file ∈ [file] := List.mem_singleton_self file
  refine ⟨hSame, files, [file], hFiles, hFiles', hThere, (hMem file ?_).mpr hThere⟩
  intro q hq hPrefix
  -- the only step on the way is the file itself
  obtain rfl : q = file := by
    have hLt := hq.length_lt
    have hLe := hPrefix.length_le
    apply hPrefix.eq_of_length
    simp only [file, List.length_cons, List.length_nil] at hLt hLe ⊢
    omega
  exact ⟨by decide +kernel, by decide +kernel, fun _ => by decide +kernel⟩

/-- A line of an ignore file of version control above a directory hides a file of the directory. -/
theorem findPhpFiles_parentRules :
    SameButRulesAbove ["d"] (parentRules "a.php") noParentRules ∧
      findPhpFiles (parentRules "a.php") ["d"] [] true = .ok [] ∧
      findPhpFiles noParentRules ["d"] [] true = .ok [["d", "a.php"]] :=
  ⟨sameButRulesAbove_parentRules _, by decide +kernel, by decide +kernel⟩

end TagLint.Files
