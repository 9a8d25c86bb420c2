import TagLint.Proofs.ExcludedFiles

/-!
# Lists of found files

The files of a successful search are listed once each, those given by name in front, and in the order
of their paths if they are sorted. A sorted list is known by its members.

* `AbsolutePath.before_iff`: the order of files is that of their paths, name by name.
* `listed_strict`, `eq_of_strict`: sorted lists are strictly increasing and known by their members.
* `listed_append`: in an unsorted list the first files come first.
* `findPhpFiles_eq_ok_iff`: what a successful search lists.
-/

namespace TagLint.Files

/-! ## The order of paths -/

namespace AbsolutePath

theorem before_iff {p q : AbsolutePath} : before p q = true ↔ p = q ∨ p < q := by
  induction p generalizing q with
  | nil => cases q <;> simp [before]
  | cons a p ih =>
    cases q with
    | nil => simp [before]
    | cons b q =>
      rw [before, List.cons_lt_cons_iff, List.cons.injEq]
      by_cases h : a = b
      · subst h
        simp only [beq_self_eq_true, if_true, ih, true_and, String.lt_irrefl, false_or]
      · simp [h]

theorem before_trans (p q r : AbsolutePath) (h : before p q = true) (h' : before q r = true) :
    before p r = true := by
  rw [before_iff] at h h' ⊢
  rcases h with rfl | h
  · exact h'
  · rcases h' with rfl | h'
    · exact .inr h
    · exact .inr (List.lt_trans h h')

theorem before_total (p q : AbsolutePath) : (before p q || before q p) = true := by
  rw [Bool.or_eq_true, before_iff, before_iff]
  by_cases h : p < q
  · exact .inl (.inr h)
  · by_cases h' : q < p
    · exact .inr (.inr h')
    · exact .inl (.inl (Std.Trichotomous.trichotomous (r := fun p q : AbsolutePath => p < q) p q h h'))

end AbsolutePath

/-! ## Each file once -/

theorem nodup_eraseDups (files : List AbsolutePath) : files.eraseDups.Nodup := by
  cases files with
  | nil => simp
  | cons p files =>
    rw [List.eraseDups_cons, List.nodup_cons]
    refine ⟨?_, nodup_eraseDups _⟩
    intro h
    have hMem := (List.mem_filter.mp (List.mem_eraseDups.mp h)).2
    simp at hMem
termination_by files.length
decreasing_by
  have hLe := List.length_filter_le (fun q => !q == p) files
  simp only [List.length_cons]
  omega

/-- The files of a list, once each and sorted if wanted. -/
def listed (sort : Bool) (files : List AbsolutePath) : List AbsolutePath :=
  if sort then files.eraseDups.mergeSort AbsolutePath.before else files.eraseDups

theorem listed_perm (sort : Bool) (files : List AbsolutePath) :
    (listed sort files).Perm files.eraseDups := by
  cases sort with
  | true => exact List.mergeSort_perm _ _
  | false => exact .refl _

theorem mem_listed {sort : Bool} {files : List AbsolutePath} {p : AbsolutePath} :
    p ∈ listed sort files ↔ p ∈ files := by
  rw [(listed_perm sort files).mem_iff, List.mem_eraseDups]

theorem nodup_listed (sort : Bool) (files : List AbsolutePath) : (listed sort files).Nodup :=
  (listed_perm sort files).nodup_iff.mpr (nodup_eraseDups files)

theorem listed_strict (files : List AbsolutePath) :
    (listed true files).Pairwise fun p q => p < q := by
  have hSorted := List.pairwise_mergeSort AbsolutePath.before_trans AbsolutePath.before_total
    files.eraseDups
  have hApart : (listed true files).Pairwise (· ≠ ·) := nodup_listed true files
  refine List.Pairwise.imp₂ ?_ hSorted hApart
  intro p q hBefore hNe
  exact (AbsolutePath.before_iff.mp hBefore).resolve_left hNe

/-- A strictly increasing list is known by its members. -/
theorem eq_of_strict {files files' : List AbsolutePath} (h : files.Pairwise fun p q => p < q)
    (h' : files'.Pairwise fun p q => p < q) (hMem : ∀ p, p ∈ files ↔ p ∈ files') : files = files' := by
  have hNodup : ∀ {ps : List AbsolutePath}, (ps.Pairwise fun p q => p < q) → ps.Nodup := by
    intro ps hStrict
    refine hStrict.imp ?_
    rintro p _ hLt rfl
    exact List.lt_irrefl p hLt
  have hPerm := (List.perm_ext_iff_of_nodup (hNodup h) (hNodup h')).mpr hMem
  apply List.Perm.eq_of_pairwise _ h h' hPerm
  intro p q _ _ hLt hGt
  exact absurd (List.lt_trans hLt hGt) (List.lt_irrefl p)

theorem listed_congr {files files' : List AbsolutePath} (h : ∀ p, p ∈ files ↔ p ∈ files') :
    listed true files = listed true files' := by
  refine eq_of_strict (listed_strict files) (listed_strict files') fun p => ?_
  rw [mem_listed, mem_listed, h]

/-- Without sorting, the files of a first list come in front, in the order of their first mention, and
those of a second list alone behind them. -/
theorem listed_append (named found : List AbsolutePath) :
    ∃ rest, listed false (named ++ found) = named.eraseDups ++ rest ∧
      ∀ p ∈ rest, p ∈ found ∧ p ∉ named := by
  refine ⟨(found.removeAll named).eraseDups, List.eraseDups_append, ?_⟩
  intro p hp
  have hMem := List.mem_eraseDups.mp hp
  simpa [List.removeAll] using hMem

/-! ## What a search lists -/

theorem FileTree.mem_of_lookup {tree : FileTree} {p : AbsolutePath} {entry : Entry}
    (h : tree.entries.lookup p = some entry) : (p, entry) ∈ tree.entries := by
  obtain ⟨front, back, hSplit, -⟩ := List.lookup_eq_some_iff.mp h
  rw [hSplit]
  exact List.mem_append_right _ List.mem_cons_self

/-- The PHP files among the inputs, but for the excluded ones. -/
def namedFiles (tree : FileTree) (excluded inputs : List AbsolutePath) : List AbsolutePath :=
  inputs.filter fun p => !tree.isDirectory p && hasPhpExtension p && !excluded.contains p

/-- The PHP files that the searches of the directories among the inputs find. -/
def searchedFiles (tree : FileTree) (excluded inputs : List AbsolutePath) : List AbsolutePath :=
  (inputs.filter (tree.isDirectory ·)).flatMap (searchDirectory tree (.ofTree tree) excluded)

theorem findPhpFiles_eq_ok_iff {tree : FileTree} {paths exclude : List String} {sort : Bool}
    {files : List AbsolutePath} :
    findPhpFiles tree paths exclude sort = .ok files ↔
      ∃ excluded inputs, resolveAll tree exclude = .ok excluded ∧
        resolveAll tree paths = .ok inputs ∧
        files = listed sort (namedFiles tree excluded inputs ++ searchedFiles tree excluded inputs) := by
  unfold findPhpFiles
  cases hExclude : resolveAll tree exclude with
  | error e =>
    constructor
    · rintro ⟨⟩
    · rintro ⟨excluded, inputs, ⟨⟩, -⟩
  | ok excluded =>
    cases hPaths : resolveAll tree paths with
    | error e =>
      constructor
      · rintro ⟨⟩
      · rintro ⟨-, inputs, -, ⟨⟩, -⟩
    | ok inputs =>
      constructor
      · intro h
        exact ⟨excluded, inputs, rfl, rfl, (Except.ok.inj h).symm⟩
      · rintro ⟨excluded', inputs', hExcluded, hInputs, rfl⟩
        obtain rfl := Except.ok.inj hExcluded
        obtain rfl := Except.ok.inj hInputs
        rfl

theorem resolveAll_singleton {tree : FileTree} {path : String} {place : AbsolutePath}
    (h : tree.resolve path = .ok place) : resolveAll tree [path] = .ok [place] := by
  rw [resolveAll_cons, h]
  rfl

/-- A directory alone is searched. -/
theorem findPhpFiles_directory {tree : FileTree} {path : String} {directory : AbsolutePath}
    {exclude : List String} {excluded : List AbsolutePath} (hPath : tree.resolve path = .ok directory)
    (hDirectory : tree.isDirectory directory = true) (hExclude : resolveAll tree exclude = .ok excluded)
    (sort : Bool) :
    findPhpFiles tree [path] exclude sort =
      .ok (listed sort (searchDirectory tree (.ofTree tree) excluded directory)) := by
  refine findPhpFiles_eq_ok_iff.mpr ⟨excluded, [directory], hExclude, resolveAll_singleton hPath, ?_⟩
  simp [namedFiles, searchedFiles, hDirectory]

/-- A file alone is taken if its extension is that of PHP, unless it is excluded. -/
theorem findPhpFiles_file {tree : FileTree} {path : String} {p : AbsolutePath}
    {exclude : List String} {excluded : List AbsolutePath} (hPath : tree.resolve path = .ok p)
    (hFile : tree.isDirectory p = false) (hExclude : resolveAll tree exclude = .ok excluded)
    (sort : Bool) :
    findPhpFiles tree [path] exclude sort =
      .ok (listed sort (if hasPhpExtension p && !excluded.contains p then [p] else [])) := by
  refine findPhpFiles_eq_ok_iff.mpr ⟨excluded, [p], hExclude, resolveAll_singleton hPath, ?_⟩
  simp [namedFiles, searchedFiles, List.filter_cons, hFile]

end TagLint.Files
