import TagLint.Proofs.RunOutcome

/-!
# Failed runs

A run fails if something stands in its way: a path that leads nowhere, no file to look at, a file
that cannot be read as text, or an output that cannot be opened. All of this is known before anything
is written.

* `run_cases`: a run meets an obstacle, or all its files are linted and its output is open.
* `run_failed_untouched`: a run that has failed has changed nothing.
-/

namespace TagLint

open Files (AbsolutePath FileTree)

/-! ## Paths -/

theorem resolveAll_cons (tree : FileTree) (path : String) (paths : List String) :
    Files.resolveAll tree (path :: paths) =
      match tree.resolve path with
      | .error failure => .error (.io path failure)
      | .ok place => (Files.resolveAll tree paths).map (place :: ·) := by
  unfold Files.resolveAll
  rw [List.mapM_cons]
  cases tree.resolve path with
  | error failure => rfl
  | ok place =>
    cases List.mapM (fun path => (tree.resolve path).mapError (Error.io path)) paths with
    | error e => rfl
    | ok places => rfl

theorem resolveAll_eq_error {tree : FileTree} {paths : List String} {e : Error}
    (h : Files.resolveAll tree paths = .error e) :
    ∃ path ∈ paths, ∃ failure, tree.resolve path = .error failure ∧ e = .io path failure := by
  induction paths with
  | nil => cases h
  | cons path paths ih =>
    rw [resolveAll_cons] at h
    cases hPath : tree.resolve path with
    | error failure =>
      rw [hPath] at h
      exact ⟨path, List.mem_cons_self, failure, hPath, (Except.error.inj h).symm⟩
    | ok place =>
      rw [hPath] at h
      cases hRest : Files.resolveAll tree paths with
      | error e' =>
        rw [hRest] at h
        obtain ⟨other, hOther, hFailure⟩ := ih (hRest.trans h)
        exact ⟨other, List.mem_cons_of_mem _ hOther, hFailure⟩
      | ok places =>
        rw [hRest] at h
        cases h

theorem resolve_of_resolveAll {tree : FileTree} {paths : List String} {places : List AbsolutePath}
    (h : Files.resolveAll tree paths = .ok places) :
    ∀ path ∈ paths, ∃ place, tree.resolve path = .ok place := by
  induction paths generalizing places with
  | nil => simp
  | cons path paths ih =>
    rw [resolveAll_cons] at h
    cases hPath : tree.resolve path with
    | error failure =>
      rw [hPath] at h
      cases h
    | ok place =>
      rw [hPath] at h
      cases hRest : Files.resolveAll tree paths with
      | error e =>
        rw [hRest] at h
        cases h
      | ok rest => exact List.forall_mem_cons.mpr ⟨⟨place, hPath⟩, ih hRest⟩

/-! ## Obstacles -/

/-- What stands in the way of a run, and how it is told. -/
inductive Obstacle (settings : Settings) (tree : FileTree) : RunError → Prop
  | excludedPath {path : String} {failure : IoFailure} (hMem : path ∈ settings.analysis.exclude)
      (h : tree.resolve path = .error failure) : Obstacle settings tree (.source (.io path failure))
  | inputPath {path : String} {failure : IoFailure} (hMem : path ∈ settings.analysis.paths)
      (h : tree.resolve path = .error failure) : Obstacle settings tree (.source (.io path failure))
  | noFiles (h : settings.findFiles tree = .ok []) : Obstacle settings tree .noFiles
  | inputFile {files : List AbsolutePath} {file : AbsolutePath} {failure : IoFailure}
      (hFiles : settings.findFiles tree = .ok files) (hMem : file ∈ files)
      (h : Unreadable tree file failure) : Obstacle settings tree (.source (.io file.display failure))
  | outputFile {path : String} {failure : IoFailure} (hOut : settings.output.out = some path)
      (h : tree.outputPlace path = .error failure) :
      Obstacle settings tree (.source (.io path failure))

theorem findFiles_eq_error {settings : Settings} {tree : FileTree} {e : Error}
    (h : settings.findFiles tree = .error e) : Obstacle settings tree (.source e) := by
  unfold Settings.findFiles Files.findPhpFiles at h
  cases hExclude : Files.resolveAll tree settings.analysis.exclude with
  | error e' =>
    rw [hExclude] at h
    obtain rfl := Except.error.inj h
    obtain ⟨path, hMem, failure, hPath, rfl⟩ := resolveAll_eq_error hExclude
    exact .excludedPath hMem hPath
  | ok exclude =>
    cases hPaths : Files.resolveAll tree settings.analysis.paths with
    | error e' =>
      rw [hExclude, hPaths] at h
      obtain rfl := Except.error.inj h
      obtain ⟨path, hMem, failure, hPath, rfl⟩ := resolveAll_eq_error hPaths
      exact .inputPath hMem hPath
    | ok inputs =>
      rw [hExclude, hPaths] at h
      cases h

theorem resolve_of_findFiles {settings : Settings} {tree : FileTree} {files : List AbsolutePath}
    (h : settings.findFiles tree = .ok files) :
    ∀ path ∈ settings.analysis.exclude ++ settings.analysis.paths,
      ∃ place, tree.resolve path = .ok place := by
  unfold Settings.findFiles Files.findPhpFiles at h
  cases hExclude : Files.resolveAll tree settings.analysis.exclude with
  | error e =>
    rw [hExclude] at h
    cases h
  | ok exclude =>
    cases hPaths : Files.resolveAll tree settings.analysis.paths with
    | error e =>
      rw [hExclude, hPaths] at h
      cases h
    | ok inputs =>
      exact List.forall_mem_append.mpr
        ⟨resolve_of_resolveAll hExclude, resolve_of_resolveAll hPaths⟩

theorem destination?_eq_error {settings : Settings} {tree : FileTree} {isClean : Bool}
    {e : RunError} (h : destination? tree settings.output.out isClean = .error e) :
    Obstacle settings tree e := by
  cases hOut : settings.output.out with
  | none =>
    rw [hOut] at h
    cases h
  | some path =>
    rw [hOut] at h
    cases hPlace : tree.outputPlace path with
    | ok place => simp only [destination?, hPlace, reduceCtorEq] at h
    | error failure =>
      simp only [destination?, hPlace, Except.error.injEq] at h
      exact h ▸ .outputFile hOut hPlace

/-- Nothing stands in the way of a run that looks at these files. -/
structure Unobstructed (settings : Settings) (tree : FileTree) (files : List AbsolutePath) :
    Prop where
  found : settings.findFiles tree = .ok files
  ne_nil : files ≠ []
  readable : ∀ file ∈ files, ∃ text, sourceText? tree file = some text
  opens : ∀ path, settings.output.out = some path → ∃ place, tree.outputPlace path = .ok place

theorem Unreadable.sourceText?_eq {tree : FileTree} {file : AbsolutePath} {failure : IoFailure}
    (h : Unreadable tree file failure) : sourceText? tree file = none := by
  cases h with
  | unopened hRead => exact sourceText?_of_unread hRead
  | notText hRead hText => exact (sourceText?_of_read hRead).trans hText

theorem Unobstructed.not_obstacle {settings : Settings} {tree : FileTree}
    {files : List AbsolutePath} (h : Unobstructed settings tree files) (e : RunError) :
    ¬ Obstacle settings tree e := by
  intro hObstacle
  have hResolved := List.forall_mem_append.mp (resolve_of_findFiles h.found)
  cases hObstacle with
  | excludedPath hMem hPath =>
    obtain ⟨place, hPlace⟩ := hResolved.1 _ hMem
    rw [hPlace] at hPath
    cases hPath
  | inputPath hMem hPath =>
    obtain ⟨place, hPlace⟩ := hResolved.2 _ hMem
    rw [hPlace] at hPath
    cases hPath
  | noFiles hNone =>
    rw [h.found] at hNone
    exact h.ne_nil (Except.ok.inj hNone)
  | inputFile hFiles hMem hFile =>
    rw [h.found] at hFiles
    obtain rfl := Except.ok.inj hFiles
    obtain ⟨text, hText⟩ := h.readable _ hMem
    rw [hFile.sourceText?_eq] at hText
    cases hText
  | outputFile hOut hFailure =>
    obtain ⟨place, hPlace⟩ := h.opens _ hOut
    rw [hPlace] at hFailure
    cases hFailure

theorem opens_of_destination? {tree : FileTree} {out : Option String} {isClean : Bool}
    {destination : Destination} (h : destination? tree out isClean = .ok destination) :
    ∀ path, out = some path → ∃ place, tree.outputPlace path = .ok place := by
  rintro path rfl
  cases hPlace : tree.outputPlace path with
  | ok place => exact ⟨place, rfl⟩
  | error failure => simp only [destination?, hPlace, reduceCtorEq] at h

/-! ## What a run can do -/

/-- A run that writes: all its files have been linted and its output is open. -/
structure Completes (settings : Settings) (session : Session) (files : List AbsolutePath)
    (found : List FileDiagnostics) (kept : List (DocumentId × String))
    (destination : Destination) : Prop where
  linted : ∃ store, lintFiles session.tree (.ofSettings settings) settings.output.keepsTexts .fresh
    files = (.ok found, store) ∧ store.kept = kept
  opened : destination? session.tree settings.output.out found.isEmpty = .ok destination
  outcome : (run settings).perform session =
    if found.isEmpty then
      (.ok .noDiagnostics, session.receive (cleanText settings.output.json) destination)
    else
      (.ok .someDiagnostics,
        session.receive (outputText settings.output session.root kept found) destination)

theorem run_cases (settings : Settings) (session : Session) :
    (∃ e, Obstacle settings session.tree e ∧
      (run settings).perform session = (.error e, session)) ∨
    ∃ files found kept destination, Unobstructed settings session.tree files ∧
      Completes settings session files found kept destination := by
  have hRun := run_perform settings session
  cases hFiles : settings.findFiles session.tree with
  | error e =>
    rw [hFiles] at hRun
    exact .inl ⟨_, findFiles_eq_error hFiles, hRun⟩
  | ok files =>
    simp only [hFiles] at hRun
    by_cases hEmpty : files = []
    · subst hEmpty
      exact .inl ⟨_, .noFiles hFiles, hRun⟩
    · rw [if_neg (by simpa using hEmpty)] at hRun
      rcases lintFiles_cases session.tree (.ofSettings settings) settings.output.keepsTexts .fresh
        files with ⟨file, hMem, failure, hFailure, hError⟩ | ⟨hReadable, found, hFound, -⟩
      · rcases hLint : lintFiles session.tree (.ofSettings settings) settings.output.keepsTexts
          .fresh files with ⟨linted, store⟩
        rw [hLint] at hError hRun
        subst hError
        exact .inl ⟨_, .inputFile hFiles hMem hFailure, hRun⟩
      · rcases hLint : lintFiles session.tree (.ofSettings settings) settings.output.keepsTexts
          .fresh files with ⟨linted, store⟩
        rw [hLint] at hFound hRun
        subst hFound
        dsimp only at hRun
        cases hOpen : destination? session.tree settings.output.out found.isEmpty with
        | error e =>
          rw [hOpen] at hRun
          exact .inl ⟨_, destination?_eq_error hOpen, hRun⟩
        | ok destination =>
          rw [hOpen] at hRun
          exact .inr ⟨files, found, store.kept, destination,
            ⟨hFiles, hEmpty, hReadable, opens_of_destination? hOpen⟩,
            ⟨⟨store, hLint, rfl⟩, hOpen, hRun⟩⟩

theorem Completes.ok {settings : Settings} {session : Session} {files : List AbsolutePath}
    {found : List FileDiagnostics} {kept : List (DocumentId × String)} {destination : Destination}
    (h : Completes settings session files found kept destination) :
    ∃ result, ((run settings).perform session).1 = .ok result := by
  rw [h.outcome]
  split
  · exact ⟨_, rfl⟩
  · exact ⟨_, rfl⟩

/-- **Failed runs leave no trace.** A run fails exactly if something stands in its way: a path that
leads nowhere, no file to look at, a file that cannot be read as text, or an output that cannot be
opened. Whatever has been found before, nothing has then been written, and every file, the one for
the output included, is what it was. -/
theorem run_failed_untouched (settings : Settings) (session : Session) :
    (∀ e after, (run settings).perform session = (.error e, after) →
      Obstacle settings session.tree e ∧ after = session) ∧
    ∀ e, Obstacle settings session.tree e →
      ∃ e', (run settings).perform session = (.error e', session) := by
  rcases run_cases settings session with ⟨e, hObstacle, hRun⟩ | ⟨_, _, _, _, hFree, hDone⟩
  · constructor
    · intro e' after hFailed
      rw [hRun] at hFailed
      cases hFailed
      exact ⟨hObstacle, rfl⟩
    · intro _ _
      exact ⟨e, hRun⟩
  · constructor
    · intro e after hFailed
      obtain ⟨result, hResult⟩ := hDone.ok
      rw [hFailed] at hResult
      cases hResult
    · intro e hObstacle
      exact absurd hObstacle (hFree.not_obstacle e)

/-- The first file has findings and is to be overwritten, and the second one cannot be opened or is no
text. -/
theorem run_failed_untouched_secondFile :
    let session := fun second : Files.Entry => ({ tree := {
      entries := [(["a.php"], .file "<?php /**".toUTF8), (["b.php"], second)] } } : Session)
    let settings : Settings :=
      { analysis := { paths := ["a.php", "."] }, output := { out := some "a.php" } }
    (∃ findings, fileFindings? (session .locked).tree {} ["a.php"] = some findings) ∧
      ((run settings).perform (session .locked)).1 =
        .error (.source (.io "/b.php" .notPermitted)) ∧
      (∃ e, (run settings).perform (session .locked) = (.error e, session .locked)) ∧
      ∃ e, (run settings).perform (session (.file ⟨#[255]⟩)) =
        (.error e, session (.file ⟨#[255]⟩)) := by
  intro session settings
  have hText : sourceText? (session .locked).tree ["a.php"] = some "<?php /**" := by decide +kernel
  have hLocked : settings.findFiles (session .locked).tree = .ok [["a.php"], ["b.php"]] := by
    decide +kernel
  have hBytes : settings.findFiles (session (.file ⟨#[255]⟩)).tree = .ok [["a.php"], ["b.php"]] := by
    decide +kernel
  have hUnopened : Unreadable (session .locked).tree ["b.php"] .notPermitted := .unopened rfl
  have hNotText : Unreadable (session (.file ⟨#[255]⟩)).tree ["b.php"] .invalidText :=
    .notText rfl (by decide +kernel)
  refine ⟨⟨_, fileFindings?_of_text {} hText ?_⟩, by decide +kernel, ?_, ?_⟩
  · rw [lintSource, Php.parseSource, complete_eq_map]
    decide +kernel
  · exact (run_failed_untouched settings _).2 _ (.inputFile hLocked (by simp) hUnopened)
  · exact (run_failed_untouched settings _).2 _ (.inputFile hBytes (by simp) hNotText)

end TagLint
