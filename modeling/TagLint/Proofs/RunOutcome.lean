import TagLint.Proofs.Interleaving

/-!
# The outcome of a run

What a run does to the files and the output streams, without its steps: either nothing at all, or the
whole text of its report has gone to one destination.

* `lintFiles_cases`: linting fails at a file that cannot be read, or finds what is in the texts.
* `run_perform`: the outcome of a run as one case distinction.
-/

namespace TagLint

open Files (AbsolutePath FileTree)

/-! ## Actions -/

namespace Action

variable {ε α β : Type}

@[simp]
theorem perform_pure (a : α) (session : Session) :
    (pure a : Action ε α).perform session = (.ok a, session) := rfl

@[simp]
theorem perform_throw (e : ε) (session : Session) :
    (throw e : Action ε α).perform session = (.error e, session) := rfl

@[simp]
theorem perform_files (session : Session) :
    (files : Action ε FileTree).perform session = (.ok session.tree, session) := rfl

@[simp]
theorem perform_modify (change : Session → Session) (session : Session) :
    (modify change : Action ε PUnit).perform session = (.ok ⟨⟩, change session) := rfl

theorem perform_bind (action : Action ε α) (next : α → Action ε β) (session : Session) :
    (action >>= next).perform session =
      match action.perform session with
      | (.ok a, session) => (next a).perform session
      | (.error e, session) => (.error e, session) := by
  unfold perform
  rw [ExceptT.run_bind, StateT.run_bind]
  cases (ExceptT.run action).run session with
  | mk result after =>
    cases result with
    | ok a => rfl
    | error e => rfl

@[simp]
theorem perform_check (x : Except ε α) (session : Session) :
    (check x).perform session = (x, session) := by
  cases x with
  | ok a => rfl
  | error e => rfl

end Action

/-! ## Destinations -/

theorem Files.FileTree.bytes?_write (tree : FileTree) (place : AbsolutePath) (bytes : ByteArray) :
    (tree.write place bytes).bytes? place = some bytes := by
  have hEntry : (tree.write place bytes).entries.lookup place = some (.file bytes) := by
    have hOthers : (tree.entries.filter (·.1 != place)).lookup place = none := by
      simp only [List.lookup_eq_none_iff, List.mem_filter, bne_iff_ne]
      intro entry hEntry
      exact hEntry.2.symm
    rw [write, List.lookup_append, hOthers, Option.none_or, List.lookup_cons_self]
  rw [bytes?, read, entry?, hEntry]
  rfl

theorem Files.FileTree.write_write (tree : FileTree) (place : AbsolutePath)
    (bytes bytes' : ByteArray) :
    (tree.write place bytes).write place bytes' = tree.write place bytes' := by
  simp [write, List.filter_filter]

/-- Where the output goes, if it can be opened. -/
def destination? (tree : FileTree) (out : Option String) (isClean : Bool) :
    Except RunError Destination :=
  match out with
  | none => .ok (if isClean then .stdout else .stderr)
  | some path =>
    match tree.outputPlace path with
    | .ok place => .ok (.file place)
    | .error failure => .error (.source (.io path failure))

/-- A session in which a text has gone to a destination. A file then holds nothing else. -/
def Session.receive (session : Session) (text : String) : Destination → Session
  | .stdout => { session with stdout := session.stdout ++ text }
  | .stderr => { session with stderr := session.stderr ++ text }
  | .file place => { session with tree := session.tree.write place text.toUTF8 }

theorem openOutput_perform (out : Option String) (isClean : Bool) (session : Session) :
    (openOutput out isClean).perform session =
      match destination? session.tree out isClean with
      | .ok destination => (.ok destination, session.receive "" destination)
      | .error e => (.error e, session) := by
  cases out with
  | none => cases isClean <;> simp [openOutput, destination?, Session.receive]
  | some path =>
    unfold openOutput destination?
    simp only [Action.perform_bind, Action.perform_files, Action.perform_check]
    cases session.tree.outputPlace path with
    | ok place => rfl
    | error failure => rfl

theorem Destination.write_perform (destination : Destination) (text : String) (session : Session) :
    (destination.write text).perform (session.receive "" destination) =
      (.ok (), session.receive text destination) := by
  cases destination with
  | stdout => simp [Destination.write, Action.print, Session.receive]
  | stderr => simp [Destination.write, Action.printError, Session.receive]
  | file place =>
    -- the file was emptied, so what is added to it is all that it holds
    simp only [Destination.write, Action.appendFile, Action.perform_modify, Session.receive,
      FileTree.bytes?_write, FileTree.write_write, Option.getD_some, Prod.mk.injEq, true_and,
      Session.mk.injEq, and_true]
    rw [show "".toUTF8 = ByteArray.empty from rfl, ByteArray.empty_append]

theorem Session.workingDirectory_receive (session : Session) (text : String)
    (destination : Destination) :
    (session.receive text destination).tree.workingDirectory = session.tree.workingDirectory := by
  cases destination with
  | stdout => rfl
  | stderr => rfl
  | file place => rfl

/-! ## Linting files -/

section Lint

variable {tree : FileTree} {file : AbsolutePath} {options : ValidationOptions} {keep : Bool}

theorem lintFile_of_text {text : String} (h : sourceText? tree file = some text)
    (options : ValidationOptions) (keep : Bool) (store : SourceStore) :
    (lintFile tree options keep store file).1 =
      .ok (FileDiagnostics.ofItems? file.display store.nextDocument
        (lintSource options text.toList)) := by
  cases hRead : tree.read file with
  | error failure =>
    rw [sourceText?_of_unread hRead] at h
    cases h
  | ok bytes =>
    rw [sourceText?_of_read hRead] at h
    simp only [lintFile, hRead, SourceStore.parse_of_some _ _ _ h]
    rfl

/-- Why a file cannot be read. -/
inductive Unreadable (tree : FileTree) (file : AbsolutePath) : IoFailure → Prop
  | unopened {failure : IoFailure} (h : tree.read file = .error failure) :
      Unreadable tree file failure
  | notText {bytes : ByteArray} (h : tree.read file = .ok bytes)
      (hText : String.fromUTF8? bytes = none) : Unreadable tree file .invalidText

theorem exists_text_or_unreadable (tree : FileTree) (file : AbsolutePath) :
    (∃ text, sourceText? tree file = some text) ∨ ∃ failure, Unreadable tree file failure := by
  cases hRead : tree.read file with
  | error failure => exact .inr ⟨_, .unopened hRead⟩
  | ok bytes =>
    cases hText : String.fromUTF8? bytes with
    | none => exact .inr ⟨_, .notText hRead hText⟩
    | some text => exact .inl ⟨text, (sourceText?_of_read hRead).trans hText⟩

theorem lintFile_of_unreadable {failure : IoFailure} (h : Unreadable tree file failure)
    (options : ValidationOptions) (keep : Bool) (store : SourceStore) :
    (lintFile tree options keep store file).1 = .error (.io file.display failure) := by
  cases h with
  | unopened hRead => simp only [lintFile, hRead]
  | notText hRead hText =>
    simp only [lintFile, hRead, SourceStore.parse_of_none _ _ _ hText]
    rfl

theorem lintFile_live {store : SourceStore} (hLive : store.live = [0])
    (hNext : 0 < store.nextHandle) (file : AbsolutePath) :
    (lintFile tree options keep store file).2.live = [0] ∧
      0 < (lintFile tree options keep store file).2.nextHandle := by
  have hErase : (store.live ++ [store.nextHandle]).erase store.nextHandle = [0] := by
    rw [hLive]
    simp [Nat.ne_of_lt hNext]
  have hParse : ∀ (store : SourceStore) (bytes : ByteArray) (path : Option String),
      (store.parse bytes path keep).2.live = store.live ∧
        (store.parse bytes path keep).2.nextHandle = store.nextHandle := by
    intro store bytes path
    unfold SourceStore.parse
    split
    · exact ⟨rfl, rfl⟩
    · exact ⟨rfl, rfl⟩
  unfold lintFile
  dsimp only
  split
  · exact ⟨hErase, Nat.succ_pos _⟩
  · rename_i bytes _
    obtain ⟨hSame, hNumber⟩ := hParse store.clone.2 bytes (some file.display)
    dsimp only [SourceStore.release]
    rw [hSame, hNumber]
    exact ⟨hErase, Nat.succ_pos _⟩

theorem lintFiles_live {store : SourceStore} (hLive : store.live = [0])
    (hNext : 0 < store.nextHandle) (files : List AbsolutePath) :
    (lintFiles tree options keep store files).2.live = [0] := by
  induction files generalizing store with
  | nil => exact hLive
  | cons file files ih =>
    obtain ⟨hLive', hNext'⟩ := lintFile_live hLive hNext file
    unfold lintFiles
    split
    · rename_i hFile
      rwa [hFile] at hLive'
    · rename_i hFile
      rw [hFile] at hLive' hNext'
      exact ih hLive' hNext'

theorem lintFiles_cons_of_text {text : String} (h : sourceText? tree file = some text)
    (store : SourceStore) (files : List AbsolutePath) :
    (lintFiles tree options keep store (file :: files)).1 =
      (lintFiles tree options keep (lintFile tree options keep store file).2 files).1.map
        ((FileDiagnostics.ofItems? file.display store.nextDocument
          (lintSource options text.toList)).toList ++ ·) := by
  have hFile := lintFile_of_text h options keep store
  rw [lintFiles]
  split
  · rename_i hError
    rw [hError] at hFile
    cases hFile
  · rename_i hFound
    rw [hFound] at hFile ⊢
    rw [Except.ok.inj hFile]

theorem lintFiles_cons_of_unreadable {failure : IoFailure} (h : Unreadable tree file failure)
    (store : SourceStore) (files : List AbsolutePath) :
    (lintFiles tree options keep store (file :: files)).1 =
      .error (.io file.display failure) := by
  have hFile := lintFile_of_unreadable h options keep store
  rw [lintFiles]
  split
  · rename_i hError
    rw [hError] at hFile
    exact congrArg _ (Except.error.inj hFile)
  · rename_i hFound
    rw [hFound] at hFile
    cases hFile

/-- Linting fails at a file that cannot be read; if there is none, it finds what is in the texts,
whether these are kept or not. -/
theorem lintFiles_cases (tree : FileTree) (options : ValidationOptions) (keep : Bool)
    (store : SourceStore) (files : List AbsolutePath) :
    (∃ file ∈ files, ∃ failure, Unreadable tree file failure ∧
      (lintFiles tree options keep store files).1 = .error (.io file.display failure)) ∨
    (∀ file ∈ files, ∃ text, sourceText? tree file = some text) ∧
      ∃ found, (lintFiles tree options keep store files).1 = .ok found ∧
        found.map (fun file => (file.path, file.items)) =
          (files.filterMap (fileFindings? tree options)).map
            fun (path, _, items) => (path, items) := by
  induction files generalizing store with
  | nil => exact .inr ⟨by simp, [], rfl, rfl⟩
  | cons file files ih =>
    rcases exists_text_or_unreadable tree file with ⟨text, hText⟩ | ⟨failure, hFailure⟩
    · rw [lintFiles_cons_of_text hText]
      rcases ih (lintFile tree options keep store file).2 with
        ⟨other, hMem, failure, hFailure, hError⟩ | ⟨hReadable, found, hFound, hItems⟩
      · rw [hError]
        exact .inl ⟨other, List.mem_cons_of_mem _ hMem, failure, hFailure, rfl⟩
      · rw [hFound]
        refine .inr ⟨List.forall_mem_cons.mpr ⟨⟨text, hText⟩, hReadable⟩, _, rfl, ?_⟩
        rw [List.map_append, hItems, List.filterMap_cons, fileFindings?, hText, Option.bind_some,
          FileDiagnostics.ofItems?]
        dsimp only
        split
        · rfl
        · rfl
    · exact .inl ⟨file, List.mem_cons_self, failure, hFailure,
        lintFiles_cons_of_unreadable hFailure store files⟩

/-- No handle is left behind, so the texts can be taken. -/
theorem takeSources_lintFiles {files : List AbsolutePath}
    {result : Except Error (List FileDiagnostics)} {store : SourceStore}
    (h : lintFiles tree options keep .fresh files = (result, store)) :
    (store.takeSources 0).1 = .ok store.kept := by
  have hLive : store.live = [0] := by
    rw [show store = (lintFiles tree options keep .fresh files).2 by rw [h]]
    exact lintFiles_live rfl Nat.one_pos files
  rw [store.takeSources_of_erase_eq_nil 0 (by simp [hLive])]

end Lint

/-! ## Runs -/

/-- The files that a run looks at. -/
def Settings.findFiles (settings : Settings) (tree : FileTree) :
    Except TagLint.Error (List AbsolutePath) :=
  Files.findPhpFiles tree settings.analysis.paths settings.analysis.exclude settings.output.sort

/-- Whether a run keeps the texts of its files. -/
def OutputSettings.keepsTexts (output : OutputSettings) : Bool :=
  !output.compact && !output.json

/-- How the root of relative paths is written in reports. -/
def Session.root (session : Session) : String :=
  session.tree.workingDirectory.display

/-- Findings in the form that the settings ask for. -/
def outputText (output : OutputSettings) (root : String) (kept : List (DocumentId × String))
    (found : List FileDiagnostics) : String :=
  if output.json then dataText output.compact found
  else reportText root output.compact (if output.compact then [] else kept) found

theorem writeFindings_perform (output : OutputSettings) {store : SourceStore}
    (h : (store.takeSources 0).1 = .ok store.kept) (destination : Destination)
    (found : List FileDiagnostics) (session : Session) :
    (writeFindings output store destination found).perform (session.receive "" destination) =
      (.ok (), session.receive (outputText output session.root store.kept found) destination) := by
  have hRoot := session.workingDirectory_receive "" destination
  unfold writeFindings outputText
  cases output.json with
  | true => exact destination.write_perform _ session
  | false =>
    cases output.compact with
    | true =>
      simp only [Bool.false_eq_true, if_false, if_true, Action.perform_bind, Action.perform_files,
        Action.perform_pure, hRoot]
      exact destination.write_perform _ session
    | false =>
      simp only [Bool.false_eq_true, if_false, Action.perform_bind, Action.perform_files,
        Action.perform_check, h, hRoot, Except.mapError]
      exact destination.write_perform _ session

theorem run_perform (settings : Settings) (session : Session) :
    (run settings).perform session =
      match settings.findFiles session.tree with
      | .error e => (.error (.source e), session)
      | .ok files =>
        if files.isEmpty then (.error .noFiles, session)
        else
          match lintFiles session.tree (.ofSettings settings) settings.output.keepsTexts .fresh
            files with
          | (.error e, _) => (.error (.source e), session)
          | (.ok found, store) =>
            match destination? session.tree settings.output.out found.isEmpty with
            | .error e => (.error e, session)
            | .ok destination =>
              if found.isEmpty then
                (.ok .noDiagnostics, session.receive (cleanText settings.output.json) destination)
              else
                (.ok .someDiagnostics, session.receive
                  (outputText settings.output session.root store.kept found) destination) := by
  unfold run
  simp only [Action.perform_bind, Action.perform_files, Action.perform_check]
  rw [← Settings.findFiles]
  cases settings.findFiles session.tree with
  | error e => rfl
  | ok files =>
    simp only [Except.mapError]
    by_cases hEmpty : files.isEmpty = true
    · simp only [hEmpty, if_true]
      rfl
    · simp only [hEmpty, Bool.false_eq_true, if_false, Action.perform_bind, Action.perform_check]
      rw [← OutputSettings.keepsTexts]
      rcases hLint : lintFiles session.tree (.ofSettings settings) settings.output.keepsTexts .fresh
        files with ⟨linted, store⟩
      have hTaken := takeSources_lintFiles hLint
      cases linted with
      | error e => rfl
      | ok found =>
        simp only [openOutput_perform]
        cases destination? session.tree settings.output.out found.isEmpty with
        | error e => rfl
        | ok destination =>
          dsimp only
          split
          · rw [Action.perform_bind, destination.write_perform]
            rfl
          · rw [Action.perform_bind, writeFindings_perform _ hTaken]
            rfl

end TagLint
