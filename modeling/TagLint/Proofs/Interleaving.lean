import TagLint.Proofs.Positions
import TagLint.Proofs.StoreHistory
import TagLint.Run

/-!
# Interleaved linting

Files can be linted side by side: each in a task of its own, with a handle of its own on the shared
store. The steps of the tasks may come in any order; what they have found is collected in the order
of the files.

* `Interleaved.agrees`: at any moment the store holds the handles and the texts of the tasks.
* `reportText_of_interleaved`: the report is that of the files, whatever the order of the steps.
-/

namespace TagLint

open Files (AbsolutePath FileTree)
open scoped List

/-! ## Tasks -/

/-- How far the linting of a file has come. -/
inductive LintStage
  | waiting
  | cloned (handle : HandleId)
  | opened (handle : HandleId) (bytes : ByteArray)
  | parsed (handle : HandleId) (result : Except Error ParsedDocument)
  | finished (result : Except Error ParsedDocument)

structure LintTask where
  file : AbsolutePath
  stage : LintStage := .waiting

namespace LintTask

/-- The next step of a task, which does nothing if the task has finished. -/
def step (tree : FileTree) (keep : Bool) (task : LintTask) (store : SourceStore) :
    LintTask × SourceStore :=
  match task.stage with
  | .waiting => ({ task with stage := .cloned store.clone.1 }, store.clone.2)
  | .cloned handle =>
    match tree.read task.file with
    | .error failure =>
      ({ task with stage := .parsed handle (.error (.io task.file.display failure)) }, store)
    | .ok bytes => ({ task with stage := .opened handle bytes }, store)
  | .opened handle bytes =>
    let parsed := store.parse bytes (some task.file.display) keep
    ({ task with stage := .parsed handle parsed.1 }, parsed.2)
  | .parsed handle result => ({ task with stage := .finished result }, store.release handle)
  | .finished _ => (task, store)

theorem step_file (tree : FileTree) (keep : Bool) (task : LintTask) (store : SourceStore) :
    (task.step tree keep store).1.file = task.file := by
  obtain ⟨file, stage⟩ := task
  cases stage with
  | cloned handle => cases hRead : tree.read file <;> simp only [step, hRead]
  | _ => rfl

/-- The handle that a task holds. -/
def handle? (task : LintTask) : Option HandleId :=
  match task.stage with
  | .cloned handle | .opened handle _ | .parsed handle _ => some handle
  | .waiting | .finished _ => none

def isFinished (task : LintTask) : Bool :=
  match task.stage with
  | .finished _ => true
  | _ => false

/-- What a finished task has found. -/
def outcome (options : ValidationOptions) (task : LintTask) :
    Except Error (Option FileDiagnostics) :=
  match task.stage with
  | .finished result => result.map fun document =>
    FileDiagnostics.ofItems? task.file.display document.id (lintItems options document.items)
  | _ => .ok none

end LintTask

/-- What tasks have found, in their order. -/
def collect (options : ValidationOptions) : List LintTask → Except Error (List FileDiagnostics)
  | [] => .ok []
  | task :: tasks =>
    match task.outcome options with
    | .error e => .error e
    | .ok found => (collect options tasks).map (found.toList ++ ·)

/-- The store and the tasks after any number of steps, each of any task. -/
inductive Interleaved (tree : FileTree) (keep : Bool) (files : List AbsolutePath) :
    SourceStore → List LintTask → Prop
  | start : Interleaved tree keep files .fresh (files.map ({ file := · }))
  | step {store : SourceStore} {before after : List LintTask} {task : LintTask}
      (h : Interleaved tree keep files store (before ++ task :: after)) :
      Interleaved tree keep files (task.step tree keep store).2
        (before ++ (task.step tree keep store).1 :: after)

/-- The text of a file, if it can be read and is text. -/
def sourceText? (tree : FileTree) (file : AbsolutePath) : Option String :=
  (tree.bytes? file).bind String.fromUTF8?

theorem sourceText?_of_read {tree : FileTree} {file : AbsolutePath} {bytes : ByteArray}
    (h : tree.read file = .ok bytes) : sourceText? tree file = String.fromUTF8? bytes := by
  rw [sourceText?, FileTree.bytes?, h]
  rfl

theorem sourceText?_of_unread {tree : FileTree} {file : AbsolutePath} {failure : IoFailure}
    (h : tree.read file = .error failure) : sourceText? tree file = none := by
  rw [sourceText?, FileTree.bytes?, h]
  rfl

/-- The findings about a file, with the name and the text that they are shown with. -/
def fileFindings? (tree : FileTree) (options : ValidationOptions) (file : AbsolutePath) :
    Option (String × String × List ItemDiagnostics) :=
  (sourceText? tree file).bind fun text =>
    let items := lintSource options text.toList
    if items.isEmpty then none else some (file.display, text, items)

theorem fileFindings?_of_text {tree : FileTree} (options : ValidationOptions) {file : AbsolutePath}
    {text : String} (hText : sourceText? tree file = some text)
    (hItems : lintSource options text.toList ≠ []) :
    fileFindings? tree options file =
      some (file.display, text, lintSource options text.toList) := by
  simp [fileFindings?, hText, hItems]

/-! ## The store and the tasks -/

/-- What reading a file gives: its items, or a failure if it cannot be read as text. -/
inductive ReadsFile (tree : FileTree) (file : AbsolutePath) : Except Error ParsedDocument → Prop
  | ok {text : String} (h : sourceText? tree file = some text) (id : DocumentId) :
      ReadsFile tree file (.ok ⟨id, Php.parseSource text.toList⟩)
  | error (h : sourceText? tree file = none) (e : Error) : ReadsFile tree file (.error e)

namespace LintTask

def Sound (tree : FileTree) (task : LintTask) : Prop :=
  match task.stage with
  | .waiting | .cloned _ => True
  | .opened _ bytes => tree.read task.file = .ok bytes
  | .parsed _ result | .finished result => ReadsFile tree task.file result

/-- The text that a task has kept, under the number of its document. -/
def kept? (tree : FileTree) (task : LintTask) : Option (DocumentId × String) :=
  match task.stage with
  | .parsed _ result | .finished result =>
    result.toOption.bind fun document => (sourceText? tree task.file).map (document.id, ·)
  | _ => none

end LintTask

/-- The tasks use the store only through calls on their handles. It has their handles besides the
first one, and their texts. -/
structure Agrees (tree : FileTree) (store : SourceStore) (tasks : List LintTask) : Prop where
  history : ∃ events, History events store
  live : store.live ~ 0 :: tasks.filterMap (·.handle?)
  kept : store.kept ~ tasks.filterMap (·.kept? tree)
  sound : ∀ task ∈ tasks, task.Sound tree

namespace Agrees

variable {tree : FileTree} {store : SourceStore} {task : LintTask} {tasks others : List LintTask}

theorem perm (h : Agrees tree store tasks) (hPerm : tasks ~ others) :
    Agrees tree store others where
  history := h.history
  live := h.live.trans ((hPerm.filterMap _).cons 0)
  kept := h.kept.trans (hPerm.filterMap _)
  sound := fun task hMem => h.sound task (hPerm.mem_iff.mpr hMem)

theorem history_call (h : Agrees tree store tasks) {handle : HandleId}
    (hMem : handle ∈ 0 :: tasks.filterMap (·.handle?)) (call : HandleCall) :
    ∃ events, History events (store.perform handle call).2 := by
  obtain ⟨events, hHistory⟩ := h.history
  have hLive : handle ∈ liveHandles events := by
    rw [← hHistory.recorded.handles.live]
    exact h.live.mem_iff.mpr hMem
  exact ⟨_, hHistory.call handle hLive call⟩

/-- A step that leaves the store as it is, and the handle and the text of its task. -/
theorem unmoved {task' : LintTask} (h : Agrees tree store (task :: others))
    (hHandle : task'.handle? = task.handle?) (hEntry : task'.kept? tree = task.kept? tree)
    (hSound : task'.Sound tree) : Agrees tree store (task' :: others) := by
  refine ⟨h.history, ?_, ?_, ?_⟩
  · rw [List.filterMap_cons, hHandle, ← List.filterMap_cons]
    exact h.live
  · rw [List.filterMap_cons, hEntry, ← List.filterMap_cons]
    exact h.kept
  · exact List.forall_mem_cons.mpr ⟨hSound, (List.forall_mem_cons.mp h.sound).2⟩

theorem clone {file : AbsolutePath} (h : Agrees tree store (⟨file, .waiting⟩ :: others)) :
    Agrees tree store.clone.2 (⟨file, .cloned store.clone.1⟩ :: others) := by
  refine ⟨h.history_call List.mem_cons_self .clone, ?_, h.kept, ?_⟩
  · calc store.live ++ [store.nextHandle]
      _ ~ (0 :: others.filterMap (·.handle?)) ++ [store.nextHandle] := h.live.append_right _
      _ ~ store.nextHandle :: 0 :: others.filterMap (·.handle?) := List.perm_append_singleton _ _
      _ ~ 0 :: store.nextHandle :: others.filterMap (·.handle?) := .swap _ _ _
  · exact List.forall_mem_cons.mpr ⟨trivial, (List.forall_mem_cons.mp h.sound).2⟩

theorem parse {file : AbsolutePath} {handle : HandleId} {bytes : ByteArray}
    (h : Agrees tree store (⟨file, .opened handle bytes⟩ :: others)) :
    Agrees tree (store.parse bytes (some file.display) true).2
      (⟨file, .parsed handle (store.parse bytes (some file.display) true).1⟩ :: others) := by
  obtain ⟨hRead, hOthers⟩ := List.forall_mem_cons.mp h.sound
  have hSource : sourceText? tree file = String.fromUTF8? bytes := sourceText?_of_read hRead
  cases hText : String.fromUTF8? bytes with
  | none =>
    rw [store.parse_of_none _ true hText]
    exact h.unmoved rfl rfl (.error (hSource.trans hText) _)
  | some text =>
    have hHandle : handle ∈ 0 :: (⟨file, .opened handle bytes⟩ :: others).filterMap (·.handle?) := by
      simp [LintTask.handle?]
    have hHistory := h.history_call hHandle (.parse bytes (some file.display) true)
    rw [SourceStore.perform, store.parse_of_some _ true hText] at hHistory
    rw [store.parse_of_some _ true hText]
    refine ⟨hHistory, h.live, ?_, ?_⟩
    · have hEntry : LintTask.kept? tree ⟨file, .parsed handle (.ok
          ⟨store.nextDocument, Php.parseSource text.toList⟩)⟩ = some (store.nextDocument, text) := by
        simp only [LintTask.kept?, hSource.trans hText, Except.toOption, Option.bind_some,
          Option.map_some]
      rw [List.filterMap_cons, hEntry]
      calc store.kept ++ [(store.nextDocument, text)]
        _ ~ (store.nextDocument, text) :: store.kept := List.perm_append_singleton _ _
        _ ~ (store.nextDocument, text) :: others.filterMap (·.kept? tree) := h.kept.cons _
    · exact List.forall_mem_cons.mpr ⟨.ok (hSource.trans hText) _, hOthers⟩

theorem release {file : AbsolutePath} {handle : HandleId} {result : Except Error ParsedDocument}
    (h : Agrees tree store (⟨file, .parsed handle result⟩ :: others)) :
    Agrees tree (store.release handle) (⟨file, .finished result⟩ :: others) := by
  refine ⟨h.history_call (by simp [LintTask.handle?]) .release, ?_, h.kept, ?_⟩
  · -- the handle comes to the front, and erasing it leaves the others
    have hErase := (h.live.trans (.swap _ _ _)).erase handle
    rw [List.erase_cons_head] at hErase
    exact hErase
  · have hSound := List.forall_mem_cons.mp h.sound
    exact List.forall_mem_cons.mpr hSound

theorem step (h : Agrees tree store (task :: others)) :
    Agrees tree (task.step tree true store).2 ((task.step tree true store).1 :: others) := by
  obtain ⟨file, stage⟩ := task
  cases stage with
  | waiting => exact h.clone
  | cloned handle =>
    cases hRead : tree.read file with
    | error failure =>
      simp only [LintTask.step, hRead]
      exact h.unmoved rfl rfl (.error (sourceText?_of_unread hRead) _)
    | ok bytes =>
      simp only [LintTask.step, hRead]
      exact h.unmoved rfl rfl hRead
  | opened handle bytes => exact h.parse
  | parsed handle result => exact h.release
  | finished result => exact h

end Agrees

namespace Interleaved

variable {tree : FileTree} {keep : Bool} {files : List AbsolutePath} {store : SourceStore}
  {tasks : List LintTask}

theorem agrees (h : Interleaved tree true files store tasks) : Agrees tree store tasks := by
  induction h with
  | start =>
    refine ⟨⟨[], .fresh⟩, ?_, ?_, ?_⟩
    · simp [List.filterMap_map, LintTask.handle?, SourceStore.fresh]
    · simp [List.filterMap_map, LintTask.kept?, SourceStore.fresh]
    · intro task hMem
      obtain ⟨file, -, rfl⟩ := List.mem_map.mp hMem
      trivial
  | step _ ih =>
    -- nothing depends on where the task stands among the others
    exact ((ih.perm List.perm_middle).step).perm List.perm_middle.symm

theorem files_eq (h : Interleaved tree keep files store tasks) :
    tasks.map (·.file) = files := by
  induction h with
  | start =>
    rw [List.map_map]
    exact List.map_id files
  | @step store before after task _ ih =>
    rw [← ih, List.map_append, List.map_append, List.map_cons, List.map_cons, task.step_file]

end Interleaved

/-! ## Finished tasks -/

/-- A task has finished, and its document is that of the text of its file. -/
structure LintTask.Completed (tree : FileTree) (task : LintTask) (id : DocumentId)
    (text : String) : Prop where
  source : sourceText? tree task.file = some text
  stage : task.stage = .finished (.ok ⟨id, Php.parseSource text.toList⟩)

namespace LintTask

variable {tree : FileTree} {task : LintTask}

theorem Sound.completed (h : task.Sound tree) (hDone : task.isFinished = true)
    (hReadable : ∃ text, sourceText? tree task.file = some text) :
    ∃ id text, task.Completed tree id text := by
  obtain ⟨file, stage⟩ := task
  cases stage with
  | finished result =>
    have hReads : ReadsFile tree file result := h
    cases hReads with
    | @ok text hText id => exact ⟨id, text, hText, rfl⟩
    | error hNone e =>
      obtain ⟨text, hText⟩ := hReadable
      rw [hNone] at hText
      cases hText
  | _ => cases hDone

/-- What a task has found, if it has not failed. -/
def found? (options : ValidationOptions) (task : LintTask) : Option FileDiagnostics :=
  (task.outcome options).toOption.join

namespace Completed

variable {id : DocumentId} {text : String}

theorem handle? (h : task.Completed tree id text) : task.handle? = none := by
  rw [LintTask.handle?, h.stage]

theorem kept? (h : task.Completed tree id text) : task.kept? tree = some (id, text) := by
  simp only [LintTask.kept?, h.stage, h.source, Except.toOption, Option.bind_some, Option.map_some]

theorem outcome (h : task.Completed tree id text) (options : ValidationOptions) :
    task.outcome options =
      .ok (FileDiagnostics.ofItems? task.file.display id (lintSource options text.toList)) := by
  rw [LintTask.outcome, h.stage]
  rfl

theorem found? (h : task.Completed tree id text) (options : ValidationOptions) :
    task.found? options =
      FileDiagnostics.ofItems? task.file.display id (lintSource options text.toList) := by
  rw [LintTask.found?, h.outcome]
  rfl

/-- What a task has found is shown with the text under its number. -/
theorem shown (h : task.Completed tree id text) (options : ValidationOptions)
    {kept : List (DocumentId × String)} (hKept : kept.lookup id = some text) :
    (task.found? options).map (fun file => (file.path, kept.lookup file.document, file.items)) =
      (fileFindings? tree options task.file).map
        fun (path, text, items) => (path, some text, items) := by
  rw [h.found?, fileFindings?, h.source, Option.bind_some, FileDiagnostics.ofItems?]
  by_cases hItems : (lintSource options text.toList).isEmpty = true
  · simp [hItems]
  · simp [hItems, hKept]

theorem number (h : task.Completed tree id text) {options : ValidationOptions}
    {found : FileDiagnostics} (hFound : task.found? options = some found) :
    (task.kept? tree).map Prod.fst = some found.document := by
  rw [h.found?, FileDiagnostics.ofItems?] at hFound
  split at hFound
  · cases hFound
  · cases hFound
    rw [h.kept?, Option.map_some]

end Completed

end LintTask

theorem collect_eq_filterMap {tasks : List LintTask} {options : ValidationOptions}
    (h : ∀ task ∈ tasks, task.outcome options = .ok (task.found? options)) :
    collect options tasks = .ok (tasks.filterMap (·.found? options)) := by
  induction tasks with
  | nil => rfl
  | cons task tasks ih =>
    obtain ⟨hTask, hTasks⟩ := List.forall_mem_cons.mp h
    rw [collect, hTask, ih hTasks, List.filterMap_cons]
    cases task.found? options <;> rfl

/-- All tasks have finished, and none of them has failed. -/
def AllCompleted (tree : FileTree) (tasks : List LintTask) : Prop :=
  ∀ task ∈ tasks, ∃ id text, task.Completed tree id text

namespace Agrees

variable {tree : FileTree} {store : SourceStore} {tasks : List LintTask}

theorem kept_nodup (h : Agrees tree store tasks) : (store.kept.map Prod.fst).Nodup := by
  obtain ⟨events, hHistory⟩ := h.history
  have hLive : store.live ≠ [] := List.ne_nil_of_mem (h.live.mem_iff.mpr List.mem_cons_self)
  rw [hHistory.recorded.texts.kept hLive]
  exact hHistory.recorded.texts.numbers_nodup.sublist (keptTexts_numbers_sublist events)

theorem takeSources (h : Agrees tree store tasks) (hTasks : AllCompleted tree tasks) :
    (store.takeSources 0).1 = .ok store.kept := by
  have hNone : tasks.filterMap (·.handle?) = [] := by
    rw [List.filterMap_eq_nil_iff]
    intro task hMem
    obtain ⟨id, text, hTask⟩ := hTasks task hMem
    exact hTask.handle?
  have hLive : store.live = [0] := List.perm_singleton.mp (hNone ▸ h.live)
  rw [store.takeSources_of_erase_eq_nil 0 (by simp [hLive])]

theorem lookup_kept (h : Agrees tree store tasks) {task : LintTask} (hMem : task ∈ tasks)
    {id : DocumentId} {text : String} (hTask : task.Completed tree id text) :
    store.kept.lookup id = some text := by
  rw [lookup_eq_some_iff_mem h.kept_nodup, h.kept.mem_iff]
  exact List.mem_filterMap.mpr ⟨task, hMem, hTask.kept?⟩

theorem found_nodup (h : Agrees tree store tasks) (hTasks : AllCompleted tree tasks)
    (options : ValidationOptions) :
    ((tasks.filterMap (·.found? options)).map (·.document)).Nodup := by
  have hNumbers : (tasks.filterMap fun task => (task.kept? tree).map Prod.fst).Nodup := by
    have hPerm := h.kept.map Prod.fst
    rw [List.map_filterMap] at hPerm
    exact hPerm.nodup_iff.mp h.kept_nodup
  rw [List.map_filterMap]
  apply hNumbers.sublist (filterMap_sublist_filterMap _)
  intro task hMem number hNumber
  obtain ⟨id, text, hTask⟩ := hTasks task hMem
  obtain ⟨found, hFound, rfl⟩ := Option.map_eq_some_iff.mp hNumber
  exact hTask.number hFound

theorem found_shown (h : Agrees tree store tasks) (hTasks : AllCompleted tree tasks)
    (options : ValidationOptions) :
    (tasks.filterMap (·.found? options)).map
        (fun file => (file.path, store.kept.lookup file.document, file.items)) =
      ((tasks.map (·.file)).filterMap (fileFindings? tree options)).map
        fun (path, text, items) => (path, some text, items) := by
  rw [List.map_filterMap, List.map_filterMap, List.filterMap_map]
  apply List.filterMap_congr
  intro task hMem
  obtain ⟨id, text, hTask⟩ := hTasks task hMem
  exact hTask.shown options (h.lookup_kept hMem hTask)

end Agrees

/-! ## One file after another -/

/-- The steps of one task in a row, of which there are at most four. -/
def LintTask.finish (tree : FileTree) (keep : Bool) (task : LintTask) (store : SourceStore) :
    LintTask × SourceStore :=
  let (task, store) := task.step tree keep store
  let (task, store) := task.step tree keep store
  let (task, store) := task.step tree keep store
  task.step tree keep store

theorem lintFile_eq_finish (tree : FileTree) (options : ValidationOptions) (keep : Bool)
    (store : SourceStore) (file : AbsolutePath) :
    lintFile tree options keep store file =
      ((LintTask.finish tree keep { file } store).1.outcome options,
        (LintTask.finish tree keep { file } store).2) := by
  cases hRead : tree.read file with
  | error failure =>
    simp only [lintFile, LintTask.finish, LintTask.step, LintTask.outcome, hRead]
    rfl
  | ok bytes => simp only [lintFile, LintTask.finish, LintTask.step, LintTask.outcome, hRead]

theorem LintTask.isFinished_finish (tree : FileTree) (keep : Bool) (file : AbsolutePath)
    (store : SourceStore) :
    (LintTask.finish tree keep { file } store).1.isFinished = true := by
  cases hRead : tree.read file <;>
    simp only [LintTask.finish, LintTask.step, LintTask.isFinished, hRead]

namespace Interleaved

variable {tree : FileTree} {files : List AbsolutePath} {store : SourceStore}
  {tasks before after : List LintTask} {task : LintTask}

theorem finish (h : Interleaved tree true files store (before ++ task :: after)) :
    Interleaved tree true files (task.finish tree true store).2
      (before ++ (task.finish tree true store).1 :: after) :=
  h.step.step.step.step

theorem completed (h : Interleaved tree true files store tasks)
    (hMem : task ∈ tasks) (hDone : task.isFinished = true)
    (hReadable : ∀ file ∈ files, ∃ text, sourceText? tree file = some text) :
    ∃ id text, task.Completed tree id text := by
  have hFile : task.file ∈ files := h.files_eq ▸ List.mem_map_of_mem hMem
  exact (h.agrees.sound task hMem).completed hDone (hReadable _ hFile)

/-- Linting the files one after another is one way to interleave them. -/
theorem lintFiles (options : ValidationOptions)
    (hReadable : ∀ file ∈ files, ∃ text, sourceText? tree file = some text)
    {rest : List AbsolutePath}
    (h : Interleaved tree true files store (before ++ rest.map ({ file := · }))) :
    ∃ tasks store', Interleaved tree true files store' (before ++ tasks) ∧
      (∀ task ∈ tasks, task.isFinished = true) ∧
      lintFiles tree options true store rest = (collect options tasks, store') := by
  induction rest generalizing before store with
  | nil => exact ⟨[], store, h, by simp, rfl⟩
  | cons file rest ih =>
    have hNext := h.finish
    have hDone := LintTask.isFinished_finish tree true file store
    have hFile := lintFile_eq_finish tree options true store file
    generalize (LintTask.finish tree true { file } store).1 = task at hNext hDone hFile
    generalize (LintTask.finish tree true { file } store).2 = store₁ at hNext hFile
    obtain ⟨id, text, hTask⟩ := hNext.completed (by simp) hDone hReadable
    rw [hTask.outcome] at hFile
    rw [List.append_cons] at hNext
    obtain ⟨tasks, store₂, hLast, hTasks, hLinted⟩ := ih hNext
    refine ⟨task :: tasks, store₂, ?_, ?_, ?_⟩
    · rw [← List.append_cons] at hLast
      exact hLast
    · exact List.forall_mem_cons.mpr ⟨hDone, hTasks⟩
    · simp only [TagLint.lintFiles, hFile, hLinted, collect, hTask.outcome]

end Interleaved

/-! ## Reports -/

/-- Findings and their texts as labelled records. -/
def findingsText (root : String) (findings : List (String × String × List ItemDiagnostics)) :
    String :=
  String.join (findings.map fun (path, text, items) =>
    labelledReport (sourceName root path) text.toList items)

theorem lookup_filter_ne {kept : List (DocumentId × String)} {id other : DocumentId}
    (h : other ≠ id) : (kept.filter (·.1 != id)).lookup other = kept.lookup other := by
  induction kept with
  | nil => rfl
  | cons entry kept ih =>
    obtain ⟨number, text⟩ := entry
    by_cases hNumber : number = id
    · subst hNumber
      rw [List.filter_cons_of_neg (by simp), ih, List.lookup_cons, beq_false_of_ne h]
    · rw [List.filter_cons_of_pos (by simpa using hNumber), List.lookup_cons, List.lookup_cons, ih]

/-- No number is met twice, so no text has been taken away when it is asked for. -/
theorem reportText_eq_join {found : List FileDiagnostics} (h : (found.map (·.document)).Nodup)
    (root : String) (compact : Bool) (kept : List (DocumentId × String)) :
    reportText root compact kept found = String.join (found.map fun file =>
      textReport root ((kept.lookup file.document).getD "") compact file) := by
  induction found generalizing kept with
  | nil => rfl
  | cons file found ih =>
    rw [List.map_cons, List.nodup_cons] at h
    have hLeft : found.map (fun other => textReport root
          (((kept.filter (·.1 != file.document)).lookup other.document).getD "") compact other) =
        found.map fun other =>
          textReport root ((kept.lookup other.document).getD "") compact other := by
      apply List.map_congr_left
      intro other hOther
      have hNe : other.document ≠ file.document := by
        intro hEq
        exact h.1 (hEq ▸ List.mem_map_of_mem hOther)
      rw [lookup_filter_ne hNe]
    rw [reportText, ih h.2, hLeft, List.map_cons, String.join_cons]

theorem reportText_of_shown {kept : List (DocumentId × String)} {found : List FileDiagnostics}
    {findings : List (String × String × List ItemDiagnostics)}
    (hNodup : (found.map (·.document)).Nodup)
    (h : found.map (fun file => (file.path, kept.lookup file.document, file.items)) =
      findings.map fun (path, text, items) => (path, some text, items)) (root : String) :
    reportText root false kept found = findingsText root findings := by
  have hReports := congrArg (List.map fun (path, text?, items) =>
    labelledReport (sourceName root path) (Option.getD text? "").toList items) h
  rw [List.map_map, List.map_map] at hReports
  rw [reportText_eq_join hNodup]
  exact congrArg String.join hReports

theorem Interleaved.shown {tree : FileTree} {files : List AbsolutePath} {store : SourceStore}
    {tasks : List LintTask} (options : ValidationOptions)
    (hReadable : ∀ file ∈ files, ∃ text, sourceText? tree file = some text)
    (h : Interleaved tree true files store tasks)
    (hDone : ∀ task ∈ tasks, task.isFinished = true) :
    ∃ kept found, (store.takeSources 0).1 = .ok kept ∧ collect options tasks = .ok found ∧
      (found.map (·.document)).Nodup ∧
      found.map (fun file => (file.path, kept.lookup file.document, file.items)) =
        (files.filterMap (fileFindings? tree options)).map
          fun (path, text, items) => (path, some text, items) := by
  have hTasks : AllCompleted tree tasks := by
    intro task hMem
    exact h.completed hMem (hDone task hMem) hReadable
  have hShown := h.agrees.found_shown hTasks options
  rw [h.files_eq] at hShown
  refine ⟨store.kept, _, h.agrees.takeSources hTasks, collect_eq_filterMap ?_,
    h.agrees.found_nodup hTasks options, hShown⟩
  intro task hMem
  obtain ⟨id, text, hTask⟩ := hTasks task hMem
  rw [hTask.outcome, hTask.found?]

/-- Linting side by side loses nothing. When all tasks have finished, no handle is left but the first
one, so the texts can be taken. Each file with findings is reported once, in the order of the files,
with the text that it was linted from. This does not depend on the order of the steps, and is what
linting one file after another reports. -/
theorem reportText_of_interleaved {tree : FileTree} {files : List AbsolutePath}
    {store : SourceStore} {tasks : List LintTask} (options : ValidationOptions) (root : String)
    (hReadable : ∀ file ∈ files, ∃ text, sourceText? tree file = some text)
    (h : Interleaved tree true files store tasks)
    (hDone : ∀ task ∈ tasks, task.isFinished = true) :
    ∃ kept found, (store.takeSources 0).1 = .ok kept ∧ collect options tasks = .ok found ∧
      (found.map (·.document)).Nodup ∧
      found.map (fun file => (file.path, kept.lookup file.document, file.items)) =
        (files.filterMap (fileFindings? tree options)).map
          (fun (path, text, items) => (path, some text, items)) ∧
      reportText root false kept found =
        findingsText root (files.filterMap (fileFindings? tree options)) ∧
      ∃ kept' found' store', lintFiles tree options true .fresh files = (.ok found', store') ∧
        (store'.takeSources 0).1 = .ok kept' ∧
        reportText root false kept' found' = reportText root false kept found := by
  obtain ⟨kept, found, hTaken, hFound, hNodup, hShown⟩ := h.shown options hReadable hDone
  have hStart : Interleaved tree true files .fresh ([] ++ files.map ({ file := · })) := .start
  obtain ⟨tasks', store', hAfter, hDone', hLinted⟩ := Interleaved.lintFiles options hReadable hStart
  obtain ⟨kept', found', hTaken', hFound', hNodup', hShown'⟩ := hAfter.shown options hReadable hDone'
  refine ⟨kept, found, hTaken, hFound, hNodup, hShown, reportText_of_shown hNodup hShown root,
    kept', found', store', ?_, hTaken', ?_⟩
  · rw [hLinted, ← hFound']
    rfl
  · rw [reportText_of_shown hNodup hShown root, reportText_of_shown hNodup' hShown' root]

/-- The second file is parsed before the first one, and yet each is reported with its own text, in the
order of the files. -/
theorem reportText_of_interleaved_crossed :
    let tree : FileTree := { entries := [(["a"], .file "<?php /**".toUTF8),
      (["b"], .file "<?php /** é".toUTF8)] }
    let message := "error: error parsing a doc comment: a doc comment must start with `/**` and end "
      ++ "with `*/`"
    ∃ store tasks kept found, Interleaved tree true [["a"], ["b"]] store tasks ∧
      (store.takeSources 0).1 = .ok kept ∧ collect {} tasks = .ok found ∧
      found.map (fun file => (file.path, kept.lookup file.document)) =
        [("/a", some "<?php /**"), ("/b", some "<?php /** é")] ∧
      kept = [(0, "<?php /** é"), (1, "<?php /**")] ∧
      reportText "/" false kept found =
        "\x7b\"labels\":[\x7b\"label\":\"" ++ message
          ++ "\",\"len\":3,\"offset\":6,\"text\":\"/**\"\x7d],\"message\":\"parsing-error\","
          ++ "\"severity\":\"Error\",\"source\":\"a\"\x7d\n"
          ++ "\x7b\"labels\":[\x7b\"label\":\"" ++ message
          ++ "\",\"len\":6,\"offset\":6,\"text\":\"/** é\"\x7d],\"message\":\"parsing-error\","
          ++ "\"severity\":\"Error\",\"source\":\"b\"\x7d\n" := by
  intro tree message
  have hStart : Interleaved tree true [["a"], ["b"]] .fresh ([] ++ ⟨["a"], .waiting⟩ ::
    [⟨["b"], .waiting⟩]) := .start
  have hFirst := hStart.step
  have hSecond := (@Interleaved.step tree true [["a"], ["b"]] _ [_] [] _ hFirst).finish
  have hLast := (@Interleaved.step tree true [["a"], ["b"]] _ [] [_] _ hSecond).finish
  have hA : sourceText? tree ["a"] = some "<?php /**" := by decide +kernel
  have hB : sourceText? tree ["b"] = some "<?php /** é" := by decide +kernel
  have hReadable : ∀ file ∈ [["a"], ["b"]], ∃ text, sourceText? tree file = some text := by
    simp [hA, hB]
  have hFoundA := fileFindings?_of_text {} hA (by
    rw [lintSource, Php.parseSource, complete_eq_map]
    decide +kernel)
  have hFoundB := fileFindings?_of_text {} hB (by
    rw [lintSource, Php.parseSource, complete_eq_map]
    decide +kernel)
  obtain ⟨kept, found, hTaken, hFound, -, hShown, hReport, -⟩ :=
    reportText_of_interleaved {} "/" hReadable hLast (by decide +kernel)
  refine ⟨_, _, kept, found, hLast, hTaken, hFound, ?_, ?_, ?_⟩
  · have hTexts := congrArg (List.map fun (path, text?, _) => (path, text?)) hShown
    rw [List.map_map, List.filterMap_cons_some hFoundA, List.filterMap_cons_some hFoundB] at hTexts
    exact hTexts.trans rfl
  · exact Except.ok.inj (hTaken.symm.trans (by decide +kernel))
  · rw [hReport, List.filterMap_cons_some hFoundA, List.filterMap_cons_some hFoundB,
      List.filterMap_nil]
    simp only [lintSource, Php.parseSource, complete_eq_map]
    decide +kernel

end TagLint
