import TagLint.Files.Discovery
import TagLint.Report
import TagLint.Session
import TagLint.Settings.Layers
import TagLint.SourceStore

/-!
# Runs

A run finds the files that its settings name, lints them and writes what it has found. Nothing is
written before all files have been linted and the output has been opened.

* `lintFiles`: the findings about some files, with the texts that labelled reports need.
* `run`: a whole run.
* `writeDefaults`: writes a configuration file with the defaults.
-/

namespace TagLint

open Files (AbsolutePath FileTree)

/-- Why a run fails. -/
inductive RunError
  /-- The settings name no PHP file. -/
  | noFiles
  /-- A source could not be read, or the output could not be opened. -/
  | source (error : Error)
deriving Repr, DecidableEq, Inhabited

/-- The text of a failure. -/
def RunError.message : RunError → String
  | .noFiles => "no PHP file found, nothing to analyze"
  | .source error => error.message

/-- How a run ends. -/
inductive RunResult
  | noDiagnostics
  | someDiagnostics
deriving Repr, DecidableEq, Inhabited

/-! ## Linting files -/

/-- Lints one file with a handle of its own, which is released at the end. -/
def lintFile (tree : FileTree) (options : ValidationOptions) (keep : Bool) (store : SourceStore)
    (file : AbsolutePath) : Except Error (Option FileDiagnostics) × SourceStore :=
  let path := file.display
  let (handle, store) := store.clone
  match tree.read file with
  | .error failure => (.error (.io path failure), store.release handle)
  | .ok bytes =>
    let (parsed, store) := store.parse bytes (some path) keep
    let found := parsed.map fun document =>
      FileDiagnostics.ofItems? path document.id (lintItems options document.items)
    (found, store.release handle)

/-- Lints files one after another. -/
def lintFiles (tree : FileTree) (options : ValidationOptions) (keep : Bool) (store : SourceStore) :
    List AbsolutePath → Except Error (List FileDiagnostics) × SourceStore
  | [] => (.ok [], store)
  | file :: files =>
    match lintFile tree options keep store file with
    | (.error e, store) => (.error e, store)
    | (.ok found, store) =>
      let (rest, store) := lintFiles tree options keep store files
      (rest.map (found.toList ++ ·), store)

/-! ## Writing findings -/

/-- Where a run writes to. -/
inductive Destination
  | stdout
  | stderr
  | file (place : AbsolutePath)
deriving Repr, DecidableEq, Inhabited

/-- Opens the output: the file of the settings, which is emptied, or the standard output if nothing
has been found and the error stream otherwise. -/
def openOutput (out : Option String) (isClean : Bool) : Action RunError Destination := do
  match out with
  | none => return if isClean then .stdout else .stderr
  | some path =>
    let place ← Action.check (((← Action.files).outputPlace path).mapError fun failure =>
      .source (.io path failure))
    Action.writeFile place ""
    return .file place

/-- Writes to an opened output. -/
def Destination.write (text : String) : Destination → Action RunError Unit
  | .stdout => Action.print text
  | .stderr => Action.printError text
  | .file place => Action.appendFile place text

/-- What is written if nothing has been found. -/
def cleanText (json : Bool) : String :=
  if json then "[]\n" else "No issue found\n"

/-- Findings as data, on one line or on many. -/
def dataText (compact : Bool) (found : List FileDiagnostics) : String :=
  let data := Json.arr (found.map (·.toJson))
  (if compact then data.compact else data.pretty) ++ "\n"

/-- Findings as text. Labelled reports show parts of the kept texts, each of which is taken away by
the file that is shown with it. -/
def reportText (root : String) (compact : Bool) (kept : List (DocumentId × String)) :
    List FileDiagnostics → String
  | [] => ""
  | file :: files =>
    textReport root ((kept.lookup file.document).getD "") compact file
      ++ reportText root compact (kept.filter (·.1 != file.document)) files

/-- Writes findings in the form that the settings ask for. Only labelled reports need the kept
texts. -/
def writeFindings (output : OutputSettings) (store : SourceStore) (destination : Destination)
    (found : List FileDiagnostics) : Action RunError Unit := do
  if output.json then destination.write (dataText output.compact found)
  else
    let root := (← Action.files).workingDirectory.display
    let kept ←
      if output.compact then pure []
      else Action.check ((store.takeSources 0).1.mapError .source)
    destination.write (reportText root output.compact kept found)

/-! ## Runs -/

/-- A whole run. -/
def run (settings : Settings) : Action RunError RunResult := do
  let tree ← Action.files
  let files ← Action.check ((Files.findPhpFiles tree settings.analysis.paths
    settings.analysis.exclude settings.output.sort).mapError .source)
  if files.isEmpty then throw .noFiles
  let keep := !settings.output.compact && !settings.output.json
  let (linted, store) := lintFiles tree (.ofSettings settings) keep .fresh files
  let found ← Action.check (linted.mapError .source)
  let destination ← openOutput settings.output.out found.isEmpty
  if found.isEmpty then
    destination.write (cleanText settings.output.json)
    return .noDiagnostics
  else
    writeFindings settings.output store destination found
    return .someDiagnostics

/-- The name that an existing configuration file is moved to. -/
def backupName : String := ".kphptags.bck.toml"

/-- Writes a configuration file with the defaults to the working directory, and gives its path. A
file that is there is moved away before. -/
def writeDefaults : Action IoFailure String := do
  let tree ← Action.files
  let place := tree.workingDirectory ++ [Settings.fileName]
  if (tree.entry? place).isSome then
    let moved := tree.move place (tree.workingDirectory ++ [backupName])
    Action.putFiles (← Action.check moved)
    Action.print
      ("Existing `" ++ Settings.fileName ++ "` file was renamed to `" ++ backupName ++ "`\n")
  Action.writeFile place Settings.defaultFileText
  return AbsolutePath.display place

end TagLint
