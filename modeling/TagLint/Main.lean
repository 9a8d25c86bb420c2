import TagLint.Run

/-!
# The program

Reads the command line, the environment and the files that a run can see, carries out the run, and
writes what it has written.
-/

namespace TagLint.Main

open Files (AbsolutePath Entry FileTree)

/-- The name of the program. -/
def programName : String := "kphptags"

/-- The version of the program. -/
def programVersion : String := "0.3.0"

/-- The help text. -/
def usage : String :=
  "Usage: " ++ programName ++ " [OPTIONS] [PATH]... [COMMAND]\n\n"
    ++ "Commands:\n"
    ++ "  init         Create a `.kphptags.toml` config file with default values\n"
    ++ "  completions  Generate shell completion scripts\n"
    ++ "  help         Print this message or the help of the given subcommand(s)\n\n"
    ++ "Options:\n"
    ++ "  -e, --exclude <EXCLUDE>            Path to a file or folder to exclude\n"
    ++ "      --config <CONFIG>              Optional path to a TOML config file\n"
    ++ "  -o, --out <OUT>                    Write output to a file instead of stderr\n"
    ++ "      --applicability [<BOOL>]       Report tags placed on other declarations\n"
    ++ "      --min-severity <MIN_SEVERITY>  Only report this severity or higher\n"
    ++ "      --json [<BOOL>]                Output diagnostics in JSON format\n"
    ++ "      --compact [<BOOL>]             Compact output\n"
    ++ "      --sort [<BOOL>]                Sort the results by file path\n"
    ++ "      --log-level <LOG_LEVEL>        Log filter\n"
    ++ "  -h, --help                         Print help\n"
    ++ "  -V, --version                      Print version\n"

/-! ## Reading the surroundings -/

/-- The place that a path would lead to if it went through directories only. -/
def placeOf (directory : AbsolutePath) (path : String) : AbsolutePath :=
  let start : AbsolutePath := if path.startsWith "/" then [] else directory
  (FileTree.splitNames path.toList).foldl (fun place name =>
    if Files.isVoid name then place
    else if name == ['.', '.'] then place.dropLast
    else place ++ [String.ofList name]) start

/-- Whether a run looks at the bytes of a file. -/
def isOfInterest (p : AbsolutePath) : Bool :=
  Files.hasPhpExtension p || Files.hasPhpName p
    || p.getLast?.any (· ∈ [Files.ownIgnoreName, Files.sharedIgnoreName, Files.gitIgnoreName])

/-- The names that matter in the directories above an input. -/
def namesOfInterestAbove : List String :=
  [Files.ownIgnoreName, Files.sharedIgnoreName, Files.gitIgnoreName] ++ Files.repositoryNames

/-- Reads the file at a place, or notes that it cannot be opened. -/
def readFile (p : AbsolutePath) : IO Entry := do
  let path := (← IO.currentDir) / p.display
  match ← (IO.FS.readBinFile path).toBaseIO with
  | .ok bytes => return .file bytes
  | .error _ => return .locked

/-- Reads what stands at a place and below it. Links are passed over. -/
partial def readTree (withBytes : AbsolutePath → Bool) (p : AbsolutePath) :
    IO (List (AbsolutePath × Entry)) := do
  let path := (← IO.currentDir) / p.display
  match ← (path.symlinkMetadata).toBaseIO with
  | .error _ => return []
  | .ok metadata =>
    match metadata.type with
    | .file => return [(p, ← if withBytes p then readFile p else pure (.file .empty))]
    | .dir =>
      let below ← (← path.readDir).toList.mapM fun e => readTree withBytes (p ++ [e.fileName])
      return (p, .directory) :: below.flatten
    | _ => return []

/-- Reads the file at a place, or notes the directory there. -/
def readEntry (p : AbsolutePath) : IO (List (AbsolutePath × Entry)) := do
  let path := (← IO.currentDir) / p.display
  if ← path.isDir then return [(p, .directory)]
  else if ← path.pathExists then return [(p, ← readFile p)]
  else return []

/-- The working directory. -/
def workingPlace : IO AbsolutePath := do
  return placeOf [] (← IO.currentDir).toString

/-- A tree with some places in it. -/
def treeOf (entries : List (AbsolutePath × Entry)) : IO FileTree := do
  let unique := entries.foldl (fun seen e => if seen.any (·.1 == e.1) then seen else e :: seen) []
  return { workingDirectory := (← workingPlace), entries := unique.reverse }

/-- The files that settings can come from. -/
def settingsTree (path : String) : IO FileTree := do
  let places := (Settings.selfAndAbove (← workingPlace)).map (placeOf · path)
  treeOf (← places.mapM readEntry).flatten

/-- The files that a run can see. -/
def runTree (settings : Settings) : IO FileTree := do
  let here ← workingPlace
  let inputs := (settings.analysis.paths ++ settings.analysis.exclude).map (placeOf here)
  let outputs := settings.output.out.toList.map (placeOf here)
  let aboveInputs := (inputs.flatMap Settings.selfAndAbove).eraseDups
  let marks := aboveInputs.flatMap fun d => namesOfInterestAbove.map fun name => d ++ [name]
  let read ← inputs.mapM (readTree isOfInterest)
  let around ← (marks ++ outputs ++ outputs.map List.dropLast).mapM readEntry
  treeOf (read.flatten ++ around.flatten)

/-- The files that writing the defaults can touch. -/
def defaultsTree : IO FileTree := do
  let here ← workingPlace
  let names := [Settings.fileName, backupName]
  treeOf (← names.mapM fun name => readTree (fun _ => true) (here ++ [name])).flatten

/-- The environment of the environment. -/
def readEnvironment : IO (List (String × String)) := do
  let bytes ← IO.FS.readBinFile "/proc/self/environ"
  let text := (String.fromUTF8? bytes).getD ""
  return (Text.splitOn '\x00' text.toList).filterMap fun definition =>
    let name := definition.takeWhile (· != '=')
    if name.isEmpty then none
    else some (String.ofList name, String.ofList (definition.drop (name.length + 1)))

/-! ## Carrying out -/

/-- Makes the files on disk what they have become. -/
def applyChanges (before after : FileTree) : IO Unit := do
  let here ← IO.currentDir
  for (p, entry) in before.entries.reverse do
    if (after.entry? p).isNone then
      match entry with
      | .file _ | .locked => IO.FS.removeFile (here / p.display)
      | .directory => IO.FS.removeDir (here / p.display)
  for (p, entry) in after.entries do
    match entry with
    | .directory => if !before.isDirectory p then IO.FS.createDirAll (here / p.display)
    | .file bytes =>
      if before.bytes? p != some bytes then IO.FS.writeBinFile (here / p.display) bytes
    | .locked => pure ()

/-- Carries out an action on some files. -/
def perform {ε α : Type} (tree : FileTree) (action : Action ε α) : IO (Except ε α) := do
  let (result, session) := action.perform { tree }
  applyChanges tree session.tree
  IO.print session.stdout
  IO.eprint session.stderr
  return result

/-- Reports a failure. -/
def fail (message : String) : IO UInt32 := do
  IO.eprintln ("Error: " ++ message)
  return 1

/-- Writes a configuration file with the defaults. -/
def initialise : IO UInt32 := do
  match ← perform (← defaultsTree) writeDefaults with
  | .error e => fail e.message
  | .ok path =>
    IO.println ("Default config was written to " ++ path)
    IO.println "Exiting"
    return 0

/-- Lints the files that the settings name. -/
def lint (arguments : CommandLine.Arguments) : IO UInt32 := do
  let environment ← readEnvironment
  let tree ← settingsTree (Settings.filePath arguments environment)
  match Settings.load tree environment arguments with
  | .error e => fail ((e.message?.getD "the config file could not be read") ++ " " ++ e.key)
  | .ok settings =>
    match ← perform (← runTree settings) (run settings) with
    | .error e => fail e.message
    | .ok .noDiagnostics => return 0
    | .ok .someDiagnostics => return 1

/-- Carries out a command line. -/
def carryOut (words : List String) : IO UInt32 := do
  match CommandLine.Arguments.parse words with
  | .error .helpRequested =>
    IO.print usage
    return 0
  | .error .versionRequested =>
    IO.println (programName ++ " " ++ programVersion)
    return 0
  | .error refusal =>
    IO.eprintln ("error: " ++ refusal.message)
    return 2
  | .ok arguments =>
    match arguments.command with
    | some .init => initialise
    | some (.completions shell _) => fail ("no completion script for " ++ shell.name)
    | none => lint arguments

end TagLint.Main

/-- The entry point. -/
def main (arguments : List String) : IO UInt32 :=
  TagLint.Main.carryOut arguments
