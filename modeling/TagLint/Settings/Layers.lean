import TagLint.CommandLine.Arguments
import TagLint.Files.Tree
import TagLint.Settings.Fields
import TagLint.Settings.Variables
import TagLint.Settings.Wrapped

/-!
# Layers of settings

Settings come from four places: the defaults, a configuration file, environment variables and the
command line. The first three are values laid over each other, lists being joined; the command line
then adds to the lists and replaces everything else that it gives.

* `Settings.load`: the settings of a run.
-/

namespace TagLint.Settings

open Files (FileTree AbsolutePath)

/-- The name of the configuration file. -/
def fileName : String := ".kphptags.toml"

/-- The variable that names another configuration file. -/
def filePathVariable : String := "KT_CONFIG_PATH"

/-- A directory and those above it, from the innermost on. -/
def selfAndAbove (directory : AbsolutePath) : List AbsolutePath :=
  (List.range (directory.length + 1)).map fun k => directory.take (directory.length - k)

/-- The text of a path as seen from a directory. -/
def pathIn (directory : AbsolutePath) (path : String) : String :=
  if path.startsWith "/" then path else directory.display ++ "/" ++ path

/-- The place of the file at a path. A path that is too long leads nowhere. -/
def fileAt? (tree : FileTree) (path : String) : Option AbsolutePath :=
  if path.utf8ByteSize > FileTree.maxPathBytes then none
  else (tree.resolve path).toOption.filter tree.isFile

/-- The place of the file that a path stands for: a relative path is looked up in the working
directory and then in those above it. -/
def findFile? (tree : FileTree) (path : String) : Option AbsolutePath :=
  (selfAndAbove tree.workingDirectory).findSome? fun directory => fileAt? tree (pathIn directory path)

/-- The value of a configuration file. -/
def fileValue (bytes : ByteArray) : Except Error Value :=
  match (String.fromUTF8? bytes).bind fun text => (Toml.parse? text.toList).bind Table.unwrap? with
  | some fields => .ok (.table fields)
  | none => .error { fault := .unreadable }

/-- The value of the file layer. A file that is not there gives nothing, and one that is there must be
read. -/
def fileLayer (tree : FileTree) (path : String) : Except Error Value :=
  match findFile? tree path with
  | some place =>
    match tree.read place with
    | .ok bytes => fileValue bytes
    | .error _ => .error { fault := .unreadable }
  | none => .ok (.table [])

/-- The path of the configuration file: from the command line, else from its variable, else the
default. -/
def filePath (arguments : CommandLine.Arguments) (environment : List (String × String)) : String :=
  (arguments.config.or (environment.lookup filePathVariable)).getD fileName

/-- The layers below the command line, from the lowest on, laid over each other. -/
def overlayAll (layers : List Value) : Value :=
  layers.foldl (Value.overlay .join) (.table [])

/-- Settings with the command line applied. -/
def withArguments (s : Settings) (a : CommandLine.Arguments) : Settings where
  analysis := {
    paths := s.analysis.paths ++ a.paths
    exclude := s.analysis.exclude ++ a.exclude
    applicability := a.applicability.getD s.analysis.applicability
    minSeverity := a.minSeverity.getD s.analysis.minSeverity }
  output := {
    out := a.out.or s.output.out
    json := a.json.getD s.output.json
    compact := a.compact.getD s.output.compact
    sort := a.sort.getD s.output.sort }

/-- The settings of a run. -/
def load (tree : FileTree) (environment : List (String × String)) (arguments : CommandLine.Arguments) :
    Except Error Settings := do
  let file ← fileLayer tree (filePath arguments environment)
  let settings ← ofValue (overlayAll [toValue {}, file, Variables.table environment])
  return settings.withArguments arguments

/-- The text of a configuration file that gives the defaults. -/
def defaultFileText : String :=
  "[kphptags]\npaths = []\nexclude = []\napplicability = true\nmin_severity = \"info\"\n\n"
    ++ "[output]\njson = false\ncompact = false\nsort = false\n"

end TagLint.Settings
