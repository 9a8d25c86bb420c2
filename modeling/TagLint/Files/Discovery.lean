import TagLint.Files.Ignore

/-!
# Finding PHP files

The inputs of a run are files and directories. A file is taken if its extension is that of PHP, and a
directory is searched for PHP files that are neither excluded nor ignored. The files come out once
each, those given by name before those found in directories.

* `findPhpFiles`: the files that some inputs stand for.
-/

namespace TagLint.Files

/-- The extension of PHP files. -/
def phpExtension : List Char := ['p', 'h', 'p']

/-- Whether a text is a word, whatever the case of its ASCII letters. -/
def equalsIgnoringCase (text word : List Char) : Bool :=
  text.map Char.toLower == word.map Char.toLower

/-- Whether a file given by name is a PHP file: its extension, the part after the last dot of a name
that does not start there, is that of PHP. -/
def hasPhpExtension (p : AbsolutePath) : Bool :=
  match p.getLast? with
  | none => false
  | some name =>
    let reversed := name.toList.reverse
    let extension := (reversed.takeWhile (· != '.')).reverse
    let stem := (reversed.dropWhile (· != '.')).drop 1
    !stem.isEmpty && equalsIgnoringCase extension phpExtension

/-- Whether a file found in a directory is a PHP file: its name ends in a dot and the extension. -/
def hasPhpName (p : AbsolutePath) : Bool :=
  match p.getLast? with
  | none => false
  | some name =>
    let ending := '.' :: phpExtension
    equalsIgnoringCase (name.toList.drop (name.toList.length - ending.length)) ending

/-- The paths on the way from a directory to a path below it, the directory left out. -/
def stepsBelow (directory p : AbsolutePath) : List AbsolutePath :=
  (List.range (p.length - directory.length)).map fun k => p.take (directory.length + k + 1)

/-- Whether the search of a directory reaches a file below it: neither the directory nor anything on
the way is excluded, and nothing on the way is ignored. -/
def reaches (index : IgnoreIndex) (exclude : List AbsolutePath) (directory p : AbsolutePath) : Bool :=
  directory.isPrefixOf p && !exclude.contains directory
    && (stepsBelow directory p).all fun q => !exclude.contains q && !index.ignores q (q != p)

/-- The PHP files that the search of a directory finds. -/
def searchDirectory (tree : FileTree) (index : IgnoreIndex) (exclude : List AbsolutePath)
    (directory : AbsolutePath) : List AbsolutePath :=
  tree.entries.filterMap fun e =>
    if !e.2.isDirectory && hasPhpName e.1 && reaches index exclude directory e.1 then some e.1
    else none

/-- The places that paths lead to. -/
def resolveAll (tree : FileTree) (paths : List String) : Except Error (List AbsolutePath) :=
  paths.mapM fun path => (tree.resolve path).mapError (Error.io path)

/-- The PHP files that some inputs stand for, each once. The excluded paths are looked up first. -/
def findPhpFiles (tree : FileTree) (paths exclude : List String) (sort : Bool) :
    Except Error (List AbsolutePath) := do
  let exclude ← resolveAll tree exclude
  let inputs ← resolveAll tree paths
  let index := IgnoreIndex.ofTree tree
  let named := inputs.filter fun p => !tree.isDirectory p && hasPhpExtension p && !exclude.contains p
  let found := (inputs.filter (tree.isDirectory ·)).flatMap (searchDirectory tree index exclude)
  let files := (named ++ found).eraseDups
  return if sort then files.mergeSort AbsolutePath.before else files

end TagLint.Files
