import TagLint.Error
import TagLint.Files.Path
import TagLint.Text.Split

/-!
# Trees of files

A tree holds files and directories under absolute paths, together with the working directory from
which relative paths are read. It is a snapshot: writing gives a new tree. There are no links in it,
so each file has one path.

* `FileTree.read`: the bytes of a file, unless it cannot be opened.
* `FileTree.resolve`: the place that a path leads to, which must exist.
* `FileTree.outputPlace`: the place where a file can be written.
-/

namespace TagLint.Files

/-- What stands at a path. -/
inductive Entry
  | directory
  | file (bytes : ByteArray)
  /-- A file that may be neither read nor written. -/
  | locked
deriving Inhabited

/-- Whether an entry is a directory. -/
def Entry.isDirectory : Entry → Bool
  | .directory => true
  | .file _ | .locked => false

/-- Files and directories, and the directory from which relative paths start. -/
structure FileTree where
  workingDirectory : AbsolutePath := []
  entries : List (AbsolutePath × Entry) := []
deriving Inhabited

namespace FileTree

/-- The entry at a path. The root, the working directory and every directory on the way to an entry
are there without being listed. -/
def entry? (tree : FileTree) (p : AbsolutePath) : Option Entry :=
  match tree.entries.lookup p with
  | some entry => some entry
  | none =>
    if p.isPrefixOf tree.workingDirectory || tree.entries.any (p.isPrefixOf ·.1) then some .directory
    else none

/-- Whether there is a directory at a path. -/
def isDirectory (tree : FileTree) (p : AbsolutePath) : Bool :=
  (tree.entry? p).any (·.isDirectory)

/-- Whether there is a file at a path. -/
def isFile (tree : FileTree) (p : AbsolutePath) : Bool :=
  (tree.entry? p).any (!·.isDirectory)

/-- Reads the file at a path. -/
def read (tree : FileTree) (p : AbsolutePath) : Except IoFailure ByteArray :=
  match tree.entry? p with
  | some (.file bytes) => .ok bytes
  | some .locked => .error .notPermitted
  | some .directory => .error .isDirectory
  | none => .error .notFound

/-- The bytes of the file at a path, if it can be read. -/
def bytes? (tree : FileTree) (p : AbsolutePath) : Option ByteArray :=
  (tree.read p).toOption

/-- Puts a file at a path, in place of the file that was there. -/
def write (tree : FileTree) (p : AbsolutePath) (bytes : ByteArray) : FileTree :=
  { tree with entries := tree.entries.filter (·.1 != p) ++ [(p, .file bytes)] }

/-- Takes away what stands at a path and below it. -/
def remove (tree : FileTree) (p : AbsolutePath) : FileTree :=
  { tree with entries := tree.entries.filter (!p.isPrefixOf ·.1) }

/-- Whether a directory holds anything. -/
def isOccupied (tree : FileTree) (p : AbsolutePath) : Bool :=
  tree.entries.any fun e => p.isPrefixOf e.1 && e.1 != p

/-- Moves what stands at a path to another one, in place of what was there. Files and directories do
not take each other's places, and a directory with something in it stays. -/
def move (tree : FileTree) (source target : AbsolutePath) : Except IoFailure FileTree :=
  match tree.isDirectory source, (tree.entry? target).map (·.isDirectory) with
  | true, some false => .error .notDirectory
  | false, some true => .error .isDirectory
  | _, _ =>
    if tree.isOccupied target then .error .notEmpty
    else
      let entries := (tree.remove target).entries.map fun e =>
        if source.isPrefixOf e.1 then (target ++ e.1.drop source.length, e.2) else e
      .ok { tree with entries }

/-! ## Following a path -/

/-- The longest name that a directory can hold, in bytes. -/
def maxNameBytes : Nat := 255

/-- The longest path that a file can be opened by, in bytes. -/
def maxPathBytes : Nat := 4095

/-- The names of a path between its slashes, empty ones included. -/
def splitNames (path : List Char) : List (List Char) :=
  Text.splitOn '/' path

/-- The place of a path in a directory, whether there is anything or not. A file holds nothing. -/
def child (tree : FileTree) (current : AbsolutePath) (name : List Char) :
    Except IoFailure AbsolutePath :=
  if !tree.isDirectory current then .error .notDirectory
  else if isVoid name then .ok current
  else if name == ['.', '.'] then .ok current.dropLast
  else if (String.ofList name).utf8ByteSize > maxNameBytes then .error .nameTooLong
  else .ok (current ++ [String.ofList name])

/-- Follows names from a place. Everything on the way must exist. -/
def follow (tree : FileTree) (current : AbsolutePath) : List (List Char) →
    Except IoFailure AbsolutePath
  | [] => .ok current
  | name :: names =>
    match tree.child current name with
    | .error failure => .error failure
    | .ok next =>
      if (tree.entry? next).isNone then .error .notFound else tree.follow next names

/-- Where the names of a path start. -/
def startOf (tree : FileTree) (path : List Char) : AbsolutePath :=
  if path.head? == some '/' then [] else tree.workingDirectory

/-- The place that a path leads to. -/
def resolve (tree : FileTree) (path : String) : Except IoFailure AbsolutePath :=
  let cs := path.toList
  if '\x00' ∈ cs then .error .nulInName
  else if cs.isEmpty then .error .notFound
  else tree.follow (tree.startOf cs) (splitNames cs)

/-- The place in a directory where a name lets a file be written. A slash after the name, or a name
of dots, can only mean a directory; the name is not even looked up then. -/
def outputChild (tree : FileTree) (parent : AbsolutePath) (name : List Char) (slashed : Bool) :
    Except IoFailure AbsolutePath :=
  if !tree.isDirectory parent then .error .notDirectory
  else if slashed || isVoid name || name == ['.', '.'] then .error .isDirectory
  else
    match tree.child parent name with
    | .error failure => .error failure
    | .ok place =>
      match tree.entry? place with
      | some .directory => .error .isDirectory
      | some .locked => .error .notPermitted
      | _ => .ok place

/-- The place where a path lets a file be written: in a directory that exists, and neither a directory
itself nor locked. -/
def outputPlace (tree : FileTree) (path : String) : Except IoFailure AbsolutePath :=
  let cs := path.toList
  if '\x00' ∈ cs then .error .nulInName
  else if cs.isEmpty then .error .notFound
  else if path.utf8ByteSize > maxPathBytes then .error .nameTooLong
  else
    match (splitNames cs).reverse.dropWhile (·.isEmpty) with
    | [] => .error .isDirectory
    | name :: before =>
      match tree.follow (tree.startOf cs) before.reverse with
      | .error failure => .error failure
      | .ok parent => tree.outputChild parent name (cs.getLast? == some '/')

end FileTree

end TagLint.Files
