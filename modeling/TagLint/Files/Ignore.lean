import TagLint.Files.Glob
import TagLint.Files.Tree
import TagLint.Text.Blank

/-!
# Ignore files

A directory can hold three kinds of ignore files, each a list of globs for the paths below it. Of the
rules of one file that cover a path, the last one decides; of several files of one kind, the nearest
one that decides; and the kinds have a fixed order. The files of version control count only below a
repository, and only up to its top directory.

* `IgnoreRule.ofLine?`: reads one line of an ignore file.
* `IgnoreIndex.ignores`: whether a path is ignored.
-/

namespace TagLint.Files

/-! ## Rules -/

/-- One line of an ignore file. -/
structure IgnoreRule where
  pattern : Glob.Pattern
  /-- The rule takes back an earlier one. -/
  allows : Bool := false
  /-- The rule covers directories alone. -/
  directoriesOnly : Bool := false
deriving Inhabited

namespace IgnoreRule

/-- Drops the blanks at the end of a line, unless the last one is escaped. -/
def trimLine (line : List Char) : List Char :=
  match line.reverse with
  | ' ' :: '\\' :: _ => line
  | reversed => (reversed.dropWhile Text.isBlank).reverse

/-- The marks at the start of a line. -/
structure Marks where
  allows : Bool := false
  anchored : Bool := false
  body : List Char

/-- Reads the marks at the start of a line: an exclamation mark takes an earlier rule back, and a
slash ties the pattern to the directory of the file. -/
def Marks.ofLine (line : List Char) : Marks :=
  match line with
  | '\\' :: '!' :: cs => { body := '!' :: cs }
  | '\\' :: '#' :: cs => { body := '#' :: cs }
  | '!' :: '/' :: cs => { allows := true, anchored := true, body := cs }
  | '!' :: cs => { allows := true, body := cs }
  | '/' :: cs => { anchored := true, body := cs }
  | cs => { body := cs }

/-- Divides a pattern into itself and whether a slash at its end restricts it to directories. -/
def splitDirectoryMark (body : List Char) : List Char × Bool :=
  match body.reverse with
  | '/' :: '\\' :: rest => (rest.reverse, true)
  | '/' :: rest => (rest.reverse, true)
  | _ => (body, false)

/-- The glob of a rule. Without a slash it covers names in any directory, and a double star at its
end covers what is below a directory but not the directory. -/
def globText (anchored : Bool) (body : List Char) : List Char :=
  let anywhere := !anchored && !body.contains '/' && body != ['*', '*']
  let glob := if anywhere then "**/".toList ++ body else body
  if "/**".toList.isSuffixOf glob then glob ++ "/*".toList else glob

/-- Reads one line of an ignore file. Comments, empty lines and globs that cannot be read are no
rules. -/
def ofLine? (line : List Char) : Option IgnoreRule :=
  let trimmed := trimLine line
  if line.head? == some '#' || trimmed.isEmpty then none
  else
    let marks := Marks.ofLine trimmed
    let (body, directoriesOnly) := splitDirectoryMark marks.body
    (Glob.parse? (globText marks.anchored body)).map fun pattern =>
      { pattern, allows := marks.allows, directoriesOnly }

/-- Drops the carriage return at the end of a line. -/
def dropReturn (line : List Char) : List Char :=
  if line.getLast? == some '\r' then line.dropLast else line

/-- The lines of a text, without their ends. A carriage return that no line feed follows belongs to
its line, so the last line keeps one. -/
def lines (text : List Char) : List (List Char) :=
  let pieces := Text.splitOn '\n' text
  pieces.dropLast.map dropReturn ++ pieces.getLast?.toList

/-- Drops the byte order marks at the start of a text. -/
def dropOrderMarks (text : List Char) : List Char :=
  text.dropWhile (· == '\ufeff')

/-- The rules of the text of an ignore file. A pattern that is nested too deep spoils the whole file,
unlike a line that is no pattern. -/
def ofText (text : List Char) : List IgnoreRule :=
  let rules := (lines (dropOrderMarks text)).filterMap ofLine?
  if rules.all (·.pattern.depth ≤ Glob.maxDepth) then rules else []

/-- The rules of an ignore file. A file that is not text has none. -/
def ofFile (bytes : ByteArray) : List IgnoreRule :=
  match String.fromUTF8? bytes with
  | some text => ofText text.toList
  | none => []

/-- Whether a rule covers a path, which is given from the directory of the rule on. -/
def covers (rule : IgnoreRule) (path : List UInt8) (isDirectory : Bool) : Bool :=
  (!rule.directoriesOnly || isDirectory) && rule.pattern.matches path

/-- What the rules of one file say about a path: ignored, allowed or nothing. The last rule that
covers it decides. -/
def judge? (rules : List IgnoreRule) (path : List UInt8) (isDirectory : Bool) : Option Bool :=
  (rules.reverse.find? (·.covers path isDirectory)).map (!·.allows)

end IgnoreRule

/-! ## All ignore files of a tree -/

/-- The name of the ignore files that belong to this program. -/
def ownIgnoreName : String := ".kphpignore"

/-- The name of the ignore files that many search programs share. -/
def sharedIgnoreName : String := ".ignore"

/-- The name of the ignore files of version control. -/
def gitIgnoreName : String := ".gitignore"

/-- The names by which a directory is known as the top of a repository. -/
def repositoryNames : List String := [".git", ".jj"]

/-- The rules of the files with one name, by directory. -/
abbrev RuleTable := List (AbsolutePath × List IgnoreRule)

/-- The rules of all files with a name. Those of a locked file are not known. -/
def ruleTable (tree : FileTree) (name : String) : RuleTable :=
  tree.entries.filterMap fun e =>
    match e.2 with
    | .file bytes => if e.1.getLast? == some name then some (e.1.dropLast, IgnoreRule.ofFile bytes)
      else none
    | .directory | .locked => none

/-- The directories that have a name directly below them, on the way to a path. -/
def directoriesHolding (names : List String) : AbsolutePath → List AbsolutePath
  | [] => []
  | name :: rest =>
    (if name ∈ names then [[]] else []) ++ (directoriesHolding names rest).map (name :: ·)

/-- All that a tree says about ignored paths. -/
structure IgnoreIndex where
  own : RuleTable := []
  shared : RuleTable := []
  git : RuleTable := []
  /-- The top directories of repositories. -/
  repositories : List AbsolutePath := []
deriving Inhabited

namespace IgnoreIndex

/-- Collects the ignore files of a tree. -/
def ofTree (tree : FileTree) : IgnoreIndex where
  own := ruleTable tree ownIgnoreName
  shared := ruleTable tree sharedIgnoreName
  git := ruleTable tree gitIgnoreName
  repositories := tree.entries.flatMap (directoriesHolding repositoryNames ·.1)

/-- The directories above a path, the nearest first. -/
def above (p : AbsolutePath) : List AbsolutePath :=
  (List.range p.length).reverse.map p.take

/-- The bytes of a path from one of the directories above it on. -/
def bytesBelow (directory p : AbsolutePath) : List UInt8 :=
  Glob.bytes ("/".intercalate (p.drop directory.length))

/-- What the nearest deciding file of one kind says about a path, among some of the directories
above it. -/
def verdict? (table : RuleTable) (directories : List AbsolutePath) (p : AbsolutePath)
    (isDirectory : Bool) : Option Bool :=
  directories.findSome? fun d =>
    (table.lookup d).bind fun rules => IgnoreRule.judge? rules (bytesBelow d p) isDirectory

/-- The directories above a path in which version control is heard: up to the top of the nearest
repository, and none outside of repositories. -/
def versioned (index : IgnoreIndex) (directories : List AbsolutePath) : List AbsolutePath :=
  match directories.dropWhile (· ∉ index.repositories) with
  | [] => []
  | top :: _ => directories.takeWhile (· ∉ index.repositories) ++ [top]

/-- Whether a path is ignored. The files of this program come first, then the shared ones, then
those of version control. -/
def ignores (index : IgnoreIndex) (p : AbsolutePath) (isDirectory : Bool) : Bool :=
  let directories := above p
  let own := verdict? index.own directories p isDirectory
  let shared := verdict? index.shared directories p isDirectory
  let git := verdict? index.git (index.versioned directories) p isDirectory
  ((own.or shared).or git).getD false

end IgnoreIndex

end TagLint.Files
