import TagLint.Files.Tree

/-!
# Sessions

What a run sees and changes: a tree of files and the texts written to the two output streams. An
`Action` is a step that may fail; what it has changed before it fails stays changed.
-/

namespace TagLint

/-- The files, and what has been written to the output streams. -/
structure Session where
  tree : Files.FileTree
  stdout : String := ""
  stderr : String := ""
deriving Inhabited

/-- A step that changes a session, and fails or gives a result. -/
abbrev Action (ε α : Type) := ExceptT ε (StateM Session) α

namespace Action

variable {ε α : Type}

/-- Carries out an action. -/
def perform (action : Action ε α) (session : Session) : Except ε α × Session :=
  (ExceptT.run action).run session

/-- The result of a computation that changes nothing. -/
def check (x : Except ε α) : Action ε α :=
  match x with
  | .ok a => pure a
  | .error e => throw e

/-- The files. -/
def files : Action ε Files.FileTree := do
  return (← get).tree

/-- Replaces the files. -/
def putFiles (tree : Files.FileTree) : Action ε Unit :=
  modify fun session => { session with tree }

/-- Writes to the standard output. -/
def print (text : String) : Action ε Unit :=
  modify fun session => { session with stdout := session.stdout ++ text }

/-- Writes to the standard error stream. -/
def printError (text : String) : Action ε Unit :=
  modify fun session => { session with stderr := session.stderr ++ text }

/-- Writes a file, in place of the one that was there. -/
def writeFile (place : Files.AbsolutePath) (text : String) : Action ε Unit :=
  modify fun session => { session with tree := session.tree.write place text.toUTF8 }

/-- Adds to a file that is there. -/
def appendFile (place : Files.AbsolutePath) (text : String) : Action ε Unit :=
  modify fun session =>
    let before := (session.tree.bytes? place).getD .empty
    { session with tree := session.tree.write place (before ++ text.toUTF8) }

end Action

end TagLint
