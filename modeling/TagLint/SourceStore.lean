import TagLint.Php.Document

/-!
# Shared sources

Several handles share one store of source texts. Any of them can parse a file and keep its text, and
only the last live one can take the texts out again. A `SourceStore` is the state that all handles
see: which of them are live, and what has been kept.

* `SourceStore.parse`: reads one file and, if asked, keeps its text under a fresh document number.
* `SourceStore.takeSources`: releases a handle and gives the kept texts if it was the only one.
-/

namespace TagLint

/-- The name of a source that has no path. -/
def anonymousPath : String := "<stdin>"

/-- The number of a parsed document. -/
abbrev DocumentId := Nat

/-- The number of a handle. -/
abbrev HandleId := Nat

/-- What the handles on one store share. -/
structure SourceStore where
  /-- The live handles. -/
  live : List HandleId := [0]
  /-- The number of the next handle. -/
  nextHandle : HandleId := 1
  /-- The number of the next document. -/
  nextDocument : DocumentId := 0
  /-- The kept texts, in the order in which they were parsed. -/
  kept : List (DocumentId × String) := []
deriving Repr, DecidableEq, Inhabited

/-- A parsed file. -/
structure ParsedDocument where
  id : DocumentId
  items : List DocumentedItem
deriving Repr, DecidableEq, Inhabited

/-- The text of a file, which must be UTF-8. -/
def decodeSource (bytes : ByteArray) (path : String) : Except Error String :=
  match String.fromUTF8? bytes with
  | some text => .ok text
  | none => .error (.io path .invalidText)

namespace SourceStore

/-- A store with nothing in it and one live handle, numbered zero. -/
def fresh : SourceStore := {}

/-- Parses a file. Its text is kept under the number of the document if the flag says so; nothing
changes if the file is not text. -/
def parse (store : SourceStore) (bytes : ByteArray) (path : Option String) (keep : Bool) :
    Except Error ParsedDocument × SourceStore :=
  match decodeSource bytes (path.getD anonymousPath) with
  | .error e => (.error e, store)
  | .ok text =>
    let id := store.nextDocument
    let kept := if keep then store.kept ++ [(id, text)] else store.kept
    (.ok ⟨id, Php.parseSource text.toList⟩, { store with nextDocument := id + 1, kept })

/-- Makes one more handle and gives its number. -/
def clone (store : SourceStore) : HandleId × SourceStore :=
  (store.nextHandle,
    { store with live := store.live ++ [store.nextHandle], nextHandle := store.nextHandle + 1 })

/-- Releases a handle. -/
def release (store : SourceStore) (handle : HandleId) : SourceStore :=
  { store with live := store.live.erase handle }

/-- Releases a handle and gives the kept texts, if no other handle is live. -/
def takeSources (store : SourceStore) (handle : HandleId) :
    Except Error (List (DocumentId × String)) × SourceStore :=
  let rest := store.release handle
  if rest.live.isEmpty then (.ok store.kept, { rest with kept := [] })
  else (.error .sharedSources, rest)

end SourceStore

end TagLint
