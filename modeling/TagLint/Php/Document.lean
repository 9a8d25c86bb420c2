import TagLint.DocComment
import TagLint.Php.Owner

/-!
# Documented items of a PHP file

A file is plain text with stretches of PHP code. `docComments` finds the doc comments of its code,
`documentedItems` reads those with tags and finds their owners, and `complete` turns the byte offsets
of the result into full positions.

* `parseSource`: all three steps on one source text.
-/

namespace TagLint

open Text (byteWidth Cut)

/-- A doc comment with at least one tag, together with its owner, or a comment that could not be
read. -/
inductive DocumentedItem
  | commented (owner : Declaration) (comment : DocComment)
  | failed (error : Error)
deriving Repr, DecidableEq, Inhabited

namespace DocumentedItem

/-- All spans of an item. -/
def spans : DocumentedItem → List Span
  | .commented owner comment => owner.span :: comment.spans
  | .failed error => error.span?.toList

/-- Applies a change of positions to all spans. -/
def mapPositions (f : Position → Position) : DocumentedItem → DocumentedItem
  | .commented owner comment => .commented (owner.mapPositions f) (comment.mapPositions f)
  | .failed error => .failed (error.mapPositions f)

end DocumentedItem

/-- The byte offsets of all span ends of some items, in increasing order and each once. -/
def spanOffsets (items : List DocumentedItem) : List Nat :=
  ((items.flatMap (·.spans)).flatMap fun s => [s.start.utf8, s.stop.utf8]).mergeSort.eraseReps

/-- Gives every span end the full position of its byte offset in the source. -/
def complete (source : List Char) (items : List DocumentedItem) : List DocumentedItem :=
  let positions := positionsAt source (spanOffsets items)
  items.map (·.mapPositions fun p => lookup positions p.utf8)

namespace Php

/-- A doc comment as it stands in the code. -/
structure RawComment where
  /-- The byte offset of its first character. -/
  start : Nat
  text : List Char
  /-- The code after it. -/
  following : List Char
deriving Repr, DecidableEq, Inhabited

/-- The byte offset where a comment ends. -/
def RawComment.stop (raw : RawComment) : Nat :=
  raw.start + byteWidth raw.text

/-- The doc comments of code whose first character has a byte offset. After a close tag, plain text
is skipped up to the next open tag. -/
def codeComments (offset : Nat) : List Char → List RawComment
  | [] => []
  | c :: cs =>
    let step := Token.scan c cs
    let stop := offset + byteWidth step.2.taken
    match step.1 with
    | .docComment => ⟨offset, step.2.taken, step.2.rest⟩ :: codeComments stop step.2.rest
    | .closeTag =>
      let html := cutHtml step.2.rest
      codeComments (stop + byteWidth html.taken) html.rest
    | _ => codeComments stop step.2.rest
termination_by cs => cs.length
decreasing_by
  · exact Token.scan_rest_length c cs
  · exact Nat.lt_of_le_of_lt (Cut.rest_length_le_of_text (cutHtml_text _))
      (Token.scan_rest_length c cs)
  · exact Token.scan_rest_length c cs

/-- The doc comments of a file, which starts with plain text. -/
def docComments (source : List Char) : List RawComment :=
  let html := cutHtml source
  codeComments (byteWidth html.taken) html.rest

/-- Reads a doc comment and finds its owner. A comment without tags is no item. -/
def RawComment.item? (raw : RawComment) : Option DocumentedItem :=
  match DocComment.parse raw.text raw.start with
  | .ok comment =>
    if comment.tags.isEmpty then none
    else some (.commented (findOwner raw.stop raw.following) comment)
  | .error e => some (.failed e)

/-- The documented items of a file, in source order, with byte offsets alone. -/
def documentedItems (source : List Char) : List DocumentedItem :=
  (docComments source).filterMap (·.item?)

/-- The documented items of a file, with full positions. -/
def parseSource (source : List Char) : List DocumentedItem :=
  complete source (documentedItems source)

end Php

end TagLint
