import TagLint.Error
import TagLint.Tag.Argument
import TagLint.Tag.Kind
import TagLint.Text.Alphanumeric

/-!
# Doc comments

A doc comment is a text between `/**` and `*/`. A line of it whose first characters, after blanks
and stars, are an at sign and a tag character holds a tag: its name and the words that follow on
the line. `DocComment.parse` reads the tags of a comment; every offset it gives counts bytes from
the start of the file.

* `DocComment.parse_eq_error_iff`: reading fails exactly on the texts without both delimiters.
-/

namespace TagLint

open Text (byteWidth isBlank isInlineBlank)

/-- One tag of a doc comment. -/
structure DocTag where
  /-- The name, with its at sign. -/
  name : String
  nameSpan : Span := {}
  /-- From the at sign to the end of the last argument, or of the name. -/
  span : Span := {}
  arguments : List Argument := []
deriving Repr, DecidableEq, Inhabited

namespace DocTag

/-- Applies a change of positions to all spans. -/
def mapPositions (f : Position → Position) (t : DocTag) : DocTag :=
  { t with
    nameSpan := t.nameSpan.map f
    span := t.span.map f
    arguments := t.arguments.map (·.mapPositions f) }

/-- All spans of a tag. -/
def spans (t : DocTag) : List Span :=
  t.nameSpan :: t.span :: t.arguments.map (·.span)

end DocTag

/-- The tags of a doc comment. -/
structure DocComment where
  /-- The whole comment, with its delimiters. -/
  span : Span := {}
  tags : List DocTag := []
deriving Repr, DecidableEq, Inhabited

namespace DocComment

/-- Whether the comment has a tag with this name. -/
def contains (c : DocComment) (name : String) : Bool :=
  c.tags.any (·.name == name)

/-- Applies a change of positions to all spans. -/
def mapPositions (f : Position → Position) (c : DocComment) : DocComment :=
  { c with span := c.span.map f, tags := c.tags.map (·.mapPositions f) }

/-- All spans of a comment. -/
def spans (c : DocComment) : List Span :=
  c.span :: c.tags.flatMap (·.spans)

/-! ## Lines -/

/-- Whether a character may stand in the name of a tag. -/
def isTagChar (c : Char) : Bool :=
  Text.isAlphanumeric c || c == '-' || c == '_' || c == ':' || c == '\\'

/-- Whether a character ends the argument list: the line ends here. -/
def isLineBreak (c : Char) : Bool :=
  c == '\r' || c == '\n'

/-- The lines of a text, each with its line feed. -/
def lines : List Char → List (List Char)
  | [] => []
  | '\n' :: cs => ['\n'] :: lines cs
  | c :: cs =>
    match lines cs with
    | [] => [[c]]
    | l :: ls => (c :: l) :: ls

/-- The words up to the end of the line, each with its place. The offset is that of the first
character. -/
def scanArguments (offset : Nat) (cs : List Char) : List Argument :=
  match _h : cs.dropWhile isInlineBlank with
  | [] => []
  | c :: rest =>
    if isLineBreak c then []
    else
      let start := offset + byteWidth (cs.takeWhile isInlineBlank)
      let word := c :: rest.takeWhile (!isBlank ·)
      let stop := start + byteWidth word
      .ofWord word (.ofBytes start stop) :: scanArguments stop (rest.dropWhile (!isBlank ·))
termination_by cs.length
decreasing_by
  have h1 := (List.dropWhile_sublist (l := cs) isInlineBlank).length_le
  have h2 := (List.dropWhile_sublist (l := rest) (!isBlank ·)).length_le
  simp only [_h, List.length_cons] at h1
  omega

/-- What stands at the start of a comment line before its content: blanks, stars, blanks. -/
def lineMargin (line : List Char) : List Char :=
  let blanks := line.takeWhile isInlineBlank
  let afterBlanks := line.dropWhile isInlineBlank
  blanks ++ afterBlanks.takeWhile (· == '*')
    ++ (afterBlanks.dropWhile (· == '*')).takeWhile isInlineBlank

/-- What follows the margin of a comment line. -/
def lineContent (line : List Char) : List Char :=
  ((line.dropWhile isInlineBlank).dropWhile (· == '*')).dropWhile isInlineBlank

/-- The tag at the start of the content of a line, if there is one. The offset is that of the first
character. -/
def scanTag? (offset : Nat) (content : List Char) : Option DocTag :=
  match content with
  | '@' :: cs =>
    let letters := cs.takeWhile isTagChar
    if letters.isEmpty then none
    else
      let name := '@' :: letters
      let nameStop := offset + byteWidth name
      let arguments := scanArguments nameStop (cs.dropWhile isTagChar)
      let stop := (arguments.getLast?.map (·.span.stop.utf8)).getD nameStop
      some {
        name := String.ofList name
        nameSpan := .ofBytes offset nameStop
        span := .ofBytes offset stop
        arguments }
  | _ => none

/-- The tag of a comment line, if it has one. The offset is that of the first character. -/
def scanLine? (offset : Nat) (line : List Char) : Option DocTag :=
  scanTag? (offset + byteWidth (lineMargin line)) (lineContent line)

/-- The tags of lines that follow one another from a byte offset. -/
def scanLines (offset : Nat) : List (List Char) → List DocTag
  | [] => []
  | line :: rest => (scanLine? offset line).toList ++ scanLines (offset + byteWidth line) rest

/-! ## Comments -/

/-- What stands between the delimiters of a comment, without the stars before its end. -/
def body? (text : List Char) : Option (List Char) :=
  match text with
  | '/' :: '*' :: '*' :: cs =>
    match cs.reverse with
    | '/' :: '*' :: inner => some (inner.dropWhile (· == '*')).reverse
    | _ => none
  | _ => none

/-- Why a text is refused as a comment. -/
def delimitersRequired : String :=
  "a doc comment must start with `/**` and end with `*/`"

/-- Reads the comment that stands at a byte offset of its file. -/
def parse (text : List Char) (offset : Nat) : Except Error DocComment :=
  let span := Span.ofBytes offset (offset + byteWidth text)
  match body? text with
  | some body => .ok { span, tags := scanLines (offset + 3) (lines body) }
  | none => .error (.malformedComment span delimitersRequired)

theorem parse_eq_error_iff {text : List Char} {offset : Nat} {e : Error} :
    parse text offset = .error e ↔
      body? text = none ∧
        e = .malformedComment (.ofBytes offset (offset + byteWidth text)) delimitersRequired := by
  unfold parse
  dsimp only
  cases body? text with
  | none => simp [eq_comm]
  | some body => simp

end DocComment

/-! ## Completion while typing -/

namespace TagKind

/-- Whether the comment has this tag. -/
def existsIn (kind : TagKind) (comment : DocComment) : Bool :=
  comment.contains kind.name

/-- Whether completion is offered after the name of the tag: on functions only, and not beside the
sibling tag. -/
def offersCompletion (kind : TagKind) (comment : DocComment) (owner : Option Declaration) : Bool :=
  match owner with
  | none => false
  | some owner => owner.isFunctionLike && !kind.sibling.existsIn comment

/-- What an accepted completion inserts after the name of the tag. -/
def completionText (_ : TagKind) (_ : DocComment) : String :=
  wildcard

end TagKind

end TagLint
