import TagLint.Position
import TagLint.Text.Quoted

/-!
# Errors

The ways in which reading sources can fail, and the wording of each in `Error.message`.
-/

namespace TagLint

/-- Why a file could not be used. -/
inductive IoFailure
  | notFound
  | notDirectory
  | isDirectory
  | notEmpty
  | notPermitted
  | nameTooLong
  | nulInName
  | invalidText
deriving Repr, DecidableEq, Inhabited

namespace IoFailure

/-- The text of a failure. -/
def message : IoFailure → String
  | .notFound => "No such file or directory (os error 2)"
  | .notDirectory => "Not a directory (os error 20)"
  | .isDirectory => "Is a directory (os error 21)"
  | .notEmpty => "Directory not empty (os error 39)"
  | .notPermitted => "Permission denied (os error 13)"
  | .nameTooLong => "File name too long (os error 36)"
  | .nulInName => "file name contained an unexpected NUL byte"
  | .invalidText => "stream did not contain valid UTF-8"

end IoFailure

/-- What can go wrong while sources are read. -/
inductive Error
  /-- The text at the span is no doc comment. -/
  | malformedComment (span : Span) (reason : String)
  /-- The kept sources were asked for while another handle on them was live. -/
  | sharedSources
  /-- The file at the path could not be used. -/
  | io (path : String) (failure : IoFailure)
deriving Repr, DecidableEq, Inhabited

namespace Error

/-- The text of an error. -/
def message : Error → String
  | .malformedComment _ reason => "error parsing a doc comment: " ++ reason
  | .sharedSources => "`Parse::get_sources` can only be called on the last parser instance"
  | .io path failure => "IO error for " ++ Text.quoted path ++ ": " ++ failure.message

/-- The place of an error in its source, if it has one. -/
def span? : Error → Option Span
  | .malformedComment span _ => some span
  | _ => none

/-- Applies a change of positions to the place of an error. -/
def mapPositions (f : Position → Position) : Error → Error
  | .malformedComment span reason => .malformedComment (span.map f) reason
  | e => e

end Error

end TagLint
