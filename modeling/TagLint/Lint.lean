import TagLint.Php.Document
import TagLint.Tag.Registry
import TagLint.Tag.Validation

/-!
# Linting

The findings about a file, grouped by the item whose comment they are about. A tag that is not
registered is passed over; a tag on a declaration that it does not apply to is one finding, and is
not looked at further.

* `validateComment`: the findings about the tags of one comment.
* `lintItems`: the findings about the items of one file, in source order.
-/

namespace TagLint

/-- What to report. -/
structure ValidationOptions where
  /-- Whether a tag on a declaration that it does not apply to is reported. If not, such a tag is
  checked like any other. -/
  applicability : Bool := true
  /-- Findings below this severity are left out. -/
  minSeverity : Severity := .info
  /-- The tags that are checked. -/
  registry : Registry := .builtin
deriving Repr, DecidableEq, Inhabited

/-- What a group of findings is about. -/
inductive ItemType
  | declaration (kind : DeclarationKind)
  /-- A comment that could not be read. -/
  | parsingError
deriving Repr, DecidableEq, Inhabited

/-- The name of an item type in reports. -/
def ItemType.display : ItemType → String
  | .declaration kind => kind.display
  | .parsingError => "parsing-error"

/-- The findings about one item. -/
structure ItemDiagnostics where
  itemType : ItemType
  /-- The declared name, empty if there is none. -/
  name : String
  /-- The head of the declaration, or the comment if there is no head. -/
  span : Span
  diagnostics : List Diagnostic
deriving Repr, DecidableEq, Inhabited

/-- What an item is called in reports. -/
def ItemDiagnostics.title (item : ItemDiagnostics) : String :=
  if item.name.isEmpty then item.itemType.display else item.itemType.display ++ " " ++ item.name

/-- The findings about one file. -/
structure FileDiagnostics where
  path : String
  /-- The number under which the text of the file is kept. -/
  document : Nat := 0
  items : List ItemDiagnostics
deriving Repr, DecidableEq, Inhabited

/-- The findings of a file, counted by severity. -/
def FileDiagnostics.count (file : FileDiagnostics) : SeverityCount :=
  .ofDiagnostics (file.items.flatMap (·.diagnostics))

/-! ## From comments to findings -/

/-- The tag decorates a declaration that it does not apply to. -/
def inapplicableTagAt (kind : TagKind) (span : Span) : Diagnostic :=
  .ofKind .inapplicableTag (kind.name ++ " is not applicable here") span

/-- All findings about one tag. -/
def checkTag (options : ValidationOptions) (owner : Declaration) (tag : DocTag) : List Diagnostic :=
  match options.registry.lookup tag.name with
  | none => []
  | some kind =>
    if options.applicability && !options.registry.isApplicable kind owner then
      [inapplicableTagAt kind tag.span]
    else validate kind tag.arguments tag.span

/-- The findings about the tags of a comment that are grave enough, in order. -/
def validateComment (options : ValidationOptions) (owner : Declaration) (comment : DocComment) :
    List Diagnostic :=
  (comment.tags.flatMap (checkTag options owner)).filter (options.minSeverity ≤ ·.severity)

/-- The findings about an item, if there are any. -/
def validateItem? (options : ValidationOptions) : DocumentedItem → Option ItemDiagnostics
  | .commented owner comment =>
    let diagnostics := validateComment options owner comment
    if diagnostics.isEmpty then none
    else some {
      itemType := .declaration owner.kind
      name := owner.name
      span := if owner.span.isEmpty then comment.span else owner.span
      diagnostics }
  | .failed error =>
    let span := error.span?.getD {}
    let diagnostic := Diagnostic.ofKind .parsingError error.message span
    if options.minSeverity ≤ diagnostic.severity then
      some { itemType := .parsingError, name := "", span, diagnostics := [diagnostic] }
    else none

/-- The findings about the items of a file, ordered by where the items start. -/
def lintItems (options : ValidationOptions) (items : List DocumentedItem) : List ItemDiagnostics :=
  (items.filterMap (validateItem? options)).mergeSort
    fun a b => a.span.start.utf8 ≤ b.span.start.utf8

/-- The findings about the text of a file. -/
def lintSource (options : ValidationOptions) (source : List Char) : List ItemDiagnostics :=
  lintItems options (Php.parseSource source)

/-- The findings about a file, if there are any. -/
def FileDiagnostics.ofItems? (path : String) (document : Nat) (items : List ItemDiagnostics) :
    Option FileDiagnostics :=
  if items.isEmpty then none else some { path, document, items }

end TagLint
