import TagLint.Diagnostic
import TagLint.Tag.Argument
import TagLint.Tag.Kind

/-!
# Checking the arguments of a tag

`validate` walks over the arguments once and remembers two things: whether the wildcard has occurred,
and which known items have. Each argument is then judged alone, in a fixed order of checks:

1. the wildcard: negated, then misplaced;
2. an unknown item;
3. a known item: redundant after the wildcard, negated without it, listed before.
-/

namespace TagLint

open DiagnosticKind

/-- What the arguments read so far have shown. -/
structure Seen where
  /-- The wildcard has occurred. -/
  wildcard : Bool := false
  /-- The known items that have occurred. -/
  items : List String := []
deriving Repr, DecidableEq, Inhabited

namespace Seen

/-- Remembers one more argument. Unknown items are not remembered. -/
def add (kind : TagKind) (seen : Seen) (a : Argument) : Seen :=
  if kind.isWildcard a.name then { seen with wildcard := true }
  else if a.name ∈ kind.items then { seen with items := a.name :: seen.items }
  else seen

end Seen

/-! ## The findings -/

/-- The tag has no arguments. -/
def missingArgumentsAt (span : Span) : Diagnostic :=
  .ofKind missingArguments
    ("provide arguments: '" ++ TagKind.wildcard ++ "' or detailed inspections") span

/-- The wildcard is negated. -/
def negatedWildcardAt (span : Span) : Diagnostic :=
  .ofKind negatedWildcard ("'" ++ TagKind.wildcard ++ "' can't be negated") span

/-- The wildcard comes after a known item. -/
def misplacedWildcardAt (span : Span) : Diagnostic :=
  .ofKind misplacedWildcard ("use '" ++ TagKind.wildcard ++ "' at the beginning") span

/-- The item is not known. -/
def unknownItemAt (name : String) (span : Span) : Diagnostic :=
  (Diagnostic.ofKind unknownItem ("unknown item `" ++ name ++ "`") span).removable
    ("remove unknown " ++ name)

/-- The wildcard covers the item. -/
def redundantItemAt (name : String) (span : Span) : Diagnostic :=
  (Diagnostic.ofKind redundantItem
    ("'" ++ TagKind.wildcard ++ "' exists, this item has no effect") span).removable
    ("remove excessive " ++ name)

/-- There is no wildcard from which the item could be taken away. -/
def negationWithoutWildcardAt (span : Span) : Diagnostic :=
  .ofKind negationWithoutWildcard
    ("using negation without '" ++ TagKind.wildcard ++ "' is confusing") span

/-- The item was listed before. -/
def duplicateItemAt (name : String) (span : Span) : Diagnostic :=
  (Diagnostic.ofKind duplicateItem "duplicate item" span).removable ("remove duplicated " ++ name)

/-! ## The checks -/

/-- The finding if the condition holds, none otherwise. -/
def findingIf (condition : Bool) (d : Diagnostic) : List Diagnostic :=
  if condition then [d] else []

/-- The findings about one argument, given the arguments before it. -/
def checkArgument (kind : TagKind) (seen : Seen) (a : Argument) : List Diagnostic :=
  if kind.isWildcard a.name then
    findingIf a.negated (negatedWildcardAt a.span)
      ++ findingIf (!seen.items.isEmpty) (misplacedWildcardAt a.span)
  else if a.name ∈ kind.items then
    findingIf (seen.wildcard && !a.negated) (redundantItemAt a.name a.span)
      ++ findingIf (!seen.wildcard && a.negated) (negationWithoutWildcardAt a.span)
      ++ findingIf (a.name ∈ seen.items) (duplicateItemAt a.name a.span)
  else
    [unknownItemAt a.name a.span]

/-- The findings about a list of arguments, given the arguments before it. -/
def checkArguments (kind : TagKind) : Seen → List Argument → List Diagnostic
  | _, [] => []
  | seen, a :: as => checkArgument kind seen a ++ checkArguments kind (seen.add kind a) as

/-- The findings about the arguments of a tag, in order. The span of the tag serves when there are
no arguments. -/
def validate (kind : TagKind) (arguments : List Argument) (tagSpan : Span) : List Diagnostic :=
  if arguments.isEmpty then [missingArgumentsAt tagSpan] else checkArguments kind {} arguments

end TagLint
