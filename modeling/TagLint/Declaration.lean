import TagLint.Position

/-!
# Declarations

What a doc comment decorates: a kind of declaration, its name and the span of its head.
-/

namespace TagLint

/-- The kind of a declaration. -/
inductive DeclarationKind
  | function
  | method
  | class_
  | interface
  | trait
  | enum
  | property
  | constant
  /-- Anything else: statements, variables, file comments. -/
  | other
deriving Repr, DecidableEq, Inhabited

namespace DeclarationKind

/-- All kinds. -/
def all : List DeclarationKind :=
  [.function, .method, .class_, .interface, .trait, .enum, .property, .constant, .other]

/-- The name of a kind in data. -/
def name : DeclarationKind → String
  | .function => "function"
  | .method => "method"
  | .class_ => "class"
  | .interface => "interface"
  | .trait => "trait"
  | .enum => "enum"
  | .property => "property"
  | .constant => "constant"
  | .other => "other"

/-- The name of a kind in reports, where an unspecific declaration is an item. -/
def display : DeclarationKind → String
  | .other => "item"
  | kind => kind.name

/-- The kind with this name. -/
def ofName? (text : String) : Option DeclarationKind :=
  all.find? (·.name == text)

/-- Whether a declaration of this kind can be called. -/
def isFunctionLike : DeclarationKind → Bool
  | .function | .method => true
  | _ => false

end DeclarationKind

/-- A declaration that a doc comment stands before. -/
structure Declaration where
  kind : DeclarationKind
  /-- The declared name, empty if there is none. -/
  name : String := ""
  /-- From the first modifier or keyword to the end of the name. -/
  span : Span := {}
deriving Repr, DecidableEq, Inhabited

namespace Declaration

/-- Whether the declaration can be called. -/
def isFunctionLike (d : Declaration) : Bool :=
  d.kind.isFunctionLike

/-- Applies a change of positions to the span. -/
def mapPositions (f : Position → Position) (d : Declaration) : Declaration :=
  { d with span := d.span.map f }

end Declaration

end TagLint
