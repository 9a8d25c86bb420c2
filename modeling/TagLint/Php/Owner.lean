import TagLint.Declaration
import TagLint.Php.Token

/-!
# Owners of doc comments

The owner of a doc comment is the declaration whose head follows it. A head is made of modifiers, the
words and punctuation of a type, a keyword and a name; the first token that is none of these decides
the matter, so only the tokens up to it are read.

* `findOwner`: the owner, found from the code after the comment.
* `ownerOf`: the same judgement on the tokens of a head alone.
-/

namespace TagLint.Php

open Text (byteWidth)

/-- Whether a character may stand in a type: nullable, union, intersection, grouped and namespaced
types. -/
def isTypePunctuation (c : Char) : Bool :=
  c == '?' || c == '|' || c == '&' || c == '(' || c == ')' || c == '\\'

/-- Whether the head of a declaration may go on after a token. -/
def Token.continuesHead : Token → Bool
  | .word _ => true
  | .punctuation c => isTypePunctuation c
  | _ => false

/-- The tokens of a head that begins at a byte offset, without trivia, up to and including the first
that ends it. -/
def headLexemes (offset : Nat) : List Char → List Lexeme
  | [] => []
  | c :: cs =>
    let step := Token.scan c cs
    let stop := offset + byteWidth step.2.taken
    if step.1 = .trivia then headLexemes stop step.2.rest
    else if step.1.continuesHead then ⟨step.1, offset, stop⟩ :: headLexemes stop step.2.rest
    else [⟨step.1, offset, stop⟩]
termination_by cs => cs.length
decreasing_by
  · exact Token.scan_rest_length c cs
  · exact Token.scan_rest_length c cs

/-! ## Words of a head -/

/-- What a word means in a head. -/
inductive HeadWord
  /-- The modifier of static members, and of closures without access to their object. -/
  | static
  /-- A modifier that only class members have. -/
  | member
  /-- A keyword that declares something. -/
  | declares (kind : DeclarationKind)
  /-- Any other word. -/
  | plain
deriving Repr, DecidableEq, Inhabited

/-- The modifiers that only class members have. -/
def memberModifiers : List String :=
  ["public", "protected", "private", "abstract", "final", "readonly", "var"]

/-- The keywords that declare something. -/
def declaringKeywords : List (String × DeclarationKind) :=
  [("function", .function), ("fn", .function), ("class", .class_), ("interface", .interface),
    ("trait", .trait), ("enum", .enum), ("const", .constant)]

/-- What a word means in a head, whatever the case of its ASCII letters. -/
def HeadWord.ofWord (word : List Char) : HeadWord :=
  let keyword := String.ofList (word.map Char.toLower)
  if keyword = "static" then .static
  else if keyword ∈ memberModifiers then .member
  else
    match declaringKeywords.lookup keyword with
    | some kind => .declares kind
    | none => .plain

/-! ## Judging a head -/

/-- What the tokens before the deciding one have shown. -/
structure HeadState where
  /-- Where the head starts. -/
  start : Option Nat := none
  /-- A modifier other than the static one has occurred. -/
  member : Bool := false
  /-- The static modifier has occurred. -/
  static : Bool := false
deriving Repr, DecidableEq, Inhabited

/-- Whether a modifier has occurred. -/
def HeadState.modified (s : HeadState) : Bool :=
  s.member || s.static

/-- A place in the code that declares nothing. -/
def unspecific (start stop : Nat) : Declaration :=
  { kind := .other, span := .ofBytes start stop }

/-- The last of the words at the start of the tokens and its end, or the given ones. -/
def lastWord (name : List Char) (stop : Nat) : List Lexeme → List Char × Nat
  | ⟨.word word, _, stop⟩ :: xs => lastWord word stop xs
  | _ => (name, stop)

/-- The name after a keyword and its end. An ampersand may stand before the name of a function, and
the name of a constant is the last of several words, since its type comes first. -/
def declaredName? (kind : DeclarationKind) (xs : List Lexeme) : Option (List Char × Nat) :=
  match if kind.isFunctionLike then dropAmpersand xs else xs with
  | ⟨.word word, _, stop⟩ :: rest =>
    if kind = .constant then some (lastWord word stop rest) else some (word, stop)
  | _ => none
where
  /-- The tokens after an ampersand at their start. -/
  dropAmpersand : List Lexeme → List Lexeme
    | ⟨.punctuation '&', _, _⟩ :: xs => xs
    | xs => xs

/-- The declaration made by a keyword, given the tokens after it. A function is a method if it has a
member modifier, or is static and has a name. -/
def declare (s : HeadState) (kind : DeclarationKind) (start keywordStop : Nat) (xs : List Lexeme) :
    Declaration :=
  let name? := declaredName? kind xs
  let isMethod := kind = .function ∧ (s.member ∨ (s.static ∧ name?.isSome))
  { kind := if isMethod then .method else kind
    name := String.ofList ((name?.map (·.1)).getD [])
    span := .ofBytes start ((name?.map (·.2)).getD keywordStop) }

/-- The owner that the tokens of a head show. The anchor is the end of the comment, where an owner is
placed if there is none before the next comment or the end of the code. -/
def ownerOf (anchor : Nat) (s : HeadState) : List Lexeme → Declaration
  | [] => unspecific anchor anchor
  | x :: xs =>
    let start := s.start.getD x.start
    let s := { s with start := some start }
    match x.token with
    | .word word =>
      match HeadWord.ofWord word with
      | .static => ownerOf anchor { s with static := true } xs
      | .member => ownerOf anchor { s with member := true } xs
      | .declares kind => declare s kind start x.stop xs
      | .plain => if s.modified then ownerOf anchor s xs else unspecific x.start x.stop
    | .variable_ name =>
      { kind := if s.modified then .property else .other
        name := String.ofList name
        span := .ofBytes start x.stop }
    | .punctuation c =>
      if s.modified && isTypePunctuation c then ownerOf anchor s xs else unspecific x.start x.start
    | .docComment => unspecific anchor anchor
    | .trivia | .closeTag | .literal => unspecific x.start x.start

/-- The owner of a comment that ends at a byte offset, given the code after it. -/
def findOwner (offset : Nat) (code : List Char) : Declaration :=
  ownerOf offset {} (headLexemes offset code)

end TagLint.Php
