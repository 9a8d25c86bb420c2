import Mathlib.Tactic.ByContra
import TagLint.Proofs.OwnerClassification

/-!
# Constants with a type

A class constant may have a type between its keyword and its name, made of the words and punctuation
marks that the type of a property has. The name is the last word before the equals sign, but the
search for it follows words alone: it ends at the first punctuation mark of the type. So a constant is
told by its own name exactly if its type is made of words.

* `significant_stops`: the tokens behind a comment end one behind the other.
* `ConstantHead.stop_lt_of_mark`: behind a punctuation mark, no word is taken for the name.
* `findOwner_ownName_iff`: which constants are told by their own names.
* `findOwner_unionConstant`: a constant of a union type is told by the first word of its type.
-/

namespace TagLint.Php

open Text (byteWidth)

/-! ## Ends of tokens -/

/-- No token is empty, so each ends behind the ones before it. -/
theorem significant_stops (offset : Nat) (code : List Char) :
    (∀ x ∈ significant offset code, offset < x.stop) ∧
      (significant offset code).Pairwise fun x y => x.stop < y.stop := by
  induction code using leads_induction generalizing offset with
  | nil => simp [significant, lexemes]
  | token token taken rest hLeads ih =>
    have hTaken := Text.byteWidth_pos hLeads.ne_nil
    obtain ⟨hBehind, hApart⟩ := ih rest (Nat.le_refl _) (offset + byteWidth taken)
    have hMore : ∀ x ∈ significant (offset + byteWidth taken) rest, offset < x.stop := by
      intro x hx
      have := hBehind x hx
      omega
    by_cases hTrivia : token = .trivia
    · subst hTrivia
      rw [significant_trivia hLeads]
      exact ⟨hMore, hApart⟩
    · rw [significant_leads hLeads hTrivia]
      refine ⟨List.forall_mem_cons.mpr ⟨?_, hMore⟩, List.pairwise_cons.mpr ⟨hBehind, hApart⟩⟩
      show offset < offset + byteWidth taken
      omega

/-! ## Heads of constants -/

namespace Token

/-- The token is a word. -/
def IsWord (token : Token) : Prop :=
  ∃ word, token = .word word

/-- The token is a punctuation mark that may stand in the type of a property: nullable, union,
intersection, grouped and namespaced types. -/
def IsTypeMark (token : Token) : Prop :=
  ∃ c ∈ ['?', '|', '&', '(', ')', '\\'], token = .punctuation c

theorem IsTypeMark.not_isWord {token : Token} (h : token.IsTypeMark) : ¬token.IsWord := by
  rintro ⟨word, rfl⟩
  obtain ⟨c, -, hMark⟩ := h
  cases hMark

end Token

/-- A type that is not made of words alone has a first punctuation mark. -/
theorem exists_typeMark {type : List Lexeme}
    (hType : ∀ x ∈ type, x.token.IsWord ∨ x.token.IsTypeMark)
    (hMark : ¬∀ x ∈ type, x.token.IsWord) :
    ∃ words mark more, type = words ++ mark :: more ∧ (∀ x ∈ words, x.token.IsWord) ∧
      mark.token.IsTypeMark := by
  induction type with
  | nil => exact absurd nofun hMark
  | cons x type ih =>
    obtain ⟨hFirst, hRest⟩ := List.forall_mem_cons.mp hType
    rcases hFirst with hWord | hFirst
    · obtain ⟨words, mark, more, rfl, hWords, hLater⟩ :=
        ih hRest fun hAll => hMark (List.forall_mem_cons.mpr ⟨hWord, hAll⟩)
      exact ⟨x :: words, mark, more, rfl, List.forall_mem_cons.mpr ⟨hWord, hWords⟩, hLater⟩
    · exact ⟨[], x, type, rfl, nofun, hFirst⟩

/-- The head of a constant: any modifiers, the keyword, a type of any words and punctuation marks of
types, or of none, the name and the equals sign. -/
structure ConstantHead where
  modifiers : List Lexeme
  keyword : Lexeme
  type : List Lexeme
  name : Lexeme
  sign : Lexeme
  rest : List Lexeme
  areModifiers : ∀ x ∈ modifiers, x.token.IsModifier
  declares : keyword.token.Declares .constant
  isType : ∀ x ∈ type, x.token.IsWord ∨ x.token.IsTypeMark
  isName : name.token.IsWord
  isSign : sign.token = .punctuation '='

namespace ConstantHead

variable (head : ConstantHead)

/-- All the tokens. -/
def lexemes : List Lexeme :=
  head.modifiers ++ head.keyword :: (head.type ++ head.name :: head.sign :: head.rest)

/-- The owner is told by the name of the constant, and spans up to its end. -/
structure Names (owner : Declaration) : Prop where
  name_eq : owner.name = String.ofList head.name.text
  stop_eq : owner.span.stop = .ofByte head.name.stop

theorem isLead : IsLead head.modifiers where
  first := fun x hx => head.areModifiers x (List.mem_of_mem_head? hx)
  parts := fun x hx => .inl (head.areModifiers x hx)

theorem noWord_sign : NoWord (head.sign :: head.rest) := by
  rintro x ⟨⟩ word hWord
  rw [head.isSign] at hWord
  cases hWord

theorem kind_eq (anchor : Nat) : (ownerOf anchor {} head.lexemes).kind = .constant := by
  obtain ⟨s, -, -, hOwner⟩ := head.isLead.exists_after
  rw [lexemes, hOwner, ownerOf_keyword head.declares]
  rfl

/-- Words of a type are passed over, since the last word is the name. -/
theorem names_of_words (hWords : ∀ x ∈ head.type, x.token.IsWord) (anchor : Nat) :
    head.Names (ownerOf anchor {} head.lexemes) := by
  have hNamed : ∀ x ∈ head.type ++ [head.name], x.token.IsWord :=
    List.forall_mem_append.mpr ⟨hWords, List.forall_mem_singleton.mpr head.isName⟩
  have hSplit : head.lexemes = head.modifiers ++
      head.keyword :: ((head.type ++ [head.name]) ++ head.sign :: head.rest) := by
    simp [lexemes]
  rw [hSplit, ownerOf_constant head.isLead head.declares hNamed head.noWord_sign, List.getLast?_concat]
  exact ⟨rfl, rfl⟩

/-- At a punctuation mark the search ends, before it has reached the name. -/
theorem stop_lt_of_mark (hMark : ¬∀ x ∈ head.type, x.token.IsWord) (anchor : Nat)
    (hStops : head.lexemes.Pairwise fun x y => x.stop < y.stop) :
    (ownerOf anchor {} head.lexemes).span.stop.utf8 < head.name.stop := by
  obtain ⟨words, mark, more, hType, hWords, hFirst⟩ := exists_typeMark head.isType hMark
  let rest := mark :: (more ++ head.name :: head.sign :: head.rest)
  have hNoWord : NoWord rest := by
    rintro x ⟨⟩ word hWord
    exact hFirst.not_isWord ⟨word, hWord⟩
  have hSplit : head.lexemes = head.modifiers ++ head.keyword :: (words ++ rest) := by
    simp [lexemes, hType, rest]
  rw [hSplit, ownerOf_constant head.isLead head.declares hWords hNoWord]
  show (words.getLast?.getD head.keyword).stop < head.name.stop
  rw [hSplit, List.pairwise_append] at hStops
  obtain ⟨hKeyword, hTail⟩ := List.pairwise_cons.mp hStops.2.1
  have hName : head.name ∈ rest := by
    simp [rest]
  cases hLast : words.getLast? with
  | none => exact hKeyword _ (List.mem_append_right words hName)
  | some x => exact (List.pairwise_append.mp hTail).2.2 x (List.mem_of_getLast? hLast) _ hName

end ConstantHead

/-! ## The owner of a comment -/

/-- **Names of constants.** The owner behind a comment with the head of a constant is a constant. It
is told by the name of the constant, up to the end of that name, exactly if there is no punctuation
mark in the type. -/
theorem findOwner_ownName_iff (head : ConstantHead) {offset : Nat} {code : List Char}
    (h : significant offset code = head.lexemes) :
    (findOwner offset code).kind = .constant ∧
      (head.Names (findOwner offset code) ↔ ∀ x ∈ head.type, x.token.IsWord) := by
  have hStops := (significant_stops offset code).2
  rw [h] at hStops
  rw [findOwner_eq_ownerOf, h]
  refine ⟨head.kind_eq offset, ?_, fun hWords => head.names_of_words hWords offset⟩
  intro hNames
  by_contra hMark
  have hShort := head.stop_lt_of_mark hMark offset hStops
  rw [hNames.stop_eq] at hShort
  exact absurd hShort (Nat.lt_irrefl _)

/-- A constant with a modifier and a type of one word. -/
def integerConstant : ConstantHead where
  modifiers := [⟨.word "Final".toList, 1, 6⟩]
  keyword := ⟨.word "CONST".toList, 7, 12⟩
  type := [⟨.word "int".toList, 13, 16⟩]
  name := ⟨.word "LIMIT".toList, 17, 22⟩
  sign := ⟨.punctuation '=', 23, 24⟩
  rest := [⟨.word "8".toList, 25, 26⟩]
  areModifiers := List.forall_mem_singleton.mpr
    (.inr ⟨_, rfl, "final", by decide, by decide⟩)
  declares := ⟨_, rfl, "const", by decide, by decide⟩
  isType := List.forall_mem_singleton.mpr (.inl ⟨_, rfl⟩)
  isName := ⟨_, rfl⟩
  isSign := rfl

/-- The type is a word, so the name is found behind it. -/
theorem findOwner_ownName_iff_integer :
    significant 0 " Final CONST int LIMIT = 8".toList = integerConstant.lexemes ∧
      integerConstant.Names (findOwner 0 " Final CONST int LIMIT = 8".toList) := by
  have hTokens : significant 0 " Final CONST int LIMIT = 8".toList = integerConstant.lexemes := by
    decide +kernel
  exact ⟨hTokens, (findOwner_ownName_iff integerConstant hTokens).2.mpr
    (List.forall_mem_singleton.mpr ⟨_, rfl⟩)⟩

/-- A constant of a union type. -/
def unionConstant : ConstantHead where
  modifiers := []
  keyword := ⟨.word "const".toList, 1, 6⟩
  type := [⟨.word "int".toList, 7, 10⟩, ⟨.punctuation '|', 10, 11⟩, ⟨.word "string".toList, 11, 17⟩]
  name := ⟨.word "LIMIT".toList, 18, 23⟩
  sign := ⟨.punctuation '=', 24, 25⟩
  rest := [⟨.word "8".toList, 26, 27⟩]
  areModifiers := nofun
  declares := ⟨_, rfl, "const", by decide, by decide⟩
  isType := by
    simp [Token.IsWord, Token.IsTypeMark]
  isName := ⟨_, rfl⟩
  isSign := rfl

/-- The first word of the type is taken for the name. -/
theorem findOwner_unionConstant :
    let owner := findOwner 0 " const int|string LIMIT = 8".toList
    significant 0 " const int|string LIMIT = 8".toList = unionConstant.lexemes ∧
      owner.kind = .constant ∧ owner.name = "int" ∧ owner.span = .ofBytes 1 10 ∧
      ¬unionConstant.Names owner := by
  refine ⟨by decide +kernel, by decide +kernel, by decide +kernel, by decide +kernel, ?_⟩
  intro hNames
  have hName := hNames.name_eq
  revert hName
  decide +kernel

end TagLint.Php
