import TagLint.Proofs.OwnerHead

/-!
# The tokens behind a comment

The search for an owner reads the tokens behind a comment, passes over trivia, and stops at the first
token after which no head goes on. It judges the tokens it has read as it would judge all of them, so
the owner is told by the tokens of the code without its trivia.

* `significant`: the tokens of a code without trivia.
* `headLexemes_eq_headPart`: a head is the first part of them.
* `findOwner_eq_ownerOf`: the owner is the judgement on all of them.
* `findOwner_of_tokens`: what the tokens are decides the kind and the name of the owner, wherever they
  stand.
-/

namespace TagLint.Php

open Text (byteWidth)

/-! ## Tokens without trivia -/

/-- The tokens of a code whose first character has a byte offset, without trivia. -/
def significant (offset : Nat) (code : List Char) : List Lexeme :=
  (lexemes offset code).filter (·.token ≠ .trivia)

theorem lexemes_leads {token : Token} {taken rest : List Char} (h : token.Leads taken rest)
    (offset : Nat) :
    lexemes offset (taken ++ rest) =
      ⟨token, offset, offset + byteWidth taken⟩ :: lexemes (offset + byteWidth taken) rest := by
  obtain ⟨c, cs, rfl, hScan⟩ := h
  rw [List.cons_append, lexemes, hScan]

theorem significant_trivia {taken rest : List Char} (h : Token.trivia.Leads taken rest)
    (offset : Nat) :
    significant offset (taken ++ rest) = significant (offset + byteWidth taken) rest := by
  simp [significant, lexemes_leads h]

theorem significant_leads {token : Token} {taken rest : List Char} (h : token.Leads taken rest)
    (hToken : token ≠ .trivia) (offset : Nat) :
    significant offset (taken ++ rest) =
      ⟨token, offset, offset + byteWidth taken⟩
        :: significant (offset + byteWidth taken) rest := by
  simp [significant, lexemes_leads h, hToken]

/-! ## The part that is read -/

/-- The tokens up to and including the first after which no head goes on. -/
def headPart : List Lexeme → List Lexeme
  | [] => []
  | x :: xs => if x.token.continuesHead then x :: headPart xs else [x]

theorem headPart_continue {x : Lexeme} (h : x.token.continuesHead = true) (xs : List Lexeme) :
    headPart (x :: xs) = x :: headPart xs := by
  rw [headPart, if_pos h]

theorem headPart_last {x : Lexeme} (h : x.token.continuesHead = false) (xs : List Lexeme) :
    headPart (x :: xs) = [x] := by
  rw [headPart, if_neg (by simp [h])]

theorem headLexemes_eq_headPart (offset : Nat) (code : List Char) :
    headLexemes offset code = headPart (significant offset code) := by
  induction code using leads_induction generalizing offset with
  | nil => simp [headLexemes, significant, lexemes, headPart]
  | token token taken rest hLeads ih =>
    have hRest := ih rest (Nat.le_refl _) (offset + byteWidth taken)
    by_cases hTrivia : token = .trivia
    · subst hTrivia
      rw [headLexemes_trivia hLeads, significant_trivia hLeads, hRest]
    · rw [significant_leads hLeads hTrivia]
      cases hHead : token.continuesHead with
      | true => rw [headLexemes_continue hLeads hHead, headPart_continue hHead, hRest]
      | false => rw [headLexemes_last hLeads hTrivia hHead, headPart_last hHead]

/-! ## Reading no further changes nothing -/

theorem lastWord_headPart (name : List Char) (stop : Nat) (xs : List Lexeme) :
    lastWord name stop (headPart xs) = lastWord name stop xs := by
  induction xs generalizing name stop with
  | nil => rfl
  | cons x xs ih =>
    obtain ⟨token, start, xStop⟩ := x
    cases token with
    | word word => exact ih word xStop
    | punctuation c =>
      unfold headPart
      split <;> rfl
    | _ => rfl

theorem dropAmpersand_headPart (xs : List Lexeme) :
    declaredName?.dropAmpersand (headPart xs) = headPart (declaredName?.dropAmpersand xs) := by
  cases xs with
  | nil => rfl
  | cons x xs =>
    obtain ⟨token, start, stop⟩ := x
    cases token with
    | punctuation c =>
      by_cases hAmpersand : c = '&'
      · subst hAmpersand
        rfl
      · have hSame : ∀ ys, declaredName?.dropAmpersand (⟨.punctuation c, start, stop⟩ :: ys) =
            ⟨.punctuation c, start, stop⟩ :: ys := by
          intro ys
          simp [declaredName?.dropAmpersand, hAmpersand]
        rw [hSame]
        cases hHead : (Token.punctuation c).continuesHead with
        | true => rw [headPart_continue hHead, hSame]
        | false => rw [headPart_last hHead, hSame]
    | _ => rfl

theorem declaredName?_headPart (kind : DeclarationKind) (xs : List Lexeme) :
    declaredName? kind (headPart xs) = declaredName? kind xs := by
  have hDrop : (if kind.isFunctionLike then declaredName?.dropAmpersand (headPart xs)
      else headPart xs) =
      headPart (if kind.isFunctionLike then declaredName?.dropAmpersand xs else xs) := by
    split
    · exact dropAmpersand_headPart xs
    · rfl
  unfold declaredName?
  rw [hDrop]
  generalize (if kind.isFunctionLike then declaredName?.dropAmpersand xs else xs) = ys
  cases ys with
  | nil => rfl
  | cons x ys =>
    obtain ⟨token, start, stop⟩ := x
    cases token with
    | word word =>
      have hWord : headPart (⟨.word word, start, stop⟩ :: ys) =
          ⟨.word word, start, stop⟩ :: headPart ys := headPart_continue rfl ys
      simp only [hWord, lastWord_headPart]
    | punctuation c =>
      cases hHead : (Token.punctuation c).continuesHead with
      | true => rw [headPart_continue hHead]
      | false => rw [headPart_last hHead]
    | _ => rfl

theorem declare_headPart (s : HeadState) (kind : DeclarationKind) (start keywordStop : Nat)
    (xs : List Lexeme) :
    declare s kind start keywordStop (headPart xs) = declare s kind start keywordStop xs := by
  unfold declare
  rw [declaredName?_headPart]

theorem ownerOf_headPart (anchor : Nat) (s : HeadState) (xs : List Lexeme) :
    ownerOf anchor s (headPart xs) = ownerOf anchor s xs := by
  induction xs generalizing s with
  | nil => rfl
  | cons x xs ih =>
    cases hHead : x.token.continuesHead with
    | true =>
      rw [headPart_continue hHead, ownerOf, ownerOf]
      simp only [ih, declare_headPart]
    | false =>
      rw [headPart_last hHead]
      obtain ⟨token, start, stop⟩ := x
      cases token with
      | word word => cases hHead
      | punctuation c =>
        have hType : isTypePunctuation c = false := hHead
        simp [ownerOf, hType]
      | _ => rfl

theorem findOwner_eq_ownerOf (offset : Nat) (code : List Char) :
    findOwner offset code = ownerOf offset {} (significant offset code) := by
  rw [findOwner, headLexemes_eq_headPart, ownerOf_headPart]

theorem map_token_headPart {xs ys : List Lexeme}
    (h : xs.map (·.token) = ys.map (·.token)) :
    (headPart xs).map (·.token) = (headPart ys).map (·.token) := by
  induction xs generalizing ys with
  | nil =>
    rw [List.map_nil, eq_comm, List.map_eq_nil_iff] at h
    rw [h]
  | cons x xs ih =>
    obtain ⟨y, ys, rfl, hToken, hTokens⟩ := List.map_eq_cons_iff.mp h.symm
    cases hHead : x.token.continuesHead with
    | true =>
      rw [headPart_continue hHead, headPart_continue (hToken ▸ hHead), List.map_cons, List.map_cons,
        hToken, ih hTokens.symm]
    | false =>
      rw [headPart_last hHead, headPart_last (hToken ▸ hHead), List.map_singleton,
        List.map_singleton, hToken]

/-- The kind and the name of an owner depend on the tokens alone. -/
theorem findOwner_of_tokens {offset offset' : Nat} {code code' : List Char}
    (h : (significant offset code).map (·.token) = (significant offset' code').map (·.token)) :
    (findOwner offset code).kind = (findOwner offset' code').kind ∧
      (findOwner offset code).name = (findOwner offset' code').name := by
  have hHeads : (headLexemes offset code).map (·.token) =
      (headLexemes offset' code').map (·.token) := by
    rw [headLexemes_eq_headPart, headLexemes_eq_headPart, map_token_headPart h]
  exact ⟨congrArg (·.kind) (findOwner_congr hHeads), congrArg (·.name) (findOwner_congr hHeads)⟩

end TagLint.Php
