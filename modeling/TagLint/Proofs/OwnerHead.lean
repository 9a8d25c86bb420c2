import TagLint.Proofs.Reading

/-!
# Heads of declarations

The tokens of a head follow one another in the source, and the owner that they show spans from the
first of them to one of them, so its span lies in the source. When the tokens stand at other offsets,
the owner moves with them; its kind and its name depend on the tokens alone.

* `headLexemes_inOrder`: the tokens of a head stand in the source, one behind the other.
* `findOwner_fits`: the span of an owner lies in the source.
* `ownerOf_map`: the owner of a head that was moved is the owner, moved in the same way.
* `findOwner_congr`: heads with the same tokens have owners of the same kind and name.
-/

namespace TagLint.Php

open Text (byteWidth IsBoundary)

/-! ## Places of the tokens -/

/-- The tokens stand in the source one behind the other, from a byte offset on. -/
inductive InOrder (source : List Char) : Nat → List Lexeme → Prop
  | nil (offset : Nat) : InOrder source offset []
  | cons {offset : Nat} {x : Lexeme} {xs : List Lexeme} (hBehind : offset ≤ x.start)
      (hOrdered : x.start ≤ x.stop) (hStart : IsBoundary source x.start)
      (hStop : IsBoundary source x.stop) (hRest : InOrder source x.stop xs) :
      InOrder source offset (x :: xs)

theorem InOrder.of_le {source : List Char} {a b : Nat} {xs : List Lexeme}
    (h : InOrder source b xs) (hLe : a ≤ b) : InOrder source a xs := by
  cases h with
  | nil => exact .nil a
  | cons hBehind hOrdered hStart hStop hRest =>
    exact .cons (Nat.le_trans hLe hBehind) hOrdered hStart hStop hRest

/-- Every token ends at a character boundary behind the offset. -/
theorem InOrder.stop_of_mem {source : List Char} {offset : Nat} {xs : List Lexeme}
    (h : InOrder source offset xs) {x : Lexeme} (hx : x ∈ xs) :
    offset ≤ x.stop ∧ IsBoundary source x.stop := by
  induction h with
  | nil => cases hx
  | cons hBehind hOrdered hStart hStop hRest ih =>
    rcases List.mem_cons.mp hx with rfl | hx
    · exact ⟨Nat.le_trans hBehind hOrdered, hStop⟩
    · obtain ⟨hLe, hBoundary⟩ := ih hx
      exact ⟨by omega, hBoundary⟩

theorem headLexemes_inOrder {source code : List Char} {offset : Nat}
    (h : StandsAt source code offset) : InOrder source offset (headLexemes offset code) := by
  induction code using leads_induction generalizing offset with
  | nil =>
    rw [headLexemes]
    exact .nil offset
  | token token taken rest hLeads ih =>
    have hRest := ih rest (Nat.le_refl _) h.right
    by_cases hTrivia : token = .trivia
    · subst hTrivia
      rw [headLexemes_trivia hLeads]
      exact hRest.of_le (by omega)
    · cases hHead : token.continuesHead with
      | true =>
        rw [headLexemes_continue hLeads hHead]
        exact .cons (Nat.le_refl _) (Nat.le_add_right _ _) h.left.isBoundary_start
          h.left.isBoundary_stop hRest
      | false =>
        rw [headLexemes_last hLeads hTrivia hHead]
        exact .cons (Nat.le_refl _) (Nat.le_add_right _ _) h.left.isBoundary_start
          h.left.isBoundary_stop (.nil _)

/-! ## The span of an owner -/

theorem lastWord_mem (name : List Char) (stop : Nat) (xs : List Lexeme) :
    lastWord name stop xs = (name, stop) ∨
      ∃ x ∈ xs, x.token = .word (lastWord name stop xs).1 ∧ (lastWord name stop xs).2 = x.stop := by
  fun_induction lastWord name stop xs with
  | case1 name stop word start stop' xs ih =>
    right
    rcases ih with h | ⟨x, hx, hWord, h⟩
    · exact ⟨_, List.mem_cons_self, by rw [h], by rw [h]⟩
    · exact ⟨x, List.mem_cons_of_mem _ hx, hWord, h⟩
  | case2 => exact .inl rfl

theorem dropAmpersand_subset (xs : List Lexeme) : declaredName?.dropAmpersand xs ⊆ xs := by
  unfold declaredName?.dropAmpersand
  split
  · exact List.subset_cons_self _ _
  · exact List.Subset.refl _

/-- The name of a declaration is one of the words, and ends where this word does. -/
theorem declaredName?_mem {kind : DeclarationKind} {xs : List Lexeme} {name : List Char}
    {stop : Nat} (h : declaredName? kind xs = some (name, stop)) :
    ∃ x ∈ xs, x.token = .word name ∧ stop = x.stop := by
  have hSubset : (if kind.isFunctionLike then declaredName?.dropAmpersand xs else xs) ⊆ xs := by
    split
    · exact dropAmpersand_subset xs
    · exact List.Subset.refl _
  unfold declaredName? at h
  generalize (if kind.isFunctionLike then declaredName?.dropAmpersand xs else xs) = ys at h hSubset
  split at h
  case h_2 => cases h
  case h_1 word start wordStop rest =>
    split at h
    · have hLast := lastWord_mem word wordStop rest
      rw [Option.some.inj h] at hLast
      rcases hLast with hFirst | ⟨x, hx, hWord, rfl⟩
      · obtain ⟨rfl, rfl⟩ := Prod.mk.inj hFirst
        exact ⟨_, hSubset List.mem_cons_self, rfl, rfl⟩
      · exact ⟨x, hSubset (List.mem_cons_of_mem _ hx), hWord, rfl⟩
    · obtain ⟨rfl, rfl⟩ := Prod.mk.inj (Option.some.inj h)
      exact ⟨_, hSubset List.mem_cons_self, rfl, rfl⟩

theorem declare_fits {source : List Char} {s : HeadState} {kind : DeclarationKind}
    {start stop : Nat} {xs : List Lexeme} (hOrder : start ≤ stop) (hStart : IsBoundary source start)
    (hStop : IsBoundary source stop) (h : InOrder source stop xs) :
    (declare s kind start stop xs).span.Fits source := by
  unfold declare
  dsimp only
  cases hName : declaredName? kind xs with
  | none => exact Span.fits_of_boundaries hOrder hStart hStop
  | some found =>
    obtain ⟨name, nameStop⟩ := found
    obtain ⟨x, hx, -, rfl⟩ := declaredName?_mem hName
    obtain ⟨hLe, hBoundary⟩ := h.stop_of_mem hx
    exact Span.fits_of_boundaries (Nat.le_trans hOrder hLe) hStart hBoundary

theorem unspecific_fits {source : List Char} {start stop : Nat} (hOrder : start ≤ stop)
    (hStart : IsBoundary source start) (hStop : IsBoundary source stop) :
    (unspecific start stop).span.Fits source :=
  Span.fits_of_boundaries hOrder hStart hStop

/-- The invariant along a head: where it started is a boundary before all the tokens to come. -/
theorem ownerOf_fits {source : List Char} {anchor offset : Nat} {s : HeadState} {xs : List Lexeme}
    (hAnchor : IsBoundary source anchor) (h : InOrder source offset xs)
    (hState : ∀ start ∈ s.start, start ≤ offset ∧ IsBoundary source start) :
    (ownerOf anchor s xs).span.Fits source := by
  induction xs generalizing s offset with
  | nil => exact unspecific_fits (Nat.le_refl _) hAnchor hAnchor
  | cons x xs ih =>
    cases h with
    | cons hBehind hOrdered hStart hStop hRest =>
      have hFirst : s.start.getD x.start ≤ x.start ∧ IsBoundary source (s.start.getD x.start) := by
        cases hs : s.start with
        | none => exact ⟨Nat.le_refl _, hStart⟩
        | some start =>
          obtain ⟨hLe, hBoundary⟩ := hState start hs
          exact ⟨Nat.le_trans hLe hBehind, hBoundary⟩
      have hNext : ∀ start ∈ some (s.start.getD x.start),
          start ≤ x.stop ∧ IsBoundary source start := by
        rintro start ⟨⟩
        exact ⟨Nat.le_trans hFirst.1 hOrdered, hFirst.2⟩
      unfold ownerOf
      dsimp only
      split
      · split
        · exact ih hRest hNext
        · exact ih hRest hNext
        · exact declare_fits (Nat.le_trans hFirst.1 hOrdered) hFirst.2 hStop hRest
        · split
          · exact ih hRest hNext
          · exact unspecific_fits hOrdered hStart hStop
      · exact Span.fits_of_boundaries (Nat.le_trans hFirst.1 hOrdered) hFirst.2 hStop
      · split
        · exact ih hRest hNext
        · exact unspecific_fits (Nat.le_refl _) hStart hStart
      · exact unspecific_fits (Nat.le_refl _) hAnchor hAnchor
      · exact unspecific_fits (Nat.le_refl _) hStart hStart
      · exact unspecific_fits (Nat.le_refl _) hStart hStart
      · exact unspecific_fits (Nat.le_refl _) hStart hStart

theorem findOwner_fits {source code : List Char} {offset : Nat} (h : StandsAt source code offset) :
    (findOwner offset code).span.Fits source :=
  ownerOf_fits h.isBoundary_start (headLexemes_inOrder h) (by simp)

/-! ## Moving a head -/

/-- The token at other offsets. -/
def Lexeme.map (f : Nat → Nat) (x : Lexeme) : Lexeme :=
  ⟨x.token, f x.start, f x.stop⟩

/-- What a head has shown, when it stands at other offsets. -/
def HeadState.map (f : Nat → Nat) (s : HeadState) : HeadState :=
  { s with start := s.start.map f }

section Move

variable (f : Nat → Nat)

theorem Lexeme.map_mk (token : Token) (start stop : Nat) :
    (Lexeme.mk token start stop).map f = ⟨token, f start, f stop⟩ := rfl

theorem lastWord_map (name : List Char) (stop : Nat) (xs : List Lexeme) :
    lastWord name (f stop) (xs.map (·.map f)) =
      ((lastWord name stop xs).1, f (lastWord name stop xs).2) := by
  induction xs generalizing name stop with
  | nil => rfl
  | cons x xs ih =>
    obtain ⟨token, start, xStop⟩ := x
    cases token with
    | word word => exact ih word xStop
    | _ => rfl

theorem dropAmpersand_map (xs : List Lexeme) :
    declaredName?.dropAmpersand (xs.map (·.map f)) =
      (declaredName?.dropAmpersand xs).map (·.map f) := by
  cases xs with
  | nil => rfl
  | cons x xs =>
    obtain ⟨token, start, stop⟩ := x
    cases token with
    | punctuation c =>
      by_cases hc : c = '&'
      · subst hc
        rfl
      · simp [declaredName?.dropAmpersand, Lexeme.map_mk, hc]
    | _ => rfl

theorem declaredName?_map (kind : DeclarationKind) (xs : List Lexeme) :
    declaredName? kind (xs.map (·.map f)) =
      (declaredName? kind xs).map fun found => (found.1, f found.2) := by
  have hDrop : (if kind.isFunctionLike then declaredName?.dropAmpersand (xs.map (·.map f))
      else xs.map (·.map f)) =
      (if kind.isFunctionLike then declaredName?.dropAmpersand xs else xs).map (·.map f) := by
    split
    · exact dropAmpersand_map f xs
    · rfl
  unfold declaredName?
  rw [hDrop]
  generalize (if kind.isFunctionLike then declaredName?.dropAmpersand xs else xs) = ys
  cases ys with
  | nil => rfl
  | cons x ys =>
    obtain ⟨token, start, stop⟩ := x
    cases token with
    | word word =>
      by_cases hConstant : kind = .constant
      · simpa [Lexeme.map_mk, hConstant] using lastWord_map f word stop ys
      · simp [Lexeme.map_mk, hConstant]
    | _ => rfl

theorem declare_map (s : HeadState) (kind : DeclarationKind) (start keywordStop : Nat)
    (xs : List Lexeme) :
    declare (s.map f) kind (f start) (f keywordStop) (xs.map (·.map f)) =
      (declare s kind start keywordStop xs).mapPositions (.mapByte f) := by
  unfold declare
  rw [declaredName?_map]
  cases declaredName? kind xs with
  | none => rfl
  | some found => rfl

/-- The owner moves with its head. -/
theorem ownerOf_map (anchor : Nat) (s : HeadState) (xs : List Lexeme) :
    ownerOf (f anchor) (s.map f) (xs.map (·.map f)) =
      (ownerOf anchor s xs).mapPositions (.mapByte f) := by
  induction xs generalizing s with
  | nil => rfl
  | cons x xs ih =>
    obtain ⟨token, start, stop⟩ := x
    have hStart : (s.map f).start.getD (f start) = f (s.start.getD start) := by
      cases hs : s.start <;> simp [HeadState.map, hs]
    let next : HeadState := { s with start := some (s.start.getD start) }
    rw [List.map_cons, ownerOf, ownerOf, Lexeme.map_mk]
    dsimp only
    rw [hStart]
    cases token with
    | word word =>
      dsimp only
      cases HeadWord.ofWord word with
      | static => exact ih { next with static := true }
      | member => exact ih { next with member := true }
      | declares kind => exact declare_map f next kind _ stop xs
      | plain =>
        show (if next.modified then ownerOf (f anchor) (next.map f) _ else unspecific _ _) =
          Declaration.mapPositions _ (if next.modified then ownerOf anchor next xs else _)
        split
        · exact ih next
        · rfl
    | variable_ name => rfl
    | punctuation c =>
      show (if next.modified && isTypePunctuation c then ownerOf (f anchor) (next.map f) _ else _) =
        Declaration.mapPositions _ (if next.modified && isTypePunctuation c then _ else _)
      split
      · exact ih next
      · rfl
    | docComment => rfl
    | trivia => rfl
    | closeTag => rfl
    | literal => rfl

end Move

theorem findOwner_congr {offset offset' : Nat} {code code' : List Char}
    (h : (headLexemes offset code).map (·.token) = (headLexemes offset' code').map (·.token)) :
    (findOwner offset code).mapPositions .forget =
      (findOwner offset' code').mapPositions .forget := by
  have hMoved : (headLexemes offset code).map (·.map fun _ => 0) =
      (headLexemes offset' code').map (·.map fun _ => 0) := by
    have hTokens := congrArg (List.map fun token => Lexeme.mk token 0 0) h
    rw [List.map_map, List.map_map] at hTokens
    exact hTokens
  have hLeft := ownerOf_map (fun _ => 0) offset {} (headLexemes offset code)
  have hRight := ownerOf_map (fun _ => 0) offset' {} (headLexemes offset' code')
  rw [hMoved] at hLeft
  exact hLeft.symm.trans hRight

end TagLint.Php
