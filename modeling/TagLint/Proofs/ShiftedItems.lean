import Mathlib.Data.List.Basic
import TagLint.Proofs.ArgumentRemoval
import TagLint.Proofs.OwnerHead

/-!
# Shifted items

Scanners count offsets on from the one they are given and never compare them with anything. So a code
that starts further behind has the same comments, tags and owners, each as much further behind.

* `parse_shift`: reading a comment.
* `findOwner_shift`: finding an owner.
* `items_shift`: the items of a code.
-/

namespace TagLint

open Text (byteWidth)

/-- The position so many bytes further behind. -/
abbrev Position.shift (k : Nat) : Position → Position :=
  .mapByte (k + ·)

namespace DocComment

theorem scanArguments_shift (k offset : Nat) (cs : List Char) :
    scanArguments (k + offset) cs = (scanArguments offset cs).map (·.mapPositions (.shift k)) := by
  induction lineWords cs generalizing offset with
  | ending hBlanks hTail =>
    rw [scanArguments_ending hBlanks hTail, scanArguments_ending hBlanks hTail]
    rfl
  | @word blanks word rest hBlanks hNe hWord _ ih =>
    rw [scanArguments_word hBlanks hNe hWord, scanArguments_word hBlanks hNe hWord, List.map_cons,
      Argument.mapPositions_ofWord, Span.map_mapByte_ofBytes, ← ih]
    simp only [Nat.add_assoc]

theorem scanTag?_shift (k offset : Nat) (content : List Char) :
    scanTag? (k + offset) content =
      (scanTag? offset content).map (·.mapPositions (.shift k)) := by
  rcases content_cases content with ⟨letters, rest, rfl, hNe, hLetters⟩ | ⟨rest, rfl, hNone⟩ | hNone
  · rw [scanTag?_letters hNe hLetters, scanTag?_letters hNe hLetters, Option.map_some]
    exact congrArg some (tagAt_map (f := (k + ·)) (Nat.add_assoc _ _ _).symm
      (scanArguments_shift k _ rest))
  · rw [scanTag?_no_letters hNone, scanTag?_no_letters hNone]
    rfl
  · rw [scanTag?_no_sign hNone, scanTag?_no_sign hNone]
    rfl

theorem scanLines_shift (k offset : Nat) (ls : List (List Char)) :
    scanLines (k + offset) ls = (scanLines offset ls).map (·.mapPositions (.shift k)) := by
  induction ls generalizing offset with
  | nil => rfl
  | cons line ls ih =>
    rw [scanLines, scanLines, scanLine?, scanLine?, Nat.add_assoc, Nat.add_assoc, scanTag?_shift, ih,
      List.map_append, Option.toList_map]

theorem parse_shift (k offset : Nat) (text : List Char) :
    parse text (k + offset) =
      ((parse text offset).map (·.mapPositions (.shift k))).mapError (·.mapPositions (.shift k)) := by
  have hSpan : Span.ofBytes (k + offset) (k + offset + byteWidth text) =
      (Span.ofBytes offset (offset + byteWidth text)).map (.shift k) := by
    rw [Nat.add_assoc]
    rfl
  unfold parse
  dsimp only
  rw [hSpan]
  cases body? text with
  | none => rfl
  | some body =>
    dsimp only
    rw [Nat.add_assoc, scanLines_shift]
    rfl

end DocComment

namespace Php

theorem headLexemes_shift (k offset : Nat) (code : List Char) :
    headLexemes (k + offset) code = (headLexemes offset code).map (·.map (k + ·)) := by
  induction code using leads_induction generalizing offset with
  | nil => simp [headLexemes]
  | token token taken rest hLeads ih =>
    have hRest := ih rest (Nat.le_refl _) (offset + byteWidth taken)
    rw [← Nat.add_assoc] at hRest
    by_cases hTrivia : token = .trivia
    · subst hTrivia
      rw [headLexemes_trivia hLeads, headLexemes_trivia hLeads, hRest]
    · cases hHead : token.continuesHead with
      | true =>
        rw [headLexemes_continue hLeads hHead, headLexemes_continue hLeads hHead, hRest,
          List.map_cons, Lexeme.map_mk, Nat.add_assoc]
      | false =>
        rw [headLexemes_last hLeads hTrivia hHead, headLexemes_last hLeads hTrivia hHead,
          List.map_singleton, Lexeme.map_mk, Nat.add_assoc]

theorem findOwner_shift (k offset : Nat) (code : List Char) :
    findOwner (k + offset) code = (findOwner offset code).mapPositions (.shift k) := by
  rw [findOwner, headLexemes_shift]
  exact ownerOf_map (k + ·) offset {} _

/-- The comment so many bytes further behind. -/
def RawComment.shift (k : Nat) (raw : RawComment) : RawComment :=
  { raw with start := k + raw.start }

theorem codeComments_shift (k offset : Nat) (code : List Char) :
    codeComments (k + offset) code = (codeComments offset code).map (·.shift k) := by
  induction code using leads_induction generalizing offset with
  | nil => simp [codeComments]
  | token token taken rest hLeads ih =>
    by_cases hDoc : token = .docComment
    · subst hDoc
      rw [codeComments_docComment hLeads, codeComments_docComment hLeads, List.map_cons,
        Nat.add_assoc, ih rest (Nat.le_refl _)]
      rfl
    · by_cases hClose : token = .closeTag
      · subst hClose
        obtain ⟨html, code, rfl, hHtml⟩ := exists_cutHtml rest
        rw [codeComments_closeTag hLeads hHtml, codeComments_closeTag hLeads hHtml, Nat.add_assoc,
          Nat.add_assoc, ← Nat.add_assoc offset]
        exact ih code (by simp) _
      · rw [codeComments_skip hLeads hDoc hClose, codeComments_skip hLeads hDoc hClose, Nat.add_assoc]
        exact ih rest (Nat.le_refl _) _

theorem RawComment.item?_shift (k : Nat) (raw : RawComment) :
    (raw.shift k).item? = raw.item?.map (·.mapPositions (.shift k)) := by
  have hStop : (raw.shift k).stop = k + raw.stop := Nat.add_assoc _ _ _
  have hOwner : findOwner (raw.shift k).stop (raw.shift k).following =
      (findOwner raw.stop raw.following).mapPositions (.shift k) := by
    rw [hStop]
    exact findOwner_shift k raw.stop raw.following
  have hParse : DocComment.parse (raw.shift k).text (raw.shift k).start =
      ((DocComment.parse raw.text raw.start).map (·.mapPositions (.shift k))).mapError
        (·.mapPositions (.shift k)) :=
    DocComment.parse_shift k raw.start raw.text
  unfold RawComment.item?
  rw [hParse, hOwner]
  cases DocComment.parse raw.text raw.start with
  | error e => rfl
  | ok comment =>
    have hEmpty : (comment.mapPositions (.shift k)).tags.isEmpty = comment.tags.isEmpty :=
      List.isEmpty_map
    show (if (comment.mapPositions (.shift k)).tags.isEmpty then none else _) = Option.map _ (ite _ _ _)
    rw [hEmpty]
    split
    · rfl
    · rfl

/-- The items of a code that starts so many bytes further behind. -/
theorem items_shift (k offset : Nat) (code : List Char) :
    (codeComments (k + offset) code).filterMap (·.item?) =
      ((codeComments offset code).filterMap (·.item?)).map (·.mapPositions (.shift k)) := by
  rw [codeComments_shift, List.filterMap_map, List.map_filterMap]
  apply List.filterMap_congr
  intro raw _
  exact raw.item?_shift k

end Php

end TagLint
