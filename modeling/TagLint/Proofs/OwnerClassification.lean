import TagLint.Proofs.SignificantTokens

/-!
# Which owner a head shows

The tokens behind a comment begin with a lead: nothing, or a modifier and any modifiers and parts of a
type behind it. The token behind the lead decides: a keyword declares something, a variable behind
modifiers is a property, and everything else is no declaration.

* `HeadWord.ofWord_declares` and its like: what a word means, in any case of its letters.
* `IsLead.exists_after`: what the judgement has seen behind a lead.
* `KeywordHead.shows`: the owner behind a keyword other than that of constants.
* `ownerOf_property`, `ownerOf_constant`: the owner behind a variable and the keyword of constants.
* `exists_decision`: only a keyword, or a variable behind modifiers, makes a declaration.
* `findOwner_classified`: the owner of every comment.
-/

namespace TagLint.Php

/-! ## Words in any case -/

/-- The word is the keyword, whatever the case of its letters. -/
def Spells (keyword : String) (word : List Char) : Prop :=
  String.ofList (word.map Char.toLower) = keyword

instance (keyword : String) (word : List Char) : Decidable (Spells keyword word) :=
  inferInstanceAs (Decidable (_ = _))

/-- No keyword stands in two of the tables, or twice in one. -/
theorem declaringKeywords_apart : ∀ entry ∈ declaringKeywords,
    entry.1 ≠ "static" ∧ entry.1 ∉ memberModifiers ∧
      declaringKeywords.lookup entry.1 = some entry.2 := by
  decide

namespace HeadWord

variable {word : List Char}

theorem ofWord_static (h : Spells "static" word) : ofWord word = .static := by
  rw [Spells] at h
  simp [ofWord, h]

theorem ofWord_member (h : ∃ modifier ∈ memberModifiers, Spells modifier word) :
    ofWord word = .member := by
  obtain ⟨modifier, hModifier, h⟩ := h
  have hOther : modifier ≠ "static" := by
    rintro rfl
    exact absurd hModifier (by decide)
  rw [Spells] at h
  simp [ofWord, h, hOther, hModifier]

theorem ofWord_declares {kind : DeclarationKind}
    (h : ∃ keyword, (keyword, kind) ∈ declaringKeywords ∧ Spells keyword word) :
    ofWord word = .declares kind := by
  obtain ⟨keyword, hKeyword, h⟩ := h
  obtain ⟨hStatic, hMember, hLookup⟩ := declaringKeywords_apart (keyword, kind) hKeyword
  rw [Spells] at h
  simp [ofWord, h, hStatic, hMember, hLookup]

theorem ofWord_plain (hStatic : ¬Spells "static" word)
    (hMember : ¬∃ modifier ∈ memberModifiers, Spells modifier word)
    (hDeclares : ∀ kind, ¬∃ keyword, (keyword, kind) ∈ declaringKeywords ∧ Spells keyword word) :
    ofWord word = .plain := by
  have hNoMember : String.ofList (word.map Char.toLower) ∉ memberModifiers :=
    fun hModifier => hMember ⟨_, hModifier, rfl⟩
  have hNone : declaringKeywords.lookup (String.ofList (word.map Char.toLower)) = none := by
    cases hLookup : declaringKeywords.lookup (String.ofList (word.map Char.toLower)) with
    | none => rfl
    | some kind =>
      obtain ⟨before, after, hSplit, -⟩ := List.lookup_eq_some_iff.mp hLookup
      exact absurd ⟨_, by simp [hSplit], rfl⟩ (hDeclares kind)
  rw [Spells] at hStatic
  simp [ofWord, hStatic, hNoMember, hNone]

end HeadWord

namespace Token

/-- The modifier of static members and closures. -/
def IsStatic (token : Token) : Prop :=
  ∃ word, token = .word word ∧ Spells "static" word

/-- A modifier that only class members have. -/
def IsMember (token : Token) : Prop :=
  ∃ word, token = .word word ∧ ∃ modifier ∈ memberModifiers, Spells modifier word

/-- Any modifier. -/
def IsModifier (token : Token) : Prop :=
  token.IsStatic ∨ token.IsMember

/-- A keyword that declares something of a kind. -/
def Declares (kind : DeclarationKind) (token : Token) : Prop :=
  ∃ word, token = .word word ∧ ∃ keyword, (keyword, kind) ∈ declaringKeywords ∧ Spells keyword word

/-- A word or a punctuation mark that may stand in the type of a property. -/
def IsTypePart (token : Token) : Prop :=
  (∃ word, token = .word word ∧ ¬token.IsModifier ∧ ∀ kind, ¬token.Declares kind) ∨
    ∃ c ∈ ['?', '|', '&', '(', ')', '\\'], token = .punctuation c

variable {token : Token}

theorem IsMember.not_isStatic (h : token.IsMember) : ¬token.IsStatic := by
  rintro ⟨word, rfl, hStatic⟩
  obtain ⟨other, hWord, hMember⟩ := h
  cases hWord
  exact absurd ((HeadWord.ofWord_member hMember).symm.trans (HeadWord.ofWord_static hStatic)) (by simp)

theorem IsTypePart.not_isModifier (h : token.IsTypePart) : ¬token.IsModifier := by
  rcases h with ⟨word, -, hModifier, -⟩ | ⟨c, -, rfl⟩
  · exact hModifier
  · rintro (⟨word, hWord, -⟩ | ⟨word, hWord, -⟩) <;> cases hWord

/-- A word of a type means nothing to a head. -/
theorem IsTypePart.ofWord_eq {word : List Char} (h : (Token.word word).IsTypePart) :
    HeadWord.ofWord word = .plain := by
  rcases h with ⟨_, -, hModifier, hDeclares⟩ | ⟨c, -, hWord⟩
  · exact HeadWord.ofWord_plain (fun hStatic => hModifier (.inl ⟨_, rfl, hStatic⟩))
      (fun hMember => hModifier (.inr ⟨_, rfl, hMember⟩))
      (fun kind hKeyword => hDeclares kind ⟨_, rfl, hKeyword⟩)
  · cases hWord

/-- No keyword declares a method, and only those of functions declare something like one. -/
theorem Declares.kind {kind : DeclarationKind} (h : token.Declares kind) :
    kind ≠ .method ∧ (kind.isFunctionLike = true ↔ kind = .function) := by
  have hTable : ∀ entry ∈ declaringKeywords,
      entry.2 ≠ .method ∧ (entry.2.isFunctionLike = true ↔ entry.2 = .function) := by
    decide
  obtain ⟨word, -, keyword, hKeyword, -⟩ := h
  exact hTable _ hKeyword

theorem isTypePart_punctuation {c : Char} :
    (Token.punctuation c).IsTypePart ↔ isTypePunctuation c = true := by
  simp [IsTypePart, isTypePunctuation, or_assoc]

end Token

/-! ## The lead of a head -/

/-- What may stand before the token that decides: nothing, or a modifier with modifiers and parts of
a type behind it. -/
structure IsLead (lead : List Lexeme) : Prop where
  first : ∀ x ∈ lead.head?, x.token.IsModifier
  parts : ∀ x ∈ lead, x.token.IsModifier ∨ x.token.IsTypePart

/-- What has been seen behind some tokens of a lead. -/
structure HeadState.After (s : HeadState) (lead : List Lexeme) (s' : HeadState) : Prop where
  start_eq : s'.start = s.start.or (lead.head?.map (·.start))
  member_iff : s'.member = true ↔ s.member = true ∨ ∃ x ∈ lead, x.token.IsMember
  static_iff : s'.static = true ↔ s.static = true ∨ ∃ x ∈ lead, x.token.IsStatic

namespace HeadState.After

theorem nil (s : HeadState) : s.After [] s :=
  ⟨by simp, by simp, by simp⟩

theorem cons {s s' s'' : HeadState} {x : Lexeme} {lead : List Lexeme} (h : s.After [x] s')
    (hLead : s'.After lead s'') : s.After (x :: lead) s'' := by
  refine ⟨?_, ?_, ?_⟩
  · rw [hLead.start_eq, h.start_eq]
    cases s.start <;> simp
  · rw [hLead.member_iff, h.member_iff]
    simp [or_assoc]
  · rw [hLead.static_iff, h.static_iff]
    simp [or_assoc]

theorem modified_iff {s s' : HeadState} {lead : List Lexeme} (h : s.After lead s') :
    s'.modified = true ↔ s.modified = true ∨ ∃ x ∈ lead, x.token.IsModifier := by
  simp only [HeadState.modified, Bool.or_eq_true, h.member_iff, h.static_iff, Token.IsModifier,
    and_or_left, exists_or]
  grind

/-- A head starts at its lead, if it has one. -/
theorem start_getD {s : HeadState} {lead : List Lexeme} (h : HeadState.After {} lead s)
    (x : Lexeme) : s.start.getD x.start = (lead.head?.getD x).start := by
  rw [h.start_eq]
  cases lead <;> rfl

end HeadState.After

/-- A token of a lead is remembered, and the judgement goes on behind it. -/
theorem ownerOf_step {s : HeadState} {x : Lexeme}
    (h : x.token.IsModifier ∨ (s.modified = true ∧ x.token.IsTypePart)) :
    ∃ s', s.After [x] s' ∧ ∀ anchor xs, ownerOf anchor s (x :: xs) = ownerOf anchor s' xs := by
  have hStart : some (s.start.getD x.start) = s.start.or (some x.start) := by
    cases s.start <;> rfl
  rcases h with (hStatic | hMember) | ⟨hModified, hType⟩
  · refine ⟨⟨some (s.start.getD x.start), s.member, true⟩, ⟨hStart, ?_, ?_⟩, ?_⟩
    · have hNoMember : ¬x.token.IsMember := fun hMember => hMember.not_isStatic hStatic
      simp [hNoMember]
    · simp [hStatic]
    · intro anchor xs
      obtain ⟨word, hWord, hSpells⟩ := hStatic
      simp [ownerOf, hWord, HeadWord.ofWord_static hSpells]
  · refine ⟨⟨some (s.start.getD x.start), true, s.static⟩, ⟨hStart, ?_, ?_⟩, ?_⟩
    · simp [hMember]
    · simp [hMember.not_isStatic]
    · intro anchor xs
      obtain ⟨word, hWord, hSpells⟩ := hMember
      simp [ownerOf, hWord, HeadWord.ofWord_member hSpells]
  · have hNone := hType.not_isModifier
    rw [Token.IsModifier, not_or] at hNone
    refine ⟨⟨some (s.start.getD x.start), s.member, s.static⟩, ⟨hStart, ?_, ?_⟩, ?_⟩
    · simp [hNone.2]
    · simp [hNone.1]
    · intro anchor xs
      obtain ⟨token, start, stop⟩ := x
      rcases hType with hType | ⟨c, hc, rfl⟩
      · obtain ⟨word, rfl, hWord⟩ := hType
        have hPlain := Token.IsTypePart.ofWord_eq (.inl ⟨word, rfl, hWord⟩)
        simp only [ownerOf, hPlain]
        exact if_pos hModified
      · have hPunctuation := Token.isTypePart_punctuation.mp (.inr ⟨c, hc, rfl⟩)
        simp only [ownerOf, hPunctuation, Bool.and_true]
        exact if_pos hModified

/-- The judgement behind a lead. -/
theorem ownerOf_lead {s : HeadState} {lead : List Lexeme}
    (hFirst : s.modified = true ∨ ∀ x ∈ lead.head?, x.token.IsModifier)
    (hParts : ∀ x ∈ lead, x.token.IsModifier ∨ x.token.IsTypePart) :
    ∃ s', s.After lead s' ∧
      ∀ anchor rest, ownerOf anchor s (lead ++ rest) = ownerOf anchor s' rest := by
  induction lead generalizing s with
  | nil => exact ⟨s, .nil s, fun _ _ => rfl⟩
  | cons x lead ih =>
    have hHead : x.token.IsModifier ∨ (s.modified = true ∧ x.token.IsTypePart) := by
      rcases hFirst with hModified | hFirst
      · exact (hParts x List.mem_cons_self).imp_right fun hType => ⟨hModified, hType⟩
      · exact .inl (hFirst x rfl)
    obtain ⟨s', hAfter, hStep⟩ := ownerOf_step hHead
    have hModified : s'.modified = true := by
      rw [hAfter.modified_iff]
      rcases hHead with hModifier | ⟨hModified, -⟩
      · exact .inr ⟨x, List.mem_singleton_self x, hModifier⟩
      · exact .inl hModified
    obtain ⟨s'', hLead, hRest⟩ := ih (.inl hModified) fun y hy => hParts y (List.mem_cons_of_mem x hy)
    refine ⟨s'', hAfter.cons hLead, fun anchor rest => ?_⟩
    rw [List.cons_append, hStep, hRest]

/-- The judgement behind a lead that stands at the start. -/
theorem IsLead.exists_after {lead : List Lexeme} (h : IsLead lead) :
    ∃ s, HeadState.After {} lead s ∧ (s.modified = true ↔ lead ≠ []) ∧
      ∀ anchor rest, ownerOf anchor {} (lead ++ rest) = ownerOf anchor s rest := by
  obtain ⟨s, hAfter, hRest⟩ := ownerOf_lead (s := {}) (.inr h.first) h.parts
  refine ⟨s, hAfter, ?_, hRest⟩
  rw [hAfter.modified_iff, or_iff_right (by decide)]
  constructor
  · rintro ⟨x, hx, -⟩
    exact List.ne_nil_of_mem hx
  · intro hSome
    obtain ⟨x, rest, rfl⟩ := List.exists_cons_of_ne_nil hSome
    exact ⟨x, List.mem_cons_self, h.first x rfl⟩

/-! ## The token that decides -/

theorem ownerOf_keyword {kind : DeclarationKind} {x : Lexeme} (h : x.token.Declares kind)
    (anchor : Nat) (s : HeadState) (xs : List Lexeme) :
    ownerOf anchor s (x :: xs) =
      declare { s with start := some (s.start.getD x.start) } kind (s.start.getD x.start) x.stop
        xs := by
  obtain ⟨word, hWord, hSpells⟩ := h
  simp only [ownerOf, hWord, HeadWord.ofWord_declares hSpells]

theorem ownerOf_variable {name : List Char} {x : Lexeme} (h : x.token = .variable_ name)
    (anchor : Nat) (s : HeadState) (xs : List Lexeme) :
    ownerOf anchor s (x :: xs) =
      { kind := if s.modified then .property else .other
        name := String.ofList name
        span := .ofBytes (s.start.getD x.start) x.stop } := by
  simp only [ownerOf, h]
  rfl

/-- A variable is a property behind a lead with a modifier, and otherwise no declaration. -/
theorem ownerOf_property {lead : List Lexeme} {x : Lexeme} {name : List Char} (hLead : IsLead lead)
    (h : x.token = .variable_ name) (anchor : Nat) (rest : List Lexeme) :
    ownerOf anchor {} (lead ++ x :: rest) =
      { kind := if lead = [] then .other else .property
        name := String.ofList name
        span := .ofBytes (lead.head?.getD x).start x.stop } := by
  obtain ⟨s, hAfter, hModified, hRest⟩ := hLead.exists_after
  have hKind : (if s.modified then DeclarationKind.property else .other) =
      if lead = [] then .other else .property := by
    simp only [hModified, ite_not]
  rw [hRest, ownerOf_variable h, hAfter.start_getD, hKind]

/-- A token that is no part of a lead decides. -/
theorem decides_of_not_part {anchor : Nat} {s : HeadState} {x : Lexeme} {xs : List Lexeme}
    (hModifier : ¬x.token.IsModifier) (hType : s.modified = true → ¬x.token.IsTypePart)
    (h : (ownerOf anchor s (x :: xs)).kind ≠ .other) :
    (∃ kind, x.token.Declares kind) ∨ (s.modified = true ∧ ∃ name, x.token = .variable_ name) := by
  obtain ⟨token, start, stop⟩ := x
  cases token with
  | word word =>
    by_cases hDeclares : ∃ kind, (Token.word word).Declares kind
    · exact .inl hDeclares
    · have hPart : (Token.word word).IsTypePart :=
        .inl ⟨word, rfl, hModifier, not_exists.mp hDeclares⟩
      have hUnmodified : ¬s.modified = true := fun hModified => hType hModified hPart
      have hOwner : ownerOf anchor s (⟨.word word, start, stop⟩ :: xs) = unspecific start stop := by
        simp only [ownerOf, hPart.ofWord_eq]
        exact if_neg hUnmodified
      rw [hOwner] at h
      exact absurd rfl h
  | variable_ name =>
    rw [ownerOf_variable rfl] at h
    by_cases hModified : s.modified = true
    · exact .inr ⟨hModified, name, rfl⟩
    · exact absurd (if_neg hModified) h
  | punctuation c =>
    have hEnds : ¬(s.modified && isTypePunctuation c) = true := by
      rw [Bool.and_eq_true, ← Token.isTypePart_punctuation]
      exact fun hPart => hType hPart.1 hPart.2
    have hOwner : ownerOf anchor s (⟨.punctuation c, start, stop⟩ :: xs) =
        unspecific start start := if_neg hEnds
    rw [hOwner] at h
    exact absurd rfl h
  | _ => exact absurd rfl h

/-- Only a keyword, or a variable behind a modifier, makes a declaration. -/
theorem exists_decision {anchor : Nat} {s : HeadState} {xs : List Lexeme}
    (h : (ownerOf anchor s xs).kind ≠ .other) :
    ∃ lead x rest, xs = lead ++ x :: rest ∧
      (s.modified = true ∨ ∀ y ∈ lead.head?, y.token.IsModifier) ∧
      (∀ y ∈ lead, y.token.IsModifier ∨ y.token.IsTypePart) ∧
      ((∃ kind, x.token.Declares kind) ∨
        ((s.modified = true ∨ lead ≠ []) ∧ ∃ name, x.token = .variable_ name)) := by
  induction xs generalizing s with
  | nil => exact absurd rfl h
  | cons x xs ih =>
    by_cases hStep : x.token.IsModifier ∨ (s.modified = true ∧ x.token.IsTypePart)
    · obtain ⟨s', -, hOwner⟩ := ownerOf_step hStep
      rw [hOwner] at h
      obtain ⟨lead, y, rest, rfl, -, hParts, hDecides⟩ := ih h
      refine ⟨x :: lead, y, rest, rfl, ?_, ?_, ?_⟩
      · rcases hStep with hModifier | ⟨hModified, -⟩
        · right
          rintro _ ⟨⟩
          exact hModifier
        · exact .inl hModified
      · exact List.forall_mem_cons.mpr ⟨hStep.imp_right And.right, hParts⟩
      · exact hDecides.imp_right fun hVariable => ⟨.inr (by simp), hVariable.2⟩
    · rw [not_or, not_and] at hStep
      refine ⟨[], x, xs, rfl, .inr (by simp), by simp, ?_⟩
      exact (decides_of_not_part hStep.1 hStep.2 h).imp_right (And.imp_left .inl)

/-! ## Names behind a keyword -/

/-- The characters of a word or of the name of a variable. -/
def Lexeme.text (x : Lexeme) : List Char :=
  match x.token with
  | .word word => word
  | .variable_ name => name
  | _ => []

/-- The tokens do not begin with a word. -/
def NoWord (xs : List Lexeme) : Prop :=
  ∀ x ∈ xs.head?, ∀ word, x.token ≠ .word word

theorem NoWord.lastWord_eq {xs : List Lexeme} (h : NoWord xs) (name : List Char) (stop : Nat) :
    lastWord name stop xs = (name, stop) := by
  unfold lastWord
  split
  · exact absurd rfl (h _ rfl _)
  · rfl

theorem NoWord.declaredName?_eq {kind : DeclarationKind} {xs : List Lexeme}
    (h : NoWord (if kind.isFunctionLike then declaredName?.dropAmpersand xs else xs)) :
    declaredName? kind xs = none := by
  unfold declaredName?
  split
  case h_1 word start stop rest hWord =>
    rw [hWord] at h
    exact absurd rfl (h _ rfl word)
  case h_2 => rfl

theorem lastWord_append {words rest : List Lexeme}
    (hWords : ∀ x ∈ words, ∃ word, x.token = .word word) (hRest : NoWord rest)
    (name : List Char) (stop : Nat) :
    lastWord name stop (words ++ rest) =
      (words.getLast?.map fun x => (x.text, x.stop)).getD (name, stop) := by
  induction words generalizing name stop with
  | nil => exact hRest.lastWord_eq name stop
  | cons x words ih =>
    obtain ⟨word, hWord⟩ := hWords x List.mem_cons_self
    obtain ⟨token, start, xStop⟩ := x
    cases hWord
    have hLast := ih (fun y hy => hWords y (List.mem_cons_of_mem _ hy)) word xStop
    rw [List.cons_append, lastWord, hLast, List.getLast?_cons]
    cases words.getLast? <;> rfl

/-- The name of a constant is the last of the words behind the keyword. -/
theorem declaredName?_constant {words rest : List Lexeme}
    (hWords : ∀ x ∈ words, ∃ word, x.token = .word word) (hRest : NoWord rest) :
    declaredName? .constant (words ++ rest) = words.getLast?.map fun x => (x.text, x.stop) := by
  cases words with
  | nil => exact NoWord.declaredName?_eq hRest
  | cons x words =>
    obtain ⟨word, hWord⟩ := hWords x List.mem_cons_self
    obtain ⟨token, start, stop⟩ := x
    cases hWord
    have hLast := lastWord_append (fun y hy => hWords y (List.mem_cons_of_mem _ hy)) hRest word stop
    have hName : declaredName? .constant (⟨.word word, start, stop⟩ :: words ++ rest) =
        some (lastWord word stop (words ++ rest)) := rfl
    rw [hName, hLast, List.getLast?_cons]
    cases words.getLast? <;> rfl

theorem ownerOf_constant {lead words rest : List Lexeme} {x : Lexeme} (hLead : IsLead lead)
    (hKeyword : x.token.Declares .constant) (hWords : ∀ y ∈ words, ∃ word, y.token = .word word)
    (hRest : NoWord rest) (anchor : Nat) :
    ownerOf anchor {} (lead ++ x :: (words ++ rest)) =
      { kind := .constant
        name := String.ofList ((words.getLast?.map (·.text)).getD [])
        span := .ofBytes (lead.head?.getD x).start (words.getLast?.getD x).stop } := by
  obtain ⟨s, hAfter, -, hOwner⟩ := hLead.exists_after
  rw [hOwner, ownerOf_keyword hKeyword, hAfter.start_getD, declare,
    declaredName?_constant hWords hRest]
  cases words.getLast? <;> rfl

theorem dropAmpersand_eq_self {xs : List Lexeme}
    (h : ∀ x ∈ xs.head?, x.token ≠ .punctuation '&') : declaredName?.dropAmpersand xs = xs := by
  unfold declaredName?.dropAmpersand
  split
  · exact absurd rfl (h _ rfl)
  · rfl

/-! ## Heads with a keyword -/

/-- A head with a keyword other than that of constants: a lead, the keyword, for functions perhaps an
ampersand, perhaps a name, and what comes behind. If there is no name, no word is left out. -/
structure KeywordHead where
  lead : List Lexeme
  keyword : Lexeme
  kind : DeclarationKind
  reference : List Lexeme
  name? : Option Lexeme
  rest : List Lexeme
  isLead : IsLead lead
  declares : keyword.token.Declares kind
  notConstant : kind ≠ .constant
  isReference : reference = [] ∨
    (kind = .function ∧ ∃ start stop, reference = [⟨.punctuation '&', start, stop⟩])
  isName : ∀ x ∈ name?, ∃ word, x.token = .word word
  nameless : name? = none → NoWord rest
  unreferenced : name? = none → kind = .function → reference = [] →
    ∀ x ∈ rest.head?, x.token ≠ .punctuation '&'

namespace KeywordHead

/-- All the tokens. -/
def lexemes (head : KeywordHead) : List Lexeme :=
  head.lead ++ head.keyword :: (head.reference ++ (head.name?.toList ++ head.rest))

/-- The owner that a head shows: a method if a function has a member modifier, or the static one and
a name, and otherwise what the keyword declares; from the first token to the name or the keyword. -/
structure Shows (head : KeywordHead) (owner : Declaration) : Prop where
  method_iff : owner.kind = .method ↔ head.kind = .function ∧
    ((∃ x ∈ head.lead, x.token.IsMember) ∨
      ((∃ x ∈ head.lead, x.token.IsStatic) ∧ head.name?.isSome = true))
  kind_eq : owner.kind ≠ .method → owner.kind = head.kind
  name_eq : owner.name = String.ofList ((head.name?.map (·.text)).getD [])
  span_eq : owner.span =
    .ofBytes (head.lead.head?.getD head.keyword).start (head.name?.getD head.keyword).stop

/-- The ampersand before the name of a function can be told from what is behind it. -/
theorem exists_reference (kind : DeclarationKind) (xs : List Lexeme) :
    ∃ reference ys, xs = reference ++ ys ∧
      (reference = [] ∨
        (kind = .function ∧ ∃ start stop, reference = [⟨.punctuation '&', start, stop⟩])) ∧
      (kind = .function → reference = [] → ∀ y ∈ ys.head?, y.token ≠ .punctuation '&') := by
  by_cases hAmpersand : kind = .function ∧
      ∃ start stop ys, xs = ⟨.punctuation '&', start, stop⟩ :: ys
  · obtain ⟨hFunction, start, stop, ys, rfl⟩ := hAmpersand
    exact ⟨[_], ys, rfl, .inr ⟨hFunction, start, stop, rfl⟩, nofun⟩
  · refine ⟨[], xs, rfl, .inl rfl, fun hFunction _ y hy hToken => hAmpersand ⟨hFunction, ?_⟩⟩
    obtain ⟨ys, rfl⟩ := List.head?_eq_some_iff.mp hy
    obtain ⟨token, start, stop⟩ := y
    cases hToken
    exact ⟨start, stop, ys, rfl⟩

/-- Behind a lead, every keyword other than that of constants makes a head. -/
theorem exists_of_keyword {lead : List Lexeme} {x : Lexeme} {kind : DeclarationKind}
    (hLead : IsLead lead) (hKeyword : x.token.Declares kind) (hKind : kind ≠ .constant)
    (xs : List Lexeme) : ∃ head : KeywordHead, lead ++ x :: xs = head.lexemes := by
  obtain ⟨reference, ys, rfl, hReference, hNone⟩ := exists_reference kind xs
  by_cases hWord : ∃ y word, y ∈ ys.head? ∧ y.token = .word word
  · obtain ⟨y, word, hy, hWord⟩ := hWord
    obtain ⟨rest, rfl⟩ := List.head?_eq_some_iff.mp hy
    refine ⟨⟨lead, x, kind, reference, some y, rest, hLead, hKeyword, hKind, hReference, ?_,
      nofun, nofun⟩, rfl⟩
    rintro _ ⟨⟩
    exact ⟨word, hWord⟩
  · exact ⟨⟨lead, x, kind, reference, none, ys, hLead, hKeyword, hKind, hReference, nofun,
      fun _ y hy word hToken => hWord ⟨y, word, hy, hToken⟩, fun _ => hNone⟩, rfl⟩

/-- The ampersand is passed over, and nothing else. -/
theorem drop_reference (head : KeywordHead) :
    (if head.kind.isFunctionLike then
        declaredName?.dropAmpersand (head.reference ++ (head.name?.toList ++ head.rest))
      else head.reference ++ (head.name?.toList ++ head.rest)) =
      head.name?.toList ++ head.rest := by
  have hFunctionLike := head.declares.kind.2
  rcases head.isReference with hReference | ⟨hFunction, start, stop, hReference⟩
  · rw [hReference, List.nil_append]
    split
    case isFalse => rfl
    case isTrue hFunction =>
      refine dropAmpersand_eq_self fun x hx => ?_
      cases hName : head.name? with
      | some y =>
        rw [hName] at hx
        cases hx
        obtain ⟨word, hWord⟩ := head.isName x hName
        rw [hWord]
        exact Token.noConfusion
      | none =>
        rw [hName] at hx
        exact head.unreferenced hName (hFunctionLike.mp hFunction) hReference x hx
  · rw [if_pos (hFunctionLike.mpr hFunction), hReference]
    rfl

theorem declaredName?_eq (head : KeywordHead) :
    declaredName? head.kind (head.reference ++ (head.name?.toList ++ head.rest)) =
      head.name?.map fun x => (x.text, x.stop) := by
  cases hName : head.name? with
  | none =>
    refine NoWord.declaredName?_eq ?_
    rw [← hName, head.drop_reference, hName]
    exact head.nameless hName
  | some x =>
    obtain ⟨word, hWord⟩ := head.isName x hName
    rw [declaredName?, ← hName, head.drop_reference, hName]
    obtain ⟨token, start, stop⟩ := x
    cases hWord
    exact if_neg head.notConstant

theorem shows (head : KeywordHead) (anchor : Nat) : head.Shows (ownerOf anchor {} head.lexemes) := by
  obtain ⟨s, hAfter, -, hOwner⟩ := head.isLead.exists_after
  have hMember : s.member = true ↔ ∃ x ∈ head.lead, x.token.IsMember := by
    simpa using hAfter.member_iff
  have hStatic : s.static = true ↔ ∃ x ∈ head.lead, x.token.IsStatic := by
    simpa using hAfter.static_iff
  rw [lexemes, hOwner, ownerOf_keyword head.declares, hAfter.start_getD, declare,
    head.declaredName?_eq]
  refine ⟨?_, ?_, ?_, ?_⟩
  · rw [← hMember, ← hStatic]
    simp only [Option.isSome_map]
    split
    case isTrue hMethod => exact iff_of_true rfl hMethod
    case isFalse hOther => exact iff_of_false head.declares.kind.1 hOther
  · intro hOther
    exact if_neg fun hMethod => hOther (if_pos hMethod)
  · cases head.name? <;> rfl
  · cases head.name? <;> rfl

end KeywordHead

/-! ## The owner of a comment -/

/-- The owner of a comment, from the tokens behind it that are no trivia. They alone tell its kind and
its name, and their places its span. -/
theorem findOwner_classified (offset : Nat) (code : List Char) :
    -- Where the tokens stand and what trivia is between them changes neither kind nor name.
    (∀ offset' code', (significant offset code).map (·.token) =
        (significant offset' code').map (·.token) →
      (findOwner offset code).kind = (findOwner offset' code').kind ∧
        (findOwner offset code).name = (findOwner offset' code').name) ∧
    (∀ head : KeywordHead, significant offset code = head.lexemes →
      head.Shows (findOwner offset code)) ∧
    (∀ lead x rest name, significant offset code = lead ++ x :: rest → IsLead lead →
      x.token = .variable_ name →
      findOwner offset code =
        { kind := if lead = [] then .other else .property
          name := String.ofList name
          span := .ofBytes (lead.head?.getD x).start x.stop }) ∧
    (∀ lead x words rest, significant offset code = lead ++ x :: (words ++ rest) → IsLead lead →
      x.token.Declares .constant → (∀ y ∈ words, ∃ word, y.token = .word word) → NoWord rest →
      findOwner offset code =
        { kind := .constant
          name := String.ofList ((words.getLast?.map (·.text)).getD [])
          span := .ofBytes (lead.head?.getD x).start (words.getLast?.getD x).stop }) ∧
    -- There are no other declarations.
    ((findOwner offset code).kind ≠ .other →
      (∃ head : KeywordHead, significant offset code = head.lexemes) ∨
      ∃ lead x rest, significant offset code = lead ++ x :: rest ∧ IsLead lead ∧
        (x.token.Declares .constant ∨ (lead ≠ [] ∧ ∃ name, x.token = .variable_ name))) := by
  refine ⟨fun _ _ => findOwner_of_tokens, ?_, ?_, ?_, ?_⟩
  · intro head hHead
    rw [findOwner_eq_ownerOf, hHead]
    exact head.shows offset
  · intro lead x rest name hTokens hLead hVariable
    rw [findOwner_eq_ownerOf, hTokens]
    exact ownerOf_property hLead hVariable offset rest
  · intro lead x words rest hTokens hLead hKeyword hWords hRest
    rw [findOwner_eq_ownerOf, hTokens]
    exact ownerOf_constant hLead hKeyword hWords hRest offset
  · intro hKind
    rw [findOwner_eq_ownerOf] at hKind
    obtain ⟨lead, x, rest, hTokens, hFirst, hParts, hDecides⟩ := exists_decision hKind
    have hLead : IsLead lead := ⟨hFirst.resolve_left (by decide), hParts⟩
    rcases hDecides with ⟨kind, hKeyword⟩ | ⟨hModified, hVariable⟩
    · by_cases hConstant : kind = .constant
      · subst hConstant
        exact .inr ⟨lead, x, rest, hTokens, hLead, .inl hKeyword⟩
      · rw [hTokens]
        exact .inl (KeywordHead.exists_of_keyword hLead hKeyword hConstant rest)
    · have hSome := hModified.resolve_left (by decide)
      exact .inr ⟨lead, x, rest, hTokens, hLead, .inr ⟨hSome, hVariable⟩⟩

/-- The static modifier, the keyword, an ampersand and a name, with other tokens behind them. -/
def staticHead : KeywordHead where
  lead := [⟨.word "STATIC".toList, 8, 14⟩]
  keyword := ⟨.word "Function".toList, 28, 36⟩
  kind := .function
  reference := [⟨.punctuation '&', 37, 38⟩]
  name? := some ⟨.word "run".toList, 38, 41⟩
  rest := [⟨.punctuation '(', 41, 42⟩, ⟨.punctuation ')', 42, 43⟩]
  isLead := by
    have hStatic : (Token.word "STATIC".toList).IsModifier := .inl ⟨_, rfl, by decide⟩
    exact ⟨by simpa using hStatic, by simpa using .inl hStatic⟩
  declares := ⟨_, rfl, "function", by decide, by decide⟩
  notConstant := by decide
  isReference := .inr ⟨rfl, 37, 38, rfl⟩
  isName := by simp
  nameless := nofun
  unreferenced := nofun

/-- A comment and an attribute stand between the modifier and the keyword. -/
theorem findOwner_classified_static :
    let owner := findOwner 7 " STATIC /* c */ #[A] Function &run()".toList
    staticHead.Shows owner ∧ owner.kind = .method := by
  have hTokens : significant 7 " STATIC /* c */ #[A] Function &run()".toList =
      staticHead.lexemes := by
    decide +kernel
  have hShows := (findOwner_classified 7 _).2.1 staticHead hTokens
  refine ⟨hShows, hShows.method_iff.mpr ⟨rfl, .inr ⟨?_, rfl⟩⟩⟩
  exact ⟨_, List.mem_singleton_self _, _, rfl, by decide⟩

end TagLint.Php
