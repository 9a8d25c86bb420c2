import TagLint.Proofs.Runs

/-!
# Recognizers

A recognizer looks for something at the start of a text. It finds it and leaves the rest, or it
refuses the text, so that another one can be tried there. Two more outcomes stand for what should not
happen: what is repeated takes nothing, so that the repetition would go on forever, or a repetition or
a recursion has not come to its end in the rounds that it was given.

* `Progresses`, `StaysWithin`: what is found takes a character at least, or what is left is no longer
  than the text. Both pass from the parts of a recognizer to the whole.
* `Round`, `exists_repeated`: a repetition of what progresses ends without stalling, in no more rounds
  than the text has characters and one; what it leaves is told by one round.
-/

namespace TagLint.Text

/-- How a recognizer comes out. -/
inductive Outcome (α : Type)
  /-- The value that was found, and the text behind it. -/
  | found (value : α) (rest : List Char)
  /-- The text does not start with what is looked for. -/
  | refused
  /-- What is repeated has taken nothing. -/
  | stalled
  /-- The rounds are used up. -/
  | unfinished
deriving Repr, DecidableEq

/-- Looks for something at the start of a text. -/
abbrev Recognizer (α : Type) : Type :=
  List Char → Outcome α

namespace Recognizer

instance : Monad Recognizer where
  pure a := fun cs => .found a cs
  bind p f := fun cs =>
    match p cs with
    | .found a rest => f a rest
    | .refused => .refused
    | .stalled => .stalled
    | .unfinished => .unfinished

/-- The second recognizer is tried only where the first one refuses. -/
instance : Alternative Recognizer where
  failure := fun _ => .refused
  orElse p q := fun cs =>
    match p cs with
    | .refused => q () cs
    | outcome => outcome

/-- Finds one character of a class. -/
def one (p : Char → Bool) : Recognizer Char
  | [] => .refused
  | c :: cs => if p c then .found c cs else .refused

/-- Finds a given text. -/
def exactly (text : List Char) : Recognizer Unit := fun cs =>
  if text.isPrefixOf cs then .found () (cs.drop text.length) else .refused

/-- Finds the longest run of a class, which may be empty. -/
def runOf (p : Char → Bool) : Recognizer (List Char) := fun cs =>
  .found (cs.takeWhile p) (cs.dropWhile p)

/-- Finds the longest run of a class, of one character at least. -/
def someOf (p : Char → Bool) : Recognizer (List Char) := fun cs =>
  if (cs.takeWhile p).isEmpty then .refused else .found (cs.takeWhile p) (cs.dropWhile p)

/-- Finds everything before the first occurrence of a text. -/
def upTo (text : List Char) : Recognizer Unit
  | [] => if text.isEmpty then .found () [] else .refused
  | c :: cs => if text.isPrefixOf (c :: cs) then .found () (c :: cs) else upTo text cs

/-- Finds everything. -/
def everything : Recognizer Unit := fun _ =>
  .found () []

/-- Takes nothing, and only where the recognizer refuses. -/
def notAhead {α : Type} (p : Recognizer α) : Recognizer Unit := fun cs =>
  match p cs with
  | .found _ _ => .refused
  | .refused => .found () cs
  | .stalled => .stalled
  | .unfinished => .unfinished

/-- Finds the text that the recognizer takes. -/
def textOf {α : Type} (p : Recognizer α) : Recognizer (List Char) := fun cs =>
  match p cs with
  | .found _ rest => .found (cs.take (cs.length - rest.length)) rest
  | .refused => .refused
  | .stalled => .stalled
  | .unfinished => .unfinished

/-- Gives a fixed value for whatever the recognizer finds. -/
def giving {α β : Type} (p : Recognizer α) (b : β) : Recognizer β :=
  (fun _ => b) <$> p

/-- Repeats the recognizer until it refuses, in so many rounds at most. -/
def repeated (p : Recognizer Unit) : Nat → Recognizer Unit
  | 0 => fun _ => .unfinished
  | rounds + 1 => fun cs =>
    match p cs with
    | .found _ rest => if rest.length = cs.length then .stalled else repeated p rounds rest
    | .refused => .found () cs
    | .stalled => .stalled
    | .unfinished => .unfinished

/-! ## Outcomes of the parts -/

section Outcomes

variable {α β : Type} {p q : Recognizer α} {cs rest : List Char} {a : α}

theorem bind_of_found (h : p cs = .found a rest) (f : α → Recognizer β) :
    (p >>= f) cs = f a rest := by
  simp only [bind, h]

theorem bind_of_refused (h : p cs = .refused) (f : α → Recognizer β) :
    (p >>= f) cs = .refused := by
  simp only [bind, h]

theorem orElse_of_found (h : p cs = .found a rest) (q : Recognizer α) :
    (p <|> q) cs = .found a rest := by
  simp only [HOrElse.hOrElse, OrElse.orElse, Alternative.orElse, h]

theorem orElse_of_refused (h : p cs = .refused) (q : Recognizer α) : (p <|> q) cs = q cs := by
  simp only [HOrElse.hOrElse, OrElse.orElse, Alternative.orElse, h]

/-- The outcome of the next alternative, where the first one refuses. -/
theorem orElse_of_next {outcome : Outcome α} (h : p cs = .refused) (hNext : q cs = outcome) :
    (p <|> q) cs = outcome :=
  (orElse_of_refused h q).trans hNext

theorem map_of_found (h : p cs = .found a rest) (f : α → β) : (f <$> p) cs = .found (f a) rest :=
  bind_of_found h _

theorem map_of_refused (h : p cs = .refused) (f : α → β) : (f <$> p) cs = .refused :=
  bind_of_refused h _

theorem giving_of_found (h : p cs = .found a rest) (b : β) : p.giving b cs = .found b rest :=
  map_of_found h _

theorem giving_of_refused (h : p cs = .refused) (b : β) : p.giving b cs = .refused :=
  map_of_refused h _

theorem optional_of_found (h : p cs = .found a rest) : optional p cs = .found (some a) rest :=
  orElse_of_found (map_of_found h some) _

theorem optional_of_refused (h : p cs = .refused) : optional p cs = .found none cs :=
  orElse_of_refused (map_of_refused h some) _

theorem discard_of_found (h : p cs = .found a rest) : discard p cs = .found () rest :=
  map_of_found h _

theorem discard_of_refused (h : p cs = .refused) : discard p cs = .refused :=
  map_of_refused h _

/-- What a sequence finds is found by its second part behind the first. -/
theorem exists_of_bind {f : α → Recognizer β} {b : β} (h : (p >>= f) cs = .found b rest) :
    ∃ a mid, p cs = .found a mid ∧ f a mid = .found b rest := by
  simp only [bind] at h
  cases hFirst : p cs with
  | found a mid =>
    rw [hFirst] at h
    exact ⟨a, mid, rfl, h⟩
  | refused => simp [hFirst] at h
  | stalled => simp [hFirst] at h
  | unfinished => simp [hFirst] at h

theorem found_of_orElse (h : (p <|> q) cs = .found a rest) :
    p cs = .found a rest ∨ q cs = .found a rest := by
  cases hFirst : p cs with
  | refused =>
    rw [orElse_of_refused hFirst] at h
    exact .inr h
  | found b mid =>
    rw [orElse_of_found hFirst] at h
    exact .inl h
  | stalled => simp [HOrElse.hOrElse, OrElse.orElse, Alternative.orElse, hFirst] at h
  | unfinished => simp [HOrElse.hOrElse, OrElse.orElse, Alternative.orElse, hFirst] at h

theorem one_of_pos {p : Char → Bool} {c : Char} (h : p c = true) (cs : List Char) :
    one p (c :: cs) = .found c cs :=
  if_pos h

theorem one_of_stops {p : Char → Bool} (h : ∀ c ∈ cs.head?, p c = false) : one p cs = .refused := by
  cases cs with
  | nil => rfl
  | cons c cs => simp [one, h c rfl]

theorem exactly_append (text rest : List Char) : exactly text (text ++ rest) = .found () rest := by
  simp [exactly]

theorem exactly_of_not_leading {text : List Char} (h : ¬ text <+: cs) :
    exactly text cs = .refused := by
  simp [exactly, h]

theorem someOf_of_pos {p : Char → Bool} {c : Char} (h : p c = true) (cs : List Char) :
    someOf p (c :: cs) = .found ((c :: cs).takeWhile p) ((c :: cs).dropWhile p) := by
  simp [someOf, h]

theorem someOf_of_run {p : Char → Bool} {run : List Char} (hNe : run ≠ []) (h : Run p run rest) :
    someOf p (run ++ rest) = .found run rest := by
  simp [someOf, h.takeWhile_eq, h.dropWhile_eq, hNe]

theorem someOf_of_stops {p : Char → Bool} (h : ∀ c ∈ cs.head?, p c = false) :
    someOf p cs = .refused := by
  simp [someOf, takeWhile_eq_nil_of_stops h]

theorem textOf_of_found {taken : List Char} (h : p (taken ++ rest) = .found a rest) :
    textOf p (taken ++ rest) = .found taken rest := by
  simp [textOf, h]

theorem textOf_of_refused (h : p cs = .refused) : textOf p cs = .refused := by
  rw [textOf, h]

end Outcomes

/-! ## Progress -/

/-- What is found takes a character at least. -/
def Progresses {α : Type} (p : Recognizer α) : Prop :=
  ∀ ⦃cs a rest⦄, p cs = .found a rest → rest.length < cs.length

/-- What is left is no longer than the text. -/
def StaysWithin {α : Type} (p : Recognizer α) : Prop :=
  ∀ ⦃cs a rest⦄, p cs = .found a rest → rest.length ≤ cs.length

section Progress

variable {α β : Type} {p q : Recognizer α} {f : α → Recognizer β}

theorem Progresses.staysWithin (h : p.Progresses) : p.StaysWithin := by
  intro cs a rest hFound
  exact Nat.le_of_lt (h hFound)

theorem Progresses.bind (hFirst : p.Progresses) (hSecond : ∀ a, (f a).StaysWithin) :
    (p >>= f).Progresses := by
  intro cs b rest h
  obtain ⟨a, mid, hMid, hRest⟩ := exists_of_bind h
  exact Nat.lt_of_le_of_lt (hSecond a hRest) (hFirst hMid)

theorem StaysWithin.bind (hFirst : p.StaysWithin) (hSecond : ∀ a, (f a).StaysWithin) :
    (p >>= f).StaysWithin := by
  intro cs b rest h
  obtain ⟨a, mid, hMid, hRest⟩ := exists_of_bind h
  exact Nat.le_trans (hSecond a hRest) (hFirst hMid)

theorem Progresses.orElse (hFirst : p.Progresses) (hSecond : q.Progresses) :
    (p <|> q).Progresses := by
  intro cs a rest h
  rcases found_of_orElse h with h | h
  · exact hFirst h
  · exact hSecond h

theorem StaysWithin.orElse (hFirst : p.StaysWithin) (hSecond : q.StaysWithin) :
    (p <|> q).StaysWithin := by
  intro cs a rest h
  rcases found_of_orElse h with h | h
  · exact hFirst h
  · exact hSecond h

theorem staysWithin_pure (a : α) : (pure a : Recognizer α).StaysWithin := by
  intro cs b rest h
  obtain ⟨-, rfl⟩ := Outcome.found.inj h
  exact Nat.le_refl _

theorem Progresses.discard (h : p.Progresses) : (discard p).Progresses :=
  h.bind fun _ => staysWithin_pure _

theorem StaysWithin.discard (h : p.StaysWithin) : (discard p).StaysWithin :=
  h.bind fun _ => staysWithin_pure _

theorem StaysWithin.optional (h : p.StaysWithin) : (optional p).StaysWithin :=
  (h.bind fun _ => staysWithin_pure _).orElse (staysWithin_pure _)

theorem staysWithin_notAhead (p : Recognizer α) : (notAhead p).StaysWithin := by
  intro cs a rest h
  unfold notAhead at h
  split at h
  · cases h
  · obtain ⟨-, rfl⟩ := Outcome.found.inj h
    exact Nat.le_refl _
  · cases h
  · cases h

theorem progresses_one (p : Char → Bool) : (one p).Progresses := by
  intro cs a rest h
  unfold one at h
  split at h
  · cases h
  · split at h
    · obtain ⟨-, rfl⟩ := Outcome.found.inj h
      exact Nat.lt_succ_self _
    · cases h

theorem progresses_exactly {text : List Char} (hNe : text ≠ []) : (exactly text).Progresses := by
  intro cs a rest h
  unfold exactly at h
  split at h
  · rename_i hPrefix
    obtain ⟨-, rfl⟩ := Outcome.found.inj h
    have hLe := (List.isPrefixOf_iff_prefix.mp hPrefix).length_le
    have hPos := List.length_pos_iff.mpr hNe
    rw [List.length_drop]
    omega
  · cases h

theorem progresses_someOf (p : Char → Bool) : (someOf p).Progresses := by
  intro cs a rest h
  unfold someOf at h
  split at h
  · cases h
  · rename_i hNe
    obtain ⟨-, rfl⟩ := Outcome.found.inj h
    have hPos : 0 < (cs.takeWhile p).length := List.length_pos_iff.mpr (by simpa using hNe)
    have hSplit := congrArg List.length (List.takeWhile_append_dropWhile (p := p) (l := cs))
    rw [List.length_append] at hSplit
    omega

theorem StaysWithin.repeated {p : Recognizer Unit} (hp : p.StaysWithin) (rounds : Nat) :
    (repeated p rounds).StaysWithin := by
  induction rounds with
  | zero =>
    intro cs a rest h
    cases h
  | succ rounds ih =>
    intro cs a rest h
    unfold Recognizer.repeated at h
    split at h
    · rename_i hFound
      split at h
      · cases h
      · exact Nat.le_trans (ih h) (hp hFound)
    · obtain ⟨-, rfl⟩ := Outcome.found.inj h
      exact Nat.le_refl _
    · cases h
    · cases h

end Progress

/-! ## Repetition -/

/-- One round of a repetition with an ending behind it, where `left` tells what both together leave of
a text. -/
inductive Round (piece ending : Recognizer Unit) (left : List Char → List Char) (cs : List Char) :
    Prop
  | more {rest : List Char} (hPiece : piece cs = .found () rest) (hLeft : left rest = left cs)
  | last (hPiece : piece cs = .refused) (hEnding : ending cs = .found () (left cs))

/-- Characters that do not matter for what is left may be passed over. -/
theorem left_dropWhile {left : List Char → List Char} {p : Char → Bool}
    (hSkip : ∀ c cs, p c = true → left (c :: cs) = left cs) (cs : List Char) :
    left (cs.dropWhile p) = left cs := by
  induction cs with
  | nil => rfl
  | cons c cs ih =>
    cases hc : p c with
    | true => rw [List.dropWhile_cons_of_pos hc, ih, hSkip c cs hc]
    | false => rw [List.dropWhile_cons_of_neg (by simp [hc])]

/-- A round over plain text. -/
theorem Round.of_text {others ending : Recognizer Unit} {left : List Char → List Char}
    {p : Char → Bool} {c : Char} (h : p c = true)
    (hSkip : ∀ c cs, p c = true → left (c :: cs) = left cs) (cs : List Char) :
    Round (discard (someOf p) <|> others) ending left (c :: cs) := by
  have hText := discard_of_found (someOf_of_pos h cs)
  exact .more (orElse_of_found hText others) (left_dropWhile hSkip (c :: cs))

/-- A repetition of what progresses ends without stalling. -/
theorem exists_repeated {piece ending : Recognizer Unit} {left : List Char → List Char} {bound : Nat}
    (hPiece : piece.Progresses)
    (hRound : ∀ cs : List Char, cs.length ≤ bound → Round piece ending left cs) {rounds : Nat}
    {cs : List Char} (hBound : cs.length ≤ bound) (hRounds : cs.length < rounds) :
    ∃ mid, repeated piece rounds cs = .found () mid ∧ ending mid = .found () (left cs) := by
  induction rounds generalizing cs with
  | zero => omega
  | succ rounds ih =>
    cases hRound cs hBound with
    | @more rest hFound hLeft =>
      have hShorter := hPiece hFound
      obtain ⟨mid, hMid, hEnding⟩ := @ih rest (by omega) (by omega)
      refine ⟨mid, ?_, hLeft ▸ hEnding⟩
      simp only [repeated, hFound]
      rw [if_neg (by omega), hMid]
    | last hRefused hEnding =>
      refine ⟨cs, ?_, hEnding⟩
      simp only [repeated, hRefused]

end Recognizer

end TagLint.Text
