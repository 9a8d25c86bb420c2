import TagLint.Text.Cut

/-!
# Runs of characters

Most scanners take the longest run of a class of characters. `Run p as bs` says that `as` is that run
in the text `as ++ bs`: all its characters are of the class and the next one is not.

* `Run.cut_eq`: a run is what the scanner takes.
* `run_takeWhile`: every text starts with a run of every class.
* `Run.append`: a run that stands behind more characters of its class.
-/

namespace TagLint.Text

theorem getLast?_append_of_ne_nil (as : List Char) {bs : List Char} (h : bs ≠ []) :
    (as ++ bs).getLast? = bs.getLast? := by
  rw [List.getLast?_append, List.getLast?_eq_some_getLast h]
  rfl

/-- The first text is the longest run of a class at the start of both texts in a row. -/
structure Run (p : Char → Bool) (as bs : List Char) : Prop where
  all : ∀ c ∈ as, p c = true
  stops : ∀ c ∈ bs.head?, p c = false

variable {p : Char → Bool} {as bs cs : List Char}

theorem takeWhile_eq_nil_of_stops (h : ∀ c ∈ bs.head?, p c = false) : bs.takeWhile p = [] := by
  cases bs with
  | nil => rfl
  | cons b bs => simp [h b (by simp)]

theorem dropWhile_eq_self_of_stops (h : ∀ c ∈ bs.head?, p c = false) : bs.dropWhile p = bs := by
  cases bs with
  | nil => rfl
  | cons b bs => simp [h b (by simp)]

theorem head?_dropWhile_stops (p : Char → Bool) (cs : List Char) :
    ∀ c ∈ (cs.dropWhile p).head?, p c = false := by
  intro c hc
  have h := List.head?_dropWhile_not p cs
  rw [Option.mem_def.mp hc] at h
  simpa using h

theorem all_takeWhile (p : Char → Bool) (cs : List Char) : ∀ c ∈ cs.takeWhile p, p c = true :=
  List.all_eq_true.mp List.all_takeWhile

theorem run_takeWhile (p : Char → Bool) (cs : List Char) :
    Run p (cs.takeWhile p) (cs.dropWhile p) :=
  ⟨all_takeWhile p cs, head?_dropWhile_stops p cs⟩

theorem exists_run (p : Char → Bool) (cs : List Char) : ∃ as bs, cs = as ++ bs ∧ Run p as bs :=
  ⟨_, _, List.takeWhile_append_dropWhile.symm, run_takeWhile p cs⟩

namespace Run

theorem takeWhile_eq (h : Run p as bs) : (as ++ bs).takeWhile p = as := by
  rw [List.takeWhile_append_of_pos h.all, takeWhile_eq_nil_of_stops h.stops, List.append_nil]

theorem dropWhile_eq (h : Run p as bs) : (as ++ bs).dropWhile p = bs := by
  rw [List.dropWhile_append_of_pos h.all, dropWhile_eq_self_of_stops h.stops]

theorem cut_eq (h : Run p as bs) : Cut.takeWhile p (as ++ bs) = ⟨as, bs⟩ := by
  rw [Cut.takeWhile, h.takeWhile_eq, h.dropWhile_eq]

theorem nil (h : ∀ c ∈ bs.head?, p c = false) : Run p [] bs :=
  ⟨by simp, h⟩

/-- Characters of the class before a run make it longer. -/
theorem append (hAs : ∀ c ∈ as, p c = true) (h : Run p bs cs) : Run p (as ++ bs) cs := by
  refine ⟨?_, h.stops⟩
  intro c hc
  rcases List.mem_append.mp hc with hc | hc
  · exact hAs c hc
  · exact h.all c hc

/-- A run does not depend on what follows the character that stops it. -/
theorem of_head?_eq (h : Run p as bs) (hHead : cs.head? = bs.head?) : Run p as cs :=
  ⟨h.all, hHead ▸ h.stops⟩

end Run

end TagLint.Text
