import TagLint.Position

/-!
# Places in a source

A text stands at a byte offset of a source when exactly so many bytes precede it. Scanners hand on
the rest of a text together with the offset of its first character, so what is known of one place
passes to the places inside it: to a first part at the same offset and to a second part behind the
bytes of the first.

* `StandsAt.slice?_eq`: cutting the source at the two ends of a place gives back its text.
* `Span.Covers.fits`: a span that delimits a text lies in the source, with both ends between
  characters.
* `Span.fits_of_boundaries`: two character boundaries in order are the ends of such a span.
-/

namespace TagLint

open Text (byteWidth slice?)

namespace Text

theorem dropBytes?_append (as bs : List Char) :
    slice?.dropBytes? (as ++ bs) (byteWidth as) = some bs := by
  induction as with
  | nil => simp [slice?.dropBytes?]
  | cons a as ih =>
    have hPos := a.utf8Size_pos
    obtain ⟨n, hn⟩ : ∃ n, a.utf8Size + byteWidth as = n + 1 :=
      ⟨a.utf8Size + byteWidth as - 1, by omega⟩
    have hLe : a.utf8Size ≤ n + 1 := by omega
    have hRest : n + 1 - a.utf8Size = byteWidth as := by omega
    rw [byteWidth_cons, hn, List.cons_append, slice?.dropBytes?, if_pos hLe, hRest, ih]

theorem takeBytes?_append (as bs : List Char) :
    slice?.takeBytes? (as ++ bs) (byteWidth as) = some as := by
  induction as with
  | nil => simp [slice?.takeBytes?]
  | cons a as ih =>
    have hPos := a.utf8Size_pos
    obtain ⟨n, hn⟩ : ∃ n, a.utf8Size + byteWidth as = n + 1 :=
      ⟨a.utf8Size + byteWidth as - 1, by omega⟩
    have hLe : a.utf8Size ≤ n + 1 := by omega
    have hRest : n + 1 - a.utf8Size = byteWidth as := by omega
    rw [byteWidth_cons, hn, List.cons_append, slice?.takeBytes?, if_pos hLe, hRest, ih]
    rfl

/-- A byte offset between two characters of a text, or at one of its ends. -/
def IsBoundary (cs : List Char) (offset : Nat) : Prop :=
  ∃ before after, cs = before ++ after ∧ byteWidth before = offset

end Text

open Text (IsBoundary)

/-- The text stands in the source behind so many bytes. -/
def StandsAt (source text : List Char) (offset : Nat) : Prop :=
  ∃ before after, source = before ++ text ++ after ∧ byteWidth before = offset

namespace StandsAt

variable {source text as bs : List Char} {offset : Nat}

theorem whole (source : List Char) : StandsAt source source 0 :=
  ⟨[], [], by simp, rfl⟩

theorem left (h : StandsAt source (as ++ bs) offset) : StandsAt source as offset := by
  obtain ⟨before, after, rfl, hOffset⟩ := h
  exact ⟨before, bs ++ after, by simp, hOffset⟩

theorem right (h : StandsAt source (as ++ bs) offset) :
    StandsAt source bs (offset + byteWidth as) := by
  obtain ⟨before, after, rfl, hOffset⟩ := h
  exact ⟨before ++ as, after, by simp, by simp [hOffset]⟩

theorem isBoundary_start (h : StandsAt source text offset) : IsBoundary source offset := by
  obtain ⟨before, after, rfl, hOffset⟩ := h
  exact ⟨before, text ++ after, by simp, hOffset⟩

theorem isBoundary_stop (h : StandsAt source text offset) :
    IsBoundary source (offset + byteWidth text) := by
  obtain ⟨before, after, rfl, hOffset⟩ := h
  exact ⟨before ++ text, after, rfl, by simp [hOffset]⟩

/-- Cutting the source at the two ends of a place gives the text that stands there. -/
theorem slice?_eq (h : StandsAt source text offset) :
    slice? source offset (offset + byteWidth text) = some text := by
  obtain ⟨before, after, rfl, rfl⟩ := h
  have hDrop := Text.dropBytes?_append before (text ++ after)
  rw [slice?, List.append_assoc, hDrop, Option.bind_some, Nat.add_sub_cancel_left]
  exact Text.takeBytes?_append text after

end StandsAt

namespace Text.IsBoundary

theorem le_byteWidth {cs : List Char} {offset : Nat} (h : IsBoundary cs offset) :
    offset ≤ byteWidth cs := by
  obtain ⟨before, after, rfl, rfl⟩ := h
  simp

end Text.IsBoundary

/-! ## Spans -/

/-- The span lies in the source and both its ends are between characters. -/
structure Span.Fits (source : List Char) (s : Span) : Prop where
  ordered : s.start.utf8 ≤ s.stop.utf8
  bounded : s.stop.utf8 ≤ byteWidth source
  start_isBoundary : IsBoundary source s.start.utf8
  stop_isBoundary : IsBoundary source s.stop.utf8

/-- The span delimits this text of the source. -/
structure Span.Covers (source text : List Char) (s : Span) : Prop where
  standsAt : StandsAt source text s.start.utf8
  stop_eq : s.stop.utf8 = s.start.utf8 + byteWidth text

/-- The characters of the source that a span delimits, if it fits. -/
def Span.text? (source : List Char) (s : Span) : Option (List Char) :=
  slice? source s.start.utf8 s.stop.utf8

namespace Span

variable {source text : List Char} {s : Span}

theorem fits_of_boundaries (hOrder : s.start.utf8 ≤ s.stop.utf8)
    (hStart : IsBoundary source s.start.utf8) (hStop : IsBoundary source s.stop.utf8) :
    s.Fits source :=
  ⟨hOrder, hStop.le_byteWidth, hStart, hStop⟩

theorem covers_ofBytes {offset : Nat} (h : StandsAt source text offset) :
    (Span.ofBytes offset (offset + byteWidth text)).Covers source text :=
  ⟨h, rfl⟩

namespace Covers

theorem fits (h : s.Covers source text) : s.Fits source := by
  refine fits_of_boundaries ?_ h.standsAt.isBoundary_start ?_
  · rw [h.stop_eq]
    omega
  · rw [h.stop_eq]
    exact h.standsAt.isBoundary_stop

theorem text?_eq (h : s.Covers source text) : s.text? source = some text := by
  rw [text?, h.stop_eq]
  exact h.standsAt.slice?_eq

end Covers

/-- A span that fits delimits some text, so the source can be cut at its ends. -/
theorem Fits.exists_covers (h : s.Fits source) : ∃ text, s.Covers source text := by
  obtain ⟨before, after, hSource, hStart⟩ := h.start_isBoundary
  obtain ⟨before', after', hSource', hStop⟩ := h.stop_isBoundary
  have hOrder := h.ordered
  rcases List.append_eq_append_iff.mp (hSource.symm.trans hSource') with ⟨text, rfl, -⟩ | ⟨text, rfl, -⟩
  · exact ⟨text, ⟨before, after', hSource', hStart⟩, by rw [← hStop, ← hStart]; simp⟩
  · -- the ends are in order, so nothing stands between them
    obtain rfl : text = [] := by
      cases text with
      | nil => rfl
      | cons c cs =>
        have hPos := c.utf8Size_pos
        simp only [Text.byteWidth_append, Text.byteWidth_cons] at hStart
        omega
    rw [List.append_nil] at hSource hStart
    exact ⟨[], ⟨before', after, by simpa using hSource, hStart⟩, by simp [← hStop, ← hStart]⟩

end Span

/-! ## Moving offsets -/

/-- The position of which only the byte offset is known, moved to another offset. -/
def Position.mapByte (f : Nat → Nat) (p : Position) : Position :=
  .ofByte (f p.utf8)

@[simp]
theorem Span.map_mapByte_ofBytes (f : Nat → Nat) (start stop : Nat) :
    (Span.ofBytes start stop).map (.mapByte f) = .ofBytes (f start) (f stop) := rfl

/-- Forgets where a position is. -/
def Position.forget (_ : Position) : Position :=
  .zero

end TagLint
