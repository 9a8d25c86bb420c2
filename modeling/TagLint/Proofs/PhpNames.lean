import Mathlib.Data.List.Induction
import TagLint.Proofs.RulesAbove
import TagLint.Proofs.Runs

/-!
# Names of PHP files

A file given by name is judged by its extension, a file found in a directory by the glob
`*.[pP][hH][pP]`. The two tests agree on all names but one: a name that is nothing but the dot and the
extension has no extension, and the glob covers it.

* `hasPhpName_iff`, `hasPhpExtension_iff`: both tests by what stands before and behind the last dot.
* `utf8_eq_append_iff`: bytes that end in ASCII end in the characters of these codes.
* `phpGlob_matches_iff`: the test of found files is the glob.
* `findPhpFiles_named_iff_searched`: which files are found by name and by a search alike.
* `findPhpFiles_bareExtension`: one that is found by a search only.
-/

namespace TagLint.Files

/-! ## The extension -/

theorem toNat_toLower (c : Char) :
    c.toLower.toNat = if 65 ≤ c.toNat ∧ c.toNat ≤ 90 then c.toNat + 32 else c.toNat := by
  unfold Char.toLower
  split
  · rename_i h
    have hLow : 65 ≤ c.toNat := UInt32.le_iff_toNat_le.mp h.1
    have hHigh : c.toNat ≤ 90 := UInt32.le_iff_toNat_le.mp h.2
    have hSum : (c.val + ('a'.val - 'A'.val)).toNat = (c.toNat + 32) % 2 ^ 32 :=
      UInt32.toNat_add _ _
    rw [if_pos ⟨hLow, hHigh⟩]
    exact hSum.trans (Nat.mod_eq_of_lt (by omega))
  · rename_i h
    rw [if_neg]
    rintro ⟨hLow, hHigh⟩
    exact h ⟨UInt32.le_iff_toNat_le.mpr hLow, UInt32.le_iff_toNat_le.mpr hHigh⟩

theorem toLower_eq_dot {c : Char} (h : c.toLower = '.') : c = '.' := by
  have hCode : c.toLower.toNat = 46 := congrArg Char.toNat h
  rw [toNat_toLower] at hCode
  apply Char.toNat_inj.mp
  change c.toNat = 46
  split at hCode <;> omega

/-- A small letter is that of its two forms. -/
theorem toLower_eq_iff {c x : Char} (hx : 97 ≤ x.toNat ∧ x.toNat ≤ 122) :
    c.toLower = x ↔ c.toNat = x.toNat ∨ c.toNat + 32 = x.toNat := by
  rw [← Char.toNat_inj, toNat_toLower]
  split <;> omega

/-- The text is the extension of PHP in some case. -/
def IsPhpExtension (text : List Char) : Prop :=
  equalsIgnoringCase text phpExtension = true

theorem isPhpExtension_iff {text : List Char} :
    IsPhpExtension text ↔ text.map Char.toLower = phpExtension := by
  have hLower : phpExtension.map Char.toLower = phpExtension := by decide
  rw [IsPhpExtension, equalsIgnoringCase, hLower, beq_iff_eq]

namespace IsPhpExtension

variable {text : List Char}

theorem length_eq (h : IsPhpExtension text) : text.length = 3 := by
  simpa [phpExtension] using congrArg List.length (isPhpExtension_iff.mp h)

theorem dot_notMem (h : IsPhpExtension text) : '.' ∉ text := by
  intro hMem
  have hLower : '.' ∈ text.map Char.toLower := List.mem_map.mpr ⟨'.', hMem, rfl⟩
  rw [isPhpExtension_iff.mp h] at hLower
  revert hLower
  decide

end IsPhpExtension

/-- The name is a dot and the extension of PHP in some case, with nothing before them. -/
def IsBareExtension (name : String) : Prop :=
  ∃ extension, name.toList = '.' :: extension ∧ IsPhpExtension extension

variable {directory : AbsolutePath} {name : String}

theorem hasPhpName_iff : hasPhpName (directory ++ [name]) = true ↔
    ∃ stem extension, name.toList = stem ++ '.' :: extension ∧ IsPhpExtension extension := by
  have hLower : ('.' :: phpExtension).map Char.toLower = '.' :: phpExtension := by decide
  simp only [hasPhpName, List.getLast?_concat, equalsIgnoringCase, hLower, beq_iff_eq]
  constructor
  · intro h
    obtain ⟨c, extension, hTail, hDot, hExtension⟩ := List.map_eq_cons_iff.mp h
    obtain rfl := toLower_eq_dot hDot
    refine ⟨name.toList.take (name.toList.length - ('.' :: phpExtension).length), extension, ?_,
      isPhpExtension_iff.mpr hExtension⟩
    rw [← hTail, List.take_append_drop]
  · rintro ⟨stem, extension, hName, hExtension⟩
    have hLength : name.toList.length - ('.' :: phpExtension).length = stem.length := by
      simp [hName, hExtension.length_eq, phpExtension]
    rw [hLength, hName, List.drop_left, List.map_cons, isPhpExtension_iff.mp hExtension]
    rfl

theorem hasPhpExtension_iff : hasPhpExtension (directory ++ [name]) = true ↔
    ∃ stem extension, stem ≠ [] ∧ name.toList = stem ++ '.' :: extension ∧
      IsPhpExtension extension := by
  simp only [hasPhpExtension, List.getLast?_concat, Bool.and_eq_true]
  constructor
  · rintro ⟨hStem, hExtension⟩
    -- read backwards, the name is its extension, the last dot and the stem
    obtain ⟨back, front, hSplit, hRun⟩ := Text.exists_run (· != '.') name.toList.reverse
    rw [hSplit, hRun.dropWhile_eq] at hStem
    rw [hSplit, hRun.takeWhile_eq] at hExtension
    cases front with
    | nil => simp at hStem
    | cons c stem =>
      obtain rfl : c = '.' := by simpa using hRun.stops c rfl
      refine ⟨stem.reverse, back.reverse, by simpa using hStem, ?_, hExtension⟩
      rw [← List.reverse_reverse name.toList, hSplit]
      simp
  · rintro ⟨stem, extension, hStem, hName, hExtension⟩
    have hRun : Text.Run (· != '.') extension.reverse ('.' :: stem.reverse) := by
      refine ⟨?_, by simp⟩
      intro c hc
      rw [List.mem_reverse] at hc
      rw [bne_iff_ne]
      rintro rfl
      exact hExtension.dot_notMem hc
    have hReverse : name.toList.reverse = extension.reverse ++ '.' :: stem.reverse := by simp [hName]
    rw [hReverse, hRun.takeWhile_eq, hRun.dropWhile_eq, List.reverse_reverse]
    exact ⟨by simpa using hStem, hExtension⟩

/-- The two tests differ on bare extensions alone. -/
theorem hasPhpExtension_iff_hasPhpName : hasPhpExtension (directory ++ [name]) = true ↔
    hasPhpName (directory ++ [name]) = true ∧ ¬ IsBareExtension name := by
  rw [hasPhpExtension_iff, hasPhpName_iff]
  constructor
  · rintro ⟨stem, extension, hStem, hName, hExtension⟩
    refine ⟨⟨stem, extension, hName, hExtension⟩, ?_⟩
    rintro ⟨other, hBare, hOther⟩
    have hLength := congrArg List.length (hName.symm.trans hBare)
    have hPos := List.length_pos_iff.mpr hStem
    rw [List.length_append, List.length_cons, List.length_cons, hExtension.length_eq,
      hOther.length_eq] at hLength
    omega
  · rintro ⟨⟨stem, extension, hName, hExtension⟩, hBare⟩
    refine ⟨stem, extension, ?_, hName, hExtension⟩
    rintro rfl
    exact hBare ⟨extension, hName, hExtension⟩

/-! ## Characters and their bytes -/

theorem bytes_eq (text : String) : Glob.bytes text = text.toList.flatMap String.utf8EncodeChar := by
  have hBytes : text.toByteArray = text.toList.utf8Encode := by
    rw [← String.toByteArray_ofList, String.ofList_toList]
  rw [Glob.bytes, String.toUTF8_eq_toByteArray, hBytes, List.utf8Encode, List.data_toByteArray]

theorem le_of_mem_utf8EncodeChar {c : Char} {b : UInt8} (hb : b ∈ String.utf8EncodeChar c)
    (h : c.utf8Size ≠ 1) : 128 ≤ b.toNat := by
  have hOr : ∀ a m : UInt8, 128 ≤ m.toNat → 128 ≤ (a ||| m).toNat := by
    intro a m hm
    rw [UInt8.toNat_or]
    exact Nat.le_trans hm Nat.right_le_or
  rcases c.utf8Size_eq with hSize | hSize | hSize | hSize
  · exact absurd hSize h
  · rw [String.utf8EncodeChar_eq_cons_cons hSize] at hb
    simp only [List.mem_cons, List.not_mem_nil, or_false] at hb
    rcases hb with rfl | rfl <;> exact hOr _ _ (by decide)
  · rw [String.utf8EncodeChar_eq_cons_cons_cons hSize] at hb
    simp only [List.mem_cons, List.not_mem_nil, or_false] at hb
    rcases hb with rfl | rfl | rfl <;> exact hOr _ _ (by decide)
  · rw [String.utf8EncodeChar_eq_cons_cons_cons_cons hSize] at hb
    simp only [List.mem_cons, List.not_mem_nil, or_false] at hb
    rcases hb with rfl | rfl | rfl | rfl <;> exact hOr _ _ (by decide)

theorem utf8EncodeChar_of_lt {c : Char} (h : c.toNat < 128) :
    ∃ b : UInt8, String.utf8EncodeChar c = [b] ∧ b.toNat = c.toNat := by
  have hSize : c.utf8Size = 1 := by
    rw [Char.utf8Size_eq_one_iff, UInt32.le_iff_toNat_le]
    exact Nat.le_of_lt_succ h
  refine ⟨_, String.utf8EncodeChar_eq_singleton hSize, ?_⟩
  rw [UInt32.toNat_toUInt8]
  exact Nat.mod_eq_of_lt (by omega : c.toNat < 2 ^ 8)

/-- An ASCII byte is the whole of its character. -/
theorem utf8EncodeChar_of_mem {c : Char} {b : UInt8} (hb : b ∈ String.utf8EncodeChar c)
    (h : b.toNat < 128) : String.utf8EncodeChar c = [b] ∧ c.toNat = b.toNat := by
  by_cases hSize : c.utf8Size = 1
  · have hLe : c.toNat ≤ 127 := UInt32.le_iff_toNat_le.mp (Char.utf8Size_eq_one_iff.mp hSize)
    obtain ⟨b', hEncode, hCode⟩ := utf8EncodeChar_of_lt (by omega : c.toNat < 128)
    rw [hEncode, List.mem_singleton] at hb
    subst hb
    exact ⟨hEncode, hCode.symm⟩
  · have hLe := le_of_mem_utf8EncodeChar hb hSize
    omega

/-- The last byte of a text is one of its last character. -/
theorem mem_last_utf8 {cs : List Char} {c : Char} {bs : List UInt8} {b : UInt8}
    (h : (cs ++ [c]).flatMap String.utf8EncodeChar = bs ++ [b]) : b ∈ String.utf8EncodeChar c := by
  have hNe : String.utf8EncodeChar c ≠ [] := by
    rw [← List.length_pos_iff, String.length_utf8EncodeChar]
    exact c.utf8Size_pos
  have hLast := congrArg List.getLast? h
  rw [List.flatMap_append, List.flatMap_singleton, List.getLast?_concat,
    List.getLast?_append_of_ne_nil _ hNe] at hLast
  exact List.mem_of_getLast? hLast

/-- The bytes of a text end in some ASCII codes just if its characters do. -/
theorem utf8_eq_append_iff {cs : List Char} {front : List UInt8} {codes : List Nat}
    (h : ∀ n ∈ codes, n < 128) :
    (∃ back : List UInt8, cs.flatMap String.utf8EncodeChar = front ++ back ∧
      back.map UInt8.toNat = codes) ↔
    ∃ stem chars, cs = stem ++ chars ∧ stem.flatMap String.utf8EncodeChar = front ∧
      chars.map Char.toNat = codes := by
  induction codes using List.reverseRecOn generalizing cs with
  | nil => simp
  | append_singleton codes n ih =>
    have hCodes : ∀ m ∈ codes, m < 128 := fun m hm => h m (List.mem_append_left _ hm)
    have hLast : n < 128 := h n (List.mem_append_right _ List.mem_cons_self)
    constructor
    · rintro ⟨back, hBytes, hCodesBack⟩
      obtain ⟨back, last, rfl, hBack, hByte⟩ := List.map_eq_append_iff.mp hCodesBack
      obtain ⟨b, rfl, rfl⟩ := List.map_eq_singleton_iff.mp hByte
      rcases List.eq_nil_or_concat cs with rfl | ⟨cs, c, rfl⟩
      · simp at hBytes
      · rw [List.concat_eq_append, ← List.append_assoc] at hBytes
        obtain ⟨hEncode, hCode⟩ := utf8EncodeChar_of_mem (mem_last_utf8 hBytes) hLast
        have hInit : cs.flatMap String.utf8EncodeChar = front ++ back := by
          rw [List.flatMap_append, List.flatMap_singleton, hEncode] at hBytes
          exact List.append_cancel_right hBytes
        obtain ⟨stem, chars, rfl, hStem, hChars⟩ := (ih hCodes).mp ⟨back, hInit, hBack⟩
        exact ⟨stem, chars ++ [c], by simp, hStem, by simp [hChars, hCode]⟩
    · rintro ⟨stem, chars, rfl, rfl, hCodesChars⟩
      obtain ⟨chars, last, rfl, hChars, hChar⟩ := List.map_eq_append_iff.mp hCodesChars
      obtain ⟨c, rfl, rfl⟩ := List.map_eq_singleton_iff.mp hChar
      obtain ⟨b, hEncode, hCode⟩ := utf8EncodeChar_of_lt hLast
      obtain ⟨back, hBytes, hBack⟩ := (ih hCodes).mpr ⟨stem, chars, rfl, rfl, hChars⟩
      refine ⟨back ++ [b], ?_, ?_⟩
      · rw [← List.append_assoc, List.flatMap_append, hBytes]
        simp [hEncode]
      · rw [List.map_append, hBack, List.map_singleton, hCode]

theorem slash_notMem_utf8 {cs : List Char} (h : '/' ∉ cs) :
    Glob.slash ∉ cs.flatMap String.utf8EncodeChar := by
  intro hMem
  obtain ⟨c, hc, hByte⟩ := List.mem_flatMap.mp hMem
  obtain ⟨-, hCode⟩ := utf8EncodeChar_of_mem hByte (by decide)
  obtain rfl : c = '/' := Char.toNat_inj.mp hCode
  exact h hc

/-! ## The glob -/

namespace Glob

theorem oneByte_iff {test : UInt8 → Bool} {k : List UInt8 → Bool} {bs : List UInt8} :
    oneByte test k bs = true ↔ ∃ b rest, bs = b :: rest ∧ test b = true ∧ k rest = true := by
  cases bs <;> simp [oneByte]

theorem withinName_iff {k : List UInt8 → Bool} {bs : List UInt8} :
    withinName k bs = true ↔ ∃ front back, bs = front ++ back ∧ slash ∉ front ∧ k back = true := by
  induction bs with
  | nil => simp [withinName]
  | cons b bs ih =>
    rw [withinName, Bool.or_eq_true, Bool.and_eq_true, bne_iff_ne, ih]
    constructor
    · rintro (h | ⟨hNe, front, back, rfl, hFront, h⟩)
      · exact ⟨[], b :: bs, rfl, by simp, h⟩
      · exact ⟨b :: front, back, rfl, by simp [hFront, hNe.symm], h⟩
    · rintro ⟨front, back, hSplit, hFront, h⟩
      cases front with
      | nil =>
        rw [hSplit]
        exact .inl h
      | cons c front =>
        obtain ⟨rfl, rfl⟩ := List.cons.inj hSplit
        simp only [List.mem_cons, not_or] at hFront
        exact .inr ⟨Ne.symm hFront.1, front, back, rfl, hFront.2, h⟩

theorem inClass_pair {x y b : UInt8} :
    inClass false [(x, x), (y, y)] b = true ↔ b.toNat = x.toNat ∨ b.toNat = y.toNat := by
  simp only [inClass, List.any_cons, List.any_nil, Bool.or_false, bne_iff_ne, ne_eq,
    Bool.not_eq_false, Bool.or_eq_true, Bool.and_eq_true, decide_eq_true_eq, UInt8.le_iff_toNat_le]
  omega

end Glob

/-- The glob of PHP files, in which each letter stands for its two forms. -/
def phpGlob : List Char :=
  "*.[pP][hH][pP]".toList

/-- The codes are those of a dot and the extension of PHP in some case. -/
def IsPhpEnding (codes : List Nat) : Prop :=
  ∃ a b c, codes = [46, a, b, c] ∧ (a = 112 ∨ a = 80) ∧ (b = 104 ∨ b = 72) ∧ (c = 112 ∨ c = 80)

theorem IsPhpEnding.lt {codes : List Nat} (h : IsPhpEnding codes) : ∀ n ∈ codes, n < 128 := by
  obtain ⟨a, b, c, rfl, ha, hb, hc⟩ := h
  intro n hn
  simp only [List.mem_cons, List.not_mem_nil, or_false] at hn
  omega

/-- What has such codes, characters or bytes, is four of them. -/
theorem IsPhpEnding.exists_four {α : Type} {f : α → Nat} {xs : List α} (h : IsPhpEnding (xs.map f)) :
    ∃ dot x y z, xs = [dot, x, y, z] ∧ f dot = 46 ∧ (f x = 112 ∨ f x = 80) ∧
      (f y = 104 ∨ f y = 72) ∧ (f z = 112 ∨ f z = 80) := by
  obtain ⟨a, b, c, hCodes, ha, hb, hc⟩ := h
  have hLength := congrArg List.length hCodes
  rw [List.length_map] at hLength
  obtain ⟨dot, x, y, z, rfl⟩ := List.length_eq_four.mp hLength
  simp only [List.map_cons, List.map_nil, List.cons.injEq, and_true] at hCodes
  obtain ⟨hDot, rfl, rfl, rfl⟩ := hCodes
  exact ⟨dot, x, y, z, rfl, hDot, ha, hb, hc⟩

theorem isPhpEnding_iff {chars : List Char} : IsPhpEnding (chars.map Char.toNat) ↔
    ∃ extension, chars = '.' :: extension ∧ IsPhpExtension extension := by
  have hp : ∀ c : Char, c.toLower = 'p' ↔ c.toNat = 112 ∨ c.toNat + 32 = 112 :=
    fun c => toLower_eq_iff (by decide)
  have hh : ∀ c : Char, c.toLower = 'h' ↔ c.toNat = 104 ∨ c.toNat + 32 = 104 :=
    fun c => toLower_eq_iff (by decide)
  constructor
  · intro h
    obtain ⟨dot, x, y, z, rfl, hDot, hx, hy, hz⟩ := h.exists_four
    obtain rfl : dot = '.' := Char.toNat_inj.mp hDot
    refine ⟨[x, y, z], rfl, isPhpExtension_iff.mpr ?_⟩
    rw [List.map_cons, List.map_cons, List.map_singleton, (hp x).mpr (by omega),
      (hh y).mpr (by omega), (hp z).mpr (by omega)]
    rfl
  · rintro ⟨extension, rfl, hExtension⟩
    obtain ⟨x, y, z, rfl⟩ := List.length_eq_three.mp hExtension.length_eq
    have hLower := isPhpExtension_iff.mp hExtension
    simp only [List.map_cons, List.map_nil, phpExtension, List.cons.injEq, and_true] at hLower
    obtain ⟨hx, hy, hz⟩ := hLower
    rw [hp] at hx hz
    rw [hh] at hy
    exact ⟨x.toNat, y.toNat, z.toNat, rfl, by omega, by omega, by omega⟩

theorem parse?_phpGlob : Glob.parse? phpGlob = some [.piece .star, .piece (.byte 46),
    .piece (.oneOf false [(112, 112), (80, 80)]), .piece (.oneOf false [(104, 104), (72, 72)]),
    .piece (.oneOf false [(112, 112), (80, 80)])] := by
  with_unfolding_all rfl

theorem phpGlob_matches {pattern : Glob.Pattern} (h : Glob.parse? phpGlob = some pattern)
    (bs : List UInt8) :
    pattern.matches bs = true ↔
      ∃ front back, bs = front ++ back ∧ Glob.slash ∉ front ∧ IsPhpEnding (back.map UInt8.toNat) := by
  obtain rfl := Option.some.inj (parse?_phpGlob.symm.trans h)
  rw [Glob.Pattern.matches_eq_covers]
  simp only [Glob.covers, Glob.Node.covers, Glob.Piece.covers, Glob.withinName_iff]
  refine exists_congr fun front => exists_congr fun back => and_congr_right fun _ =>
    and_congr_right fun _ => ?_
  simp only [Glob.oneByte_iff, Glob.inClass_pair, beq_iff_eq, List.isEmpty_iff]
  constructor
  · rintro ⟨_, _, rfl, rfl, a, _, rfl, ha, b, _, rfl, hb, c, _, rfl, hc, rfl⟩
    exact ⟨a.toNat, b.toNat, c.toNat, rfl, ha, hb, hc⟩
  · intro hEnding
    obtain ⟨dot, x, y, z, rfl, hDot, hx, hy, hz⟩ := hEnding.exists_four
    exact ⟨dot, _, rfl, UInt8.toNat_inj.mp hDot, x, _, rfl, hx, y, _, rfl, hy, z, _, rfl, hz, rfl⟩

/-- The test of found files is whether the glob covers their names. -/
theorem phpGlob_matches_iff {pattern : Glob.Pattern} (h : Glob.parse? phpGlob = some pattern)
    (hSlash : '/' ∉ name.toList) :
    pattern.matches (Glob.bytes name) = true ↔ hasPhpName (directory ++ [name]) = true := by
  rw [phpGlob_matches h, hasPhpName_iff, bytes_eq]
  constructor
  · rintro ⟨front, back, hBytes, -, hEnding⟩
    obtain ⟨stem, chars, hName, -, hChars⟩ :=
      (utf8_eq_append_iff hEnding.lt).mp ⟨back, hBytes, rfl⟩
    rw [← hChars] at hEnding
    obtain ⟨extension, rfl, hExtension⟩ := isPhpEnding_iff.mp hEnding
    exact ⟨stem, extension, hName, hExtension⟩
  · rintro ⟨stem, extension, hName, hExtension⟩
    have hEnding := isPhpEnding_iff.mpr ⟨extension, rfl, hExtension⟩
    obtain ⟨back, hBytes, hBack⟩ :=
      (utf8_eq_append_iff hEnding.lt).mpr ⟨stem, '.' :: extension, hName, rfl, rfl⟩
    refine ⟨stem.flatMap String.utf8EncodeChar, back, hBytes, slash_notMem_utf8 ?_, ?_⟩
    · intro hMem
      exact hSlash (by rw [hName]; exact List.mem_append_left _ hMem)
    · rw [hBack]
      exact hEnding

/-! ## Files given by name and files found -/

/-- No file of the tree is an ignore file. -/
def FileTree.HasNoRules (tree : FileTree) : Prop :=
  ∀ e ∈ tree.entries, e.2.isDirectory = false → ∀ name ∈ ignoreFileNames, e.1.getLast? ≠ some name

instance (tree : FileTree) : Decidable tree.HasNoRules :=
  inferInstanceAs (Decidable (∀ e ∈ tree.entries, e.2.isDirectory = false →
    ∀ name ∈ ignoreFileNames, e.1.getLast? ≠ some name))

theorem ruleTable_eq_nil {tree : FileTree} (h : tree.HasNoRules) (hName : name ∈ ignoreFileNames) :
    ruleTable tree name = [] := by
  rw [ruleTable, List.filterMap_eq_nil_iff]
  rintro ⟨p, entry⟩ hMem
  cases entry with
  | directory => rfl
  | file bytes =>
    have hNe := h _ hMem rfl name hName
    simpa using hNe
  | locked => rfl

theorem not_ignores_of_hasNoRules {tree : FileTree} (h : tree.HasNoRules) (q : AbsolutePath)
    (isDirectory : Bool) : (IgnoreIndex.ofTree tree).ignores q isDirectory = false := by
  have hSilent : ∀ directories, IgnoreIndex.verdict? [] directories q isDirectory = none := by
    intro directories
    simp [IgnoreIndex.verdict?]
  have hOwn := ruleTable_eq_nil h (by decide : ownIgnoreName ∈ ignoreFileNames)
  have hShared := ruleTable_eq_nil h (by decide : sharedIgnoreName ∈ ignoreFileNames)
  have hGit := ruleTable_eq_nil h (by decide : gitIgnoreName ∈ ignoreFileNames)
  simp [IgnoreIndex.ignores, IgnoreIndex.ofTree, hOwn, hShared, hGit, hSilent]

/-- The search of a directory without ignore files finds the files in it that have the name of a PHP
file. -/
theorem mem_searchDirectory_iff_hasPhpName {tree : FileTree} {entry : Entry}
    (h : tree.HasNoRules) (hEntry : (directory ++ [name], entry) ∈ tree.entries)
    (hFile : entry.isDirectory = false) :
    directory ++ [name] ∈ searchDirectory tree (.ofTree tree) [] directory ↔
      hasPhpName (directory ++ [name]) = true := by
  have hReach : reaches (.ofTree tree) [] directory (directory ++ [name]) = true := by
    refine reaches_iff.mpr ⟨List.prefix_append _ _, by simp, fun q _ _ => ⟨by simp, ?_⟩⟩
    exact not_ignores_of_hasNoRules h q _
  rw [mem_searchDirectory_iff]
  constructor
  · rintro ⟨-, -, -, hName, -⟩
    exact hName
  · intro hName
    exact ⟨entry, hEntry, hFile, hName, hReach⟩

/-- Only listed paths are those of files. -/
theorem exists_entry_of_isFile {tree : FileTree} {p : AbsolutePath} (h : tree.isFile p = true) :
    tree.isDirectory p = false ∧ ∃ entry, (p, entry) ∈ tree.entries ∧ entry.isDirectory = false := by
  obtain ⟨entry, hEntry, hFile⟩ := (Option.any_eq_true _ _).mp h
  rw [Bool.not_eq_true'] at hFile
  refine ⟨by simp [FileTree.isDirectory, hEntry, hFile], entry, ?_, hFile⟩
  unfold FileTree.entry? at hEntry
  split at hEntry
  · rename_i hLookup
    rw [Option.some.inj hEntry] at hLookup
    exact FileTree.mem_of_lookup hLookup
  · -- a path that is not listed is that of a directory
    split at hEntry
    · obtain rfl := Option.some.inj hEntry
      cases hFile
    · cases hEntry

/-- **Names of PHP files.** In a tree without ignore files, a file is found by the search of its
directory exactly if the glob of PHP files covers its name. It is found by name exactly then, too,
unless its name is a bare extension. -/
theorem findPhpFiles_named_iff_searched {tree : FileTree} {path folder : String}
    (hRules : tree.HasNoRules) (hFile : tree.isFile (directory ++ [name]) = true)
    (hSlash : '/' ∉ name.toList) (hDirectory : tree.isDirectory directory = true)
    (hPath : tree.resolve path = .ok (directory ++ [name]))
    (hFolder : tree.resolve folder = .ok directory) (sort : Bool) :
    ∃ named found pattern, findPhpFiles tree [path] [] sort = .ok named ∧
      findPhpFiles tree [folder] [] sort = .ok found ∧
      Glob.parse? phpGlob = some pattern ∧
      (directory ++ [name] ∈ found ↔ pattern.matches (Glob.bytes name) = true) ∧
      ((directory ++ [name] ∈ named ↔ directory ++ [name] ∈ found) ↔ ¬ IsBareExtension name) := by
  obtain ⟨hNotDirectory, entry, hEntry, hEntryFile⟩ := exists_entry_of_isFile hFile
  have hSearched := mem_searchDirectory_iff_hasPhpName hRules hEntry hEntryFile
  have hExclude : resolveAll tree [] = .ok [] := rfl
  refine ⟨_, _, _, findPhpFiles_file hPath hNotDirectory hExclude sort,
    findPhpFiles_directory hFolder hDirectory hExclude sort, parse?_phpGlob, ?_, ?_⟩
  · rw [mem_listed, hSearched, phpGlob_matches_iff parse?_phpGlob hSlash]
  · have hNamed : ∀ p : AbsolutePath,
        p ∈ (if hasPhpExtension p && !List.contains [] p then [p] else []) ↔
          hasPhpExtension p = true := by simp
    rw [mem_listed, mem_listed, hNamed, hSearched, hasPhpExtension_iff_hasPhpName]
    constructor
    · rintro hAgree ⟨extension, hName, hExtension⟩
      have hFound : hasPhpName (directory ++ [name]) = true :=
        hasPhpName_iff.mpr ⟨[], extension, hName, hExtension⟩
      exact (hAgree.mpr hFound).2 ⟨extension, hName, hExtension⟩
    · intro hBare
      exact and_iff_left hBare

/-- A file with two dots in its name and the extension in capital letters is found both ways. -/
theorem findPhpFiles_named_iff_searched_capitals :
    let tree : FileTree := { entries := [(["d", "a.b.PHP"], .file .empty)] }
    let file : AbsolutePath := ["d"] ++ ["a.b.PHP"]
    tree.HasNoRules ∧ ∃ named found, findPhpFiles tree ["d/a.b.PHP"] [] false = .ok named ∧
      findPhpFiles tree ["d"] [] false = .ok found ∧ file ∈ found ∧ file ∈ named := by
  intro tree file
  have hRules : tree.HasNoRules := by decide
  have hFile : tree.isFile file = true := rfl
  have hPath : tree.resolve "d/a.b.PHP" = .ok file := by decide +kernel
  have hFolder : tree.resolve "d" = .ok ["d"] := by decide +kernel
  obtain ⟨named, found, -, hNamed, hFound, -, -, hAgree⟩ :=
    findPhpFiles_named_iff_searched hRules hFile (by decide) (by decide +kernel) hPath hFolder false
  have hSearch : findPhpFiles tree ["d"] [] false = .ok [file] := by decide +kernel
  obtain rfl := Except.ok.inj (hFound.symm.trans hSearch)
  have hThere : file ∈ [file] := List.mem_singleton_self file
  refine ⟨hRules, named, [file], hNamed, hFound, hThere, (hAgree.mpr ?_).mpr hThere⟩
  rintro ⟨extension, hName, -⟩
  cases hName

/-- A file whose name is a bare extension is found by the search of its directory, but not by name. -/
theorem findPhpFiles_bareExtension :
    let tree : FileTree := { entries := [([".php"], .file .empty)] }
    tree.HasNoRules ∧ findPhpFiles tree [".php"] [] true = .ok [] ∧
      findPhpFiles tree ["."] [] true = .ok [[".php"]] := by
  decide +kernel

end TagLint.Files
