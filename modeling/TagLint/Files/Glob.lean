/-!
# Globs

Patterns for paths. A pattern is matched against the bytes of a path: a question mark is one byte and
a star any number of bytes, none of them a slash; a double star between slashes stands for any number
of directories; brackets hold a class of bytes, braces hold alternatives, and a backslash makes the
next character plain.

* `Glob.parse?`: reads a pattern.
* `Glob.Pattern.matches`: whether a pattern covers a whole path.
* `Glob.Pattern.matches_eq_covers`: matching agrees with the meaning of the pieces.
* `Glob.Pattern.depth`: how deep a pattern is nested, which is limited.
-/

namespace TagLint.Files.Glob

/-- The byte that divides the names of a path. -/
def slash : UInt8 := 0x2f

/-- The bytes of a text. -/
def bytes (text : String) : List UInt8 :=
  text.toUTF8.data.toList

/-! ## Pieces -/

/-- One step of a pattern. -/
inductive Piece
  /-- This byte. -/
  | byte (b : UInt8)
  /-- Any byte but a slash. -/
  | any
  /-- Any number of bytes other than slashes. -/
  | star
  /-- Any number of leading directories: nothing, or anything that ends in a slash. -/
  | leadingDirs
  /-- Anything below a directory: a slash and any bytes. -/
  | below
  /-- Any number of directories between two others: a slash, or two slashes with any bytes between. -/
  | middleDirs
  /-- Any bytes at all. -/
  | everything
  /-- A byte that lies in one of the ranges, or in none of them if the class is negated. -/
  | oneOf (negated : Bool) (ranges : List (UInt8 × UInt8))
deriving Repr, DecidableEq, Inhabited

/-- The first byte passes a test and the condition holds of the rest. -/
def oneByte (test : UInt8 → Bool) (k : List UInt8 → Bool) : List UInt8 → Bool
  | [] => false
  | b :: bs => test b && k bs

/-- Some suffix of the bytes, reached without passing a slash, satisfies the condition. -/
def withinName (k : List UInt8 → Bool) : List UInt8 → Bool
  | [] => k []
  | b :: bs => k (b :: bs) || (b != slash && withinName k bs)

/-- What follows some slash of the bytes satisfies the condition. -/
def afterSlash (k : List UInt8 → Bool) : List UInt8 → Bool
  | [] => false
  | b :: bs => (b == slash && k bs) || afterSlash k bs

/-- Some suffix of the bytes satisfies the condition. -/
def anySuffix (k : List UInt8 → Bool) : List UInt8 → Bool
  | [] => k []
  | b :: bs => k (b :: bs) || anySuffix k bs

/-- Whether a byte lies in a class. -/
def inClass (negated : Bool) (ranges : List (UInt8 × UInt8)) (b : UInt8) : Bool :=
  ranges.any (fun r => r.1 ≤ b && b ≤ r.2) != negated

/-- Whether a piece covers the start of the bytes so that the condition holds of the rest. -/
def Piece.covers (k : List UInt8 → Bool) : Piece → List UInt8 → Bool
  | .byte b => oneByte (· == b) k
  | .any => oneByte (· != slash) k
  | .star => withinName k
  | .leadingDirs => fun bs => k bs || afterSlash k bs
  | .below => oneByte (· == slash) (anySuffix k)
  | .middleDirs => oneByte (· == slash) fun bs => k bs || afterSlash k bs
  | .everything => anySuffix k
  | .oneOf negated ranges => oneByte (inClass negated ranges) k

/-! ## Patterns with alternatives -/

/-- A part of a pattern as it is written. -/
inductive Node
  | piece (p : Piece)
  /-- The alternatives between two braces. -/
  | choice (branches : List (List Node))
deriving Inhabited

/-- A pattern: parts in a row. -/
abbrev Pattern := List Node

mutual

/-- Whether a part holds no piece. -/
def Node.isBlank : Node → Bool
  | .piece _ => false
  | .choice branches => allBlank branches

/-- Whether parts in a row hold no piece. -/
def isBlank : List Node → Bool
  | [] => true
  | n :: ns => n.isBlank && isBlank ns

/-- Whether no alternative holds a piece. -/
def allBlank : List (List Node) → Bool
  | [] => true
  | branch :: rest => isBlank branch && allBlank rest

end

mutual

/-- Whether a part covers the start of the bytes so that the condition holds of the rest.
Alternatives without any piece do not count, and if none has one, they cover nothing. -/
def Node.covers (k : List UInt8 → Bool) : Node → List UInt8 → Bool
  | .piece p => p.covers k
  | .choice branches => if allBlank branches then k else someCovers k branches

/-- Whether parts in a row cover the start of the bytes so that the condition holds of the rest. -/
def covers (k : List UInt8 → Bool) : List Node → List UInt8 → Bool
  | [] => k
  | n :: ns => n.covers (covers k ns)

/-- Whether one of the alternatives covers the start of the bytes so that the condition holds of the
rest. -/
def someCovers (k : List UInt8 → Bool) : List (List Node) → List UInt8 → Bool
  | [] => fun _ => false
  | branch :: rest =>
    if isBlank branch then someCovers k rest
    else fun bs => covers k branch bs || someCovers k rest bs

end

/-! ## Matching

Trying every way to divide a path among the pieces takes too long. A condition on the rest of a path
is therefore kept as its marks: for each suffix of the path, from the whole to the empty one, whether
the condition holds there. Each part turns the marks of what follows it into its own in one pass. -/

/-- The marks of a condition: one for each suffix of the bytes. -/
def marks (k : List UInt8 → Bool) : List UInt8 → List Bool
  | [] => [k []]
  | b :: bs => k (b :: bs) :: marks k bs

/-- The marks of `oneByte`. -/
def oneByteMarks (test : UInt8 → Bool) : List UInt8 → List Bool → List Bool
  | b :: bs, _ :: ms => (test b && ms.headD false) :: oneByteMarks test bs ms
  | _, _ => [false]

/-- The marks of `withinName`. -/
def withinNameMarks : List UInt8 → List Bool → List Bool
  | b :: bs, m :: ms =>
    let rest := withinNameMarks bs ms
    (m || (b != slash && rest.headD false)) :: rest
  | _, ms => ms

/-- The marks of `afterSlash`. -/
def afterSlashMarks : List UInt8 → List Bool → List Bool
  | b :: bs, _ :: ms =>
    let rest := afterSlashMarks bs ms
    ((b == slash && ms.headD false) || rest.headD false) :: rest
  | _, _ => [false]

/-- The marks of `anySuffix`. -/
def anySuffixMarks : List UInt8 → List Bool → List Bool
  | _ :: bs, m :: ms =>
    let rest := anySuffixMarks bs ms
    (m || rest.headD false) :: rest
  | _, ms => ms

/-- The marks of either of two conditions. -/
def eitherMarks (ms ns : List Bool) : List Bool :=
  List.zipWith (· || ·) ms ns

/-- The marks of a piece before those of what follows it. -/
def Piece.marks (bs : List UInt8) (ms : List Bool) : Piece → List Bool
  | .byte b => oneByteMarks (· == b) bs ms
  | .any => oneByteMarks (· != slash) bs ms
  | .star => withinNameMarks bs ms
  | .leadingDirs => eitherMarks ms (afterSlashMarks bs ms)
  | .below => oneByteMarks (· == slash) bs (anySuffixMarks bs ms)
  | .middleDirs => oneByteMarks (· == slash) bs (eitherMarks ms (afterSlashMarks bs ms))
  | .everything => anySuffixMarks bs ms
  | .oneOf negated ranges => oneByteMarks (inClass negated ranges) bs ms

mutual

/-- The marks of a part before those of what follows it. -/
def Node.marks (bs : List UInt8) (ms : List Bool) : Node → List Bool
  | .piece p => p.marks bs ms
  | .choice branches => if allBlank branches then ms else someMarks bs ms branches

/-- The marks of parts in a row before those of what follows them. -/
def rowMarks (bs : List UInt8) (ms : List Bool) : List Node → List Bool
  | [] => ms
  | n :: ns => n.marks bs (rowMarks bs ms ns)

/-- The marks of alternatives before those of what follows them. -/
def someMarks (bs : List UInt8) (ms : List Bool) : List (List Node) → List Bool
  | [] => ms.map fun _ => false
  | branch :: rest =>
    if isBlank branch then someMarks bs ms rest
    else eitherMarks (rowMarks bs ms branch) (someMarks bs ms rest)

end

/-- Whether a pattern covers a whole path. -/
def Pattern.matches (pattern : Pattern) (path : List UInt8) : Bool :=
  (rowMarks path (marks List.isEmpty path) pattern).headD false

theorem headD_marks (k : List UInt8 → Bool) (bs : List UInt8) : (marks k bs).headD false = k bs := by
  cases bs <;> rfl

theorem oneByteMarks_marks (test : UInt8 → Bool) (k : List UInt8 → Bool) (bs : List UInt8) :
    oneByteMarks test bs (marks k bs) = marks (oneByte test k) bs := by
  induction bs with
  | nil => rfl
  | cons b bs ih => simp only [marks, oneByteMarks, oneByte, ih, headD_marks]

theorem withinNameMarks_marks (k : List UInt8 → Bool) (bs : List UInt8) :
    withinNameMarks bs (marks k bs) = marks (withinName k) bs := by
  induction bs with
  | nil => rfl
  | cons b bs ih => simp only [marks, withinNameMarks, withinName, ih, headD_marks]

theorem afterSlashMarks_marks (k : List UInt8 → Bool) (bs : List UInt8) :
    afterSlashMarks bs (marks k bs) = marks (afterSlash k) bs := by
  induction bs with
  | nil => rfl
  | cons b bs ih => simp only [marks, afterSlashMarks, afterSlash, ih, headD_marks]

theorem anySuffixMarks_marks (k : List UInt8 → Bool) (bs : List UInt8) :
    anySuffixMarks bs (marks k bs) = marks (anySuffix k) bs := by
  induction bs with
  | nil => rfl
  | cons b bs ih => simp only [marks, anySuffixMarks, anySuffix, ih, headD_marks]

theorem eitherMarks_marks (k l : List UInt8 → Bool) (bs : List UInt8) :
    eitherMarks (marks k bs) (marks l bs) = marks (fun cs => k cs || l cs) bs := by
  induction bs with
  | nil => rfl
  | cons b bs ih => simpa [marks, eitherMarks] using ih

theorem noneMarks_marks (k : List UInt8 → Bool) (bs : List UInt8) :
    (marks k bs).map (fun _ => false) = marks (fun _ => false) bs := by
  induction bs with
  | nil => rfl
  | cons b bs ih => simpa [marks] using ih

theorem Piece.marks_marks (k : List UInt8 → Bool) (bs : List UInt8) (p : Piece) :
    p.marks bs (Glob.marks k bs) = Glob.marks (p.covers k) bs := by
  cases p <;> simp only [Piece.marks, Piece.covers, oneByteMarks_marks, withinNameMarks_marks,
    afterSlashMarks_marks, anySuffixMarks_marks, eitherMarks_marks]

mutual

theorem Node.marks_marks (k : List UInt8 → Bool) (bs : List UInt8) :
    (n : Node) → n.marks bs (Glob.marks k bs) = Glob.marks (n.covers k) bs
  | .piece p => by simp only [Node.marks, Node.covers, Piece.marks_marks]
  | .choice branches => by
    simp only [Node.marks, Node.covers]
    split
    · rfl
    · exact someMarks_marks k bs branches

theorem rowMarks_marks (k : List UInt8 → Bool) (bs : List UInt8) :
    (ns : List Node) → rowMarks bs (marks k bs) ns = marks (covers k ns) bs
  | [] => by simp only [rowMarks, covers]
  | n :: ns => by
    simp only [rowMarks, covers]
    rw [rowMarks_marks k bs ns, Node.marks_marks (covers k ns) bs n]

theorem someMarks_marks (k : List UInt8 → Bool) (bs : List UInt8) :
    (branches : List (List Node)) →
      someMarks bs (marks k bs) branches = marks (someCovers k branches) bs
  | [] => by simp only [someMarks, someCovers, noneMarks_marks]
  | branch :: rest => by
    simp only [someMarks, someCovers]
    split
    · exact someMarks_marks k bs rest
    · rw [rowMarks_marks k bs branch, someMarks_marks k bs rest, eitherMarks_marks]

end

/-- Matching by marks finds just the paths that the parts cover from the first byte to the last. -/
theorem Pattern.matches_eq_covers (pattern : Pattern) (path : List UInt8) :
    pattern.matches path = covers List.isEmpty pattern path := by
  simp only [Pattern.matches, rowMarks_marks, headD_marks]

/-! ## Depth

The depth of a pattern is that of the expression tree that it stands for. A pair of braces, a choice
between several alternatives, several steps in a row, a repetition and a class of bytes each count one
level. -/

/-- The most levels that a pattern may have. -/
def maxDepth : Nat := 250

/-- The levels of a piece. A star repeats a class; directories in front or between are a choice in
braces whose longer alternative repeats something in a row. -/
def Piece.depth : Piece → Nat
  | .byte _ => 0
  | .any => 1
  | .star => 2
  | .leadingDirs => 4
  | .below => 1
  | .middleDirs => 4
  | .everything => 1
  | .oneOf _ ranges => if ranges.length ≤ 1 then 1 else 2

/-- The number of steps in a row that a part stands for. -/
def Node.steps : Node → Nat
  | .piece .below => 2
  | .piece _ => 1
  | .choice branches => if allBlank branches then 0 else 1

/-- The number of steps that parts in a row stand for. -/
def steps : List Node → Nat
  | [] => 0
  | n :: ns => n.steps + steps ns

mutual

/-- The levels of a part. -/
def Node.depth : Node → Nat
  | .piece p => p.depth
  | .choice branches =>
    let several := 1 < (branches.filter (!isBlank ·)).length
    branchesDepth branches + (if several then 2 else 1)

/-- The levels of the deepest of some parts. -/
def partsDepth : List Node → Nat
  | [] => 0
  | n :: ns => max n.depth (partsDepth ns)

/-- The levels of the deepest of some alternatives. -/
def branchesDepth : List (List Node) → Nat
  | [] => 0
  | branch :: rest =>
    max (partsDepth branch + (if steps branch ≤ 1 then 0 else 1)) (branchesDepth rest)

end

/-- The levels of a pattern. The ends of the path are steps of their own, so there is always a row. -/
def Pattern.depth (pattern : Pattern) : Nat :=
  partsDepth pattern + 1

/-! ## Reading a pattern -/

/-- The result of reading a class of characters up to its closing bracket. -/
inductive ClassScan
  /-- The ranges of the class, the last one first, and the text after the bracket. -/
  | closed (ranges : List (Char × Char)) (rest : List Char)
  /-- There is no closing bracket. -/
  | unclosed
  /-- A range ends before it starts. -/
  | invalid
deriving Repr, DecidableEq, Inhabited

/-- Reads a class of characters. A bracket or a hyphen is plain at the start, and a hyphen is plain
at the end. -/
def scanClass (first inRange : Bool) (ranges : List (Char × Char)) : List Char → ClassScan
  | [] => .unclosed
  | c :: cs =>
    if c = ']' ∧ !first then .closed (if inRange then ('-', '-') :: ranges else ranges) cs
    else if c = '-' ∧ !first ∧ !inRange then scanClass false true ranges cs
    else if inRange then
      match ranges with
      | (a, _) :: rest =>
        if c < a then .invalid else scanClass false false ((a, c) :: rest) cs
      | [] => .invalid
    else scanClass false false ((c, c) :: ranges) cs

theorem scanClass_rest_length {first inRange : Bool} {ranges found : List (Char × Char)}
    {cs rest : List Char} (h : scanClass first inRange ranges cs = .closed found rest) :
    rest.length ≤ cs.length := by
  fun_induction scanClass first inRange ranges cs with
  | case1 => cases h
  | case2 =>
    cases h
    simp
  | case3 _ _ _ _ _ _ _ ih => exact Nat.le_succ_of_le (ih h)
  | case4 => cases h
  | case5 _ _ _ _ _ _ _ _ _ ih => exact Nat.le_succ_of_le (ih h)
  | case6 => cases h
  | case7 _ _ _ _ _ _ _ _ ih => exact Nat.le_succ_of_le (ih h)

/-- The ranges of bytes that a range of characters stands for. Outside ASCII the bytes of both ends
are listed one by one, with a range where they meet. -/
def byteRanges (range : Char × Char) : List (UInt8 × UInt8) :=
  let low := bytes range.1.toString
  let high := bytes range.2.toString
  let single := fun b => (b, b)
  if range.1 = range.2 then low.map single
  else
    match low.getLast?, high with
    | some a, b :: rest => low.dropLast.map single ++ (a, b) :: rest.map single
    | _, _ => []

/-- The alternatives between two braces that are being read. -/
structure Frame where
  /-- The alternatives read so far, the last one first. -/
  branches : List (List Node) := []
  /-- The parts of the present alternative, the last one first. -/
  current : List Node := []
deriving Inhabited

/-- Adds a part to the present alternative. -/
def Frame.push (f : Frame) (n : Node) : Frame :=
  { f with current := n :: f.current }

/-- What has been read of a pattern. -/
structure Reader where
  /-- The alternatives that the present ones stand in, the innermost first. -/
  outer : List Frame := []
  top : Frame := {}
  /-- The character read last. -/
  last : Option Char := none
  /-- A class without an end has occurred, so brackets are plain. -/
  plainBrackets : Bool := false
deriving Inhabited

namespace Reader

/-- Adds a piece, read up to a character. -/
def push (r : Reader) (p : Piece) (last : Char) : Reader :=
  { r with top := r.top.push (.piece p), last := some last }

/-- Adds a plain character. -/
def pushChar (r : Reader) (c : Char) : Reader :=
  { r with top := (bytes c.toString).foldl (fun f b => f.push (.piece (.byte b))) r.top, last := some c }

/-- Replaces the last piece by another one, unless it already stands for directories at the start or
for anything below. -/
def replaceLast (r : Reader) (p : Piece) (last : Char) : Reader :=
  let current := match r.top.current with
    | .piece .leadingDirs :: rest => .piece .leadingDirs :: rest
    | .piece .below :: rest => .piece .below :: rest
    | _ :: rest => .piece p :: rest
    | [] => [.piece p]
  { r with top := { r.top with current }, last := some last }

/-- Reads a double star before a text, and says whether the slash after it was read too. It stands
for directories only between slashes, the ends of the pattern and the ends of alternatives. -/
def pushDoubleStar (r : Reader) (rest : List Char) : Reader × Bool :=
  let stars := ((r.push .star '*').push .star '*', false)
  let nested := !r.outer.isEmpty
  if r.top.current.isEmpty then
    match rest with
    | [] => (r.push .leadingDirs '*', false)
    | '/' :: _ => (r.push .leadingDirs '/', true)
    | _ => stars
  else if r.last == some '/' || (nested && (r.last == some ',' || r.last == some '\x7b')) then
    match rest with
    | [] => (r.replaceLast .below '*', false)
    | '/' :: _ => (r.replaceLast .middleDirs '/', true)
    | c :: _ =>
      if nested && (c == ',' || c == '\x7d') then (r.replaceLast .below '*', false) else stars
  else stars

/-- Starts a list of alternatives. -/
def openChoice (r : Reader) : Reader :=
  { r with outer := r.top :: r.outer, top := {}, last := some '\x7b' }

/-- Starts the next alternative, or adds a plain comma outside of braces. -/
def comma (r : Reader) : Reader :=
  if r.outer.isEmpty then r.pushChar ','
  else
    { r with
      top := { branches := r.top.current.reverse :: r.top.branches }
      last := some ',' }

/-- Ends a list of alternatives. There is none to end outside of braces. -/
def closeChoice? (r : Reader) : Option Reader :=
  match r.outer with
  | [] => none
  | frame :: outer =>
    let branches := (r.top.current.reverse :: r.top.branches).reverse
    some { r with outer, top := frame.push (.choice branches), last := some '\x7d' }

/-- The parts of the whole pattern. Open braces make it invalid. -/
def finish? (r : Reader) : Option (List Node) :=
  if r.outer.isEmpty then some r.top.current.reverse else none

end Reader

/-- Divides the text after an opening bracket into its negation mark and the rest. -/
def splitNegation : List Char → Bool × List Char
  | '!' :: cs => (true, cs)
  | '^' :: cs => (true, cs)
  | cs => (false, cs)

theorem splitNegation_length (cs : List Char) : (splitNegation cs).2.length ≤ cs.length := by
  unfold splitNegation
  split <;> simp

/-- Reads the rest of a pattern. -/
def readNodes? (r : Reader) : List Char → Option (List Node)
  | [] => r.finish?
  | '?' :: cs => readNodes? (r.push .any '?') cs
  | '*' :: '*' :: cs =>
    let step := r.pushDoubleStar cs
    readNodes? step.1 (if step.2 then cs.drop 1 else cs)
  | '*' :: cs => readNodes? (r.push .star '*') cs
  | '[' :: cs =>
    if r.plainBrackets then readNodes? (r.pushChar '[') cs
    else
      let negation := splitNegation cs
      match _h : scanClass true false [] negation.2 with
      | .closed ranges rest =>
        readNodes? (r.push (.oneOf negation.1 (ranges.reverse.flatMap byteRanges)) ']') rest
      | .unclosed => readNodes? ({ r with plainBrackets := true }.pushChar '[') cs
      | .invalid => none
  | '\x7b' :: cs => readNodes? r.openChoice cs
  | '\x7d' :: cs => r.closeChoice?.bind (readNodes? · cs)
  | ',' :: cs => readNodes? r.comma cs
  | '\\' :: c :: cs => readNodes? (r.pushChar c) cs
  | ['\\'] => none
  | c :: cs => readNodes? (r.pushChar c) cs
termination_by cs => cs.length
decreasing_by
  all_goals simp only [List.length_cons]
  · omega
  · split
    · rw [List.length_drop]
      omega
    · omega
  · omega
  · omega
  · have h1 := scanClass_rest_length _h
    have h2 : negation.2.length ≤ cs.length := splitNegation_length cs
    omega
  all_goals omega

/-- Reads a pattern. A pattern that is a double star and nothing else covers everything. -/
def parse? (text : List Char) : Option Pattern :=
  (readNodes? {} text).map fun nodes =>
    match nodes with
    | [.piece .leadingDirs] => [.piece .everything]
    | nodes => nodes

end TagLint.Files.Glob
