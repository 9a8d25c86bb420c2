/-!
# Paths

A path is a text whose components are divided by slashes. Repeated slashes and single dots mean
nothing, except that a dot at the start of a relative path is a component of its own. Absolute paths
without dots are lists of names.

* `relativeTo?`: the rest of a path below another one, compared component by component.
* `AbsolutePath.before`: the order in which files are listed.
-/

namespace TagLint.Files

/-! ## Texts of paths -/

/-- One step of a path. -/
inductive Component
  /-- The root directory. -/
  | root
  /-- The directory itself. -/
  | here
  /-- The directory above. -/
  | up
  | name (text : List Char)
deriving Repr, DecidableEq, Inhabited

/-- The text up to the next slash. -/
def firstName (cs : List Char) : List Char :=
  cs.takeWhile (· != '/')

/-- The text after the next slash. -/
def afterFirstName (cs : List Char) : List Char :=
  (cs.dropWhile (· != '/')).drop 1

theorem afterFirstName_length_lt {cs : List Char} (h : cs ≠ []) :
    (afterFirstName cs).length < cs.length := by
  have hDrop := (List.dropWhile_sublist (l := cs) (· != '/')).length_le
  have hPos := List.length_pos_iff.mpr h
  simp only [afterFirstName, List.length_drop]
  omega

/-- Whether a name between slashes means nothing. -/
def isVoid (name : List Char) : Bool :=
  name == [] || name == ['.']

/-- The component that a name between slashes is, if it means anything. -/
def Component.ofName? (name : List Char) : Option Component :=
  if isVoid name then none else if name == ['.', '.'] then some .up else some (.name name)

/-- The components of a path after its root, each with the text that follows it. -/
def bodyComponents (cs : List Char) : List (Component × List Char) :=
  if h : cs = [] then []
  else
    have := afterFirstName_length_lt h
    ((Component.ofName? (firstName cs)).map (·, afterFirstName cs)).toList
      ++ bodyComponents (afterFirstName cs)
termination_by cs.length

/-- Divides a path into what comes before its names, a root slash or a leading dot, and the rest. -/
def splitBody : List Char → List Char × List Char
  | '/' :: rest => (['/'], rest)
  | '.' :: rest =>
    if rest.isEmpty || rest.head? == some '/' then (['.'], rest) else ([], '.' :: rest)
  | cs => ([], cs)

/-- The components of a path, each with the text that follows it. -/
def componentsWithRest (cs : List Char) : List (Component × List Char) :=
  match splitBody cs with
  | (['/'], body) => (.root, body) :: bodyComponents body
  | (['.'], body) => (.here, body) :: bodyComponents body
  | (_, body) => bodyComponents body

/-- The components of a path. -/
def components (cs : List Char) : List Component :=
  (componentsWithRest cs).map (·.1)

/-- Drops the names at the start of a text that mean nothing. -/
def trimStart (cs : List Char) : List Char :=
  if h : cs = [] then []
  else
    have := afterFirstName_length_lt h
    if isVoid (firstName cs) then trimStart (afterFirstName cs) else cs
termination_by cs.length

/-- Drops the names at the end of a text that mean nothing. -/
def trimStop (cs : List Char) : List Char :=
  (trimStart cs.reverse).reverse

/-- What is left of a path below another one, if the components of that one come first. -/
def relativeTo? (path base : List Char) : Option (List Char) :=
  let steps := componentsWithRest path
  let baseSteps := components base
  if baseSteps.isPrefixOf (steps.map (·.1)) then
    match baseSteps.length with
    | 0 => some ((splitBody path).1 ++ trimStop (splitBody path).2)
    | n + 1 => (steps[n]?).map fun step => trimStop (trimStart step.2)
  else none

/-! ## Absolute paths -/

/-- An absolute path without dots, by the names on the way from the root. -/
abbrev AbsolutePath := List String

namespace AbsolutePath

/-- The text of a path. -/
def display (p : AbsolutePath) : String :=
  "/" ++ "/".intercalate p

/-- Whether a path comes first in a listing: names are compared one after another, each by its
bytes, which is the order of their characters. -/
def before (p q : AbsolutePath) : Bool :=
  match p, q with
  | [], _ => true
  | _ :: _, [] => false
  | a :: p, b :: q => if a == b then before p q else a < b

end AbsolutePath

end TagLint.Files
