import TagLint.Tag.Kind

/-!
# Registered tags

A registry lists the tags that a run checks, each once, in the order in which they were registered.

* `Registry.lookup_eq_some_iff`: a name is found exactly if a registered tag has it.
-/

namespace TagLint

/-- The tags that a run knows, in order of registration. -/
structure Registry where
  kinds : List TagKind := []
deriving Repr, DecidableEq, Inhabited

namespace Registry

/-- The registry without tags. -/
def empty : Registry := {}

/-- The registered tag with this name. -/
def lookup (r : Registry) (name : String) : Option TagKind :=
  r.kinds.find? (·.name == name)

/-- Adds a tag at the end unless it is registered already, and says whether it was added. -/
def register (r : Registry) (kind : TagKind) : Bool × Registry :=
  if (r.lookup kind.name).isSome then (false, r) else (true, ⟨r.kinds ++ [kind]⟩)

/-- Registers tags one after another. -/
def registerAll (r : Registry) (kinds : List TagKind) : Registry :=
  kinds.foldl (fun r kind => (r.register kind).2) r

/-- The registry of all tags. -/
def builtin : Registry :=
  empty.registerAll TagKind.all

/-- Whether a tag may decorate a declaration. -/
def isApplicable (_ : Registry) (kind : TagKind) (owner : Declaration) : Bool :=
  kind.isApplicable owner

theorem lookup_eq_some_iff {r : Registry} {name : String} {kind : TagKind} :
    r.lookup name = some kind ↔ kind ∈ r.kinds ∧ kind.name = name := by
  constructor
  · intro h
    refine ⟨List.mem_of_find?_eq_some h, ?_⟩
    simpa using List.find?_some h
  · rintro ⟨hMem, hName⟩
    cases h : r.lookup name with
    | none =>
      have hAll := List.find?_eq_none.mp h kind hMem
      simp [hName] at hAll
    | some other =>
      have hOther : other.name = name := by simpa using List.find?_some h
      rw [TagKind.name_injective (hOther.trans hName.symm)]

end Registry

end TagLint
