import TagLint.Settings.Value

/-!
# Wrapped values

A table of a configuration file can stand for a single value: under one reserved key it holds the
value, and its other keys mean nothing. Another reserved key is kept for the number of the place that
a value comes from. No value of a file can be such a number, so a file with that key is refused. Only
tables inside of a file can be wrappers, not the file as a whole.

* `Value.unwrap?`: a value with every wrapper in it replaced by what it holds.
* `Table.unwrap?`: the table of a file without wrappers.
* `Value.unwrap?_of_isBare`: nothing changes where no reserved key occurs.
-/

namespace TagLint.Settings

/-- The key under which a wrapper holds its value. -/
def wrappedKey : String := "___figment_value_value"

/-- The key for the number of the place that a value comes from. -/
def placeKey : String := "___figment_value_id"

mutual

/-- A value without wrappers, the inner ones taken off first. -/
def Value.unwrap? : Value → Option Value
  | .list elements => (unwrapElements? elements).map .list
  | .table fields => (unwrapFields? fields).bind fun fields =>
    if (fields.lookup placeKey).isSome then none
    else some ((fields.lookup wrappedKey).getD (.table fields))
  | v => some v

/-- The elements of a list without wrappers. -/
def unwrapElements? : List Value → Option (List Value)
  | [] => some []
  | v :: vs => do
    let v ← v.unwrap?
    let vs ← unwrapElements? vs
    return v :: vs

/-- The fields of a table without wrappers. -/
def unwrapFields? : List (String × Value) → Option (List (String × Value))
  | [] => some []
  | (key, v) :: fields => do
    let v ← v.unwrap?
    let fields ← unwrapFields? fields
    return (key, v) :: fields

end

/-- The table of a file without wrappers. -/
def Table.unwrap? (fields : Table) : Option Table :=
  unwrapFields? fields

/-! ## Values without reserved keys -/

mutual

/-- Whether no table in a value has a reserved key. -/
def Value.isBare : Value → Bool
  | .list elements => areBare elements
  | .table fields =>
    areBareFields fields && (fields.lookup placeKey).isNone && (fields.lookup wrappedKey).isNone
  | _ => true

/-- Whether no table in the elements of a list has a reserved key. -/
def areBare : List Value → Bool
  | [] => true
  | v :: vs => v.isBare && areBare vs

/-- Whether no table in the values of some fields has a reserved key. -/
def areBareFields : List (String × Value) → Bool
  | [] => true
  | (_, v) :: fields => v.isBare && areBareFields fields

end

mutual

/-- A value without reserved keys is left as it is. -/
theorem Value.unwrap?_of_isBare : {v : Value} → v.isBare = true → v.unwrap? = some v
  | .list elements, h => by
    rw [Value.isBare] at h
    rw [Value.unwrap?, unwrapElements?_of_areBare h, Option.map_some]
  | .table fields, h => by
    rw [Value.isBare, Bool.and_eq_true, Bool.and_eq_true, Option.isNone_iff_eq_none,
      Option.isNone_iff_eq_none] at h
    obtain ⟨⟨hFields, hPlace⟩, hWrapped⟩ := h
    rw [Value.unwrap?, unwrapFields?_of_areBareFields hFields]
    simp only [Option.bind_some, hPlace, hWrapped, Option.isSome_none, Bool.false_eq_true, if_false,
      Option.getD_none]
  | .bool _, _ => by rw [Value.unwrap?]; all_goals simp
  | .signed _, _ => by rw [Value.unwrap?]; all_goals simp
  | .unsigned _, _ => by rw [Value.unwrap?]; all_goals simp
  | .float _, _ => by rw [Value.unwrap?]; all_goals simp
  | .string _, _ => by rw [Value.unwrap?]; all_goals simp
  | .character _, _ => by rw [Value.unwrap?]; all_goals simp

/-- Elements without reserved keys are left as they are. -/
theorem unwrapElements?_of_areBare :
    {vs : List Value} → areBare vs = true → unwrapElements? vs = some vs
  | [], _ => by rw [unwrapElements?]
  | v :: vs, h => by
    rw [areBare, Bool.and_eq_true] at h
    rw [unwrapElements?, Value.unwrap?_of_isBare h.1, unwrapElements?_of_areBare h.2]
    rfl

/-- Fields without reserved keys are left as they are. -/
theorem unwrapFields?_of_areBareFields :
    {fields : List (String × Value)} → areBareFields fields = true →
      unwrapFields? fields = some fields
  | [], _ => by rw [unwrapFields?]
  | (key, v) :: fields, h => by
    rw [areBareFields, Bool.and_eq_true] at h
    rw [unwrapFields?, Value.unwrap?_of_isBare h.1, unwrapFields?_of_areBareFields h.2]
    rfl

end

end TagLint.Settings
