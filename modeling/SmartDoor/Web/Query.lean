-- SUMMARY: The parser of the page's query string: one iteration of its loop, and the pieces it is given.
import SmartDoor.Base.Script

/-!
# The query string

`getAllUrlParams` of `WebInterface/src/App.js`. Each piece between two `&` is cut
at `=`, a bracket with a number is taken out of its name, and the value is put
into an object: the first one as a text, from the second one on in an array.
Whether a name is there already is tested by the truth value of its property. A
piece without `=` has no `a[1]`; unless the prototype has a property "1" by then,
the value is `true`, and `true.toLowerCase` is not a function.

`toLowerCase` is a parameter: it maps all of Unicode.
-/

namespace SmartDoor.Web

open Script

/-- `name.replace(/\[\d*\]/, ...)`: the name without its first bracket, and what
the bracket holds. -/
def replaceBracket : Text → Text × Option Text
  | [] => ([], none)
  | c :: cs =>
    if c = '[' ∧ (cs.dropWhile Char.isDigit).head? = some ']' then
      ((cs.dropWhile Char.isDigit).tail, some (cs.takeWhile Char.isDigit))
    else (c :: (replaceBracket cs).1, (replaceBracket cs).2)

section

variable (lower : Text → Text)

/-- `paramName` of a piece. -/
def paramName (piece : Text) : Text := lower (replaceBracket ((piece.splitOn '=').headD [])).1

/-- `paramNum` of a piece. -/
def paramNum (piece : Text) : Option Text := (replaceBracket ((piece.splitOn '=').headD [])).2

/-- `paramValue` of a piece, before it is changed to lower case: `a[1]`, which falls
back on the prototype. Without either it is `true`. -/
def paramValue (prototype : Prototype) (piece : Text) : Option Text :=
  (piece.splitOn '=')[1]?.or (prototype (numeral 1))

/-- A text under `name` is made the only element of an array. -/
def asArray (name : Text) (obj : Object) : Object :=
  match obj.get name with
  | some (.text s) => obj.set name (.array (.single s))
  | _ => obj

/-- The value is put into the object. -/
def addParam (name : Text) (num : Option Text) (value : Text) (obj : Object) :
    Except Error Object :=
  if truthy (obj.get name) then
    match num with
    | none => (asArray name obj).push name value
    | some num => .ok ((asArray name obj).put name num value)
  else .ok (obj.set name (.text value))

/-- One iteration of the loop. -/
def iterate (obj : Object) (piece : Text) : Except Error Object :=
  match paramValue obj.prototype piece with
  | none => .error .typeError
  | some value => addParam (paramName lower piece) (paramNum piece) (lower value) obj

/-- The pieces of `window.location.search`. -/
def pieces (search : Text) : List Text :=
  if search.drop 1 = [] then [] else (((search.drop 1).splitOn '#').headD []).splitOn '&'

/-- `getAllUrlParams()`, with the state of the prototype before the call. -/
def getAllUrlParams (prototype : Prototype) (search : Text) : Except Error Object :=
  (pieces search).foldlM (iterate lower) (Object.empty prototype)

end

/-! ## Names -/

section

variable {name num : Text}

/-- A name without a bracket stays as it is. -/
theorem replaceBracket_eq_self (h : (replaceBracket name).2 = none) :
    replaceBracket name = (name, none) := by
  induction name with
  | nil => rfl
  | cons c cs ih =>
    unfold replaceBracket at h ⊢
    split at h
    case isTrue => cases h
    case isFalse hc =>
      rw [if_neg hc, ih h]

/-- The first bracket is the one behind a name without any. A `[` in the name has
no `]` right behind its digits, and none comes to stand there. -/
theorem replaceBracket_append (h : (replaceBracket name).2 = none)
    (hnum : ∀ c ∈ num, c.isDigit = true) :
    replaceBracket (name ++ '[' :: num ++ [']']) = (name, some num) := by
  induction name with
  | nil =>
    have hdrop : (num ++ [']']).dropWhile Char.isDigit = [']'] := by
      rw [List.dropWhile_append_of_pos hnum]
      rfl
    have htake : (num ++ [']']).takeWhile Char.isDigit = num := by
      rw [List.takeWhile_append_of_pos hnum]
      simp [List.takeWhile]
    simp [replaceBracket, hdrop, htake]
  | cons c cs ih =>
    unfold replaceBracket at h
    split at h
    case isTrue => cases h
    case isFalse hc =>
      have hc' : ¬ (c = '[' ∧
          ((cs ++ '[' :: num ++ [']']).dropWhile Char.isDigit).head? = some ']') := by
        rintro ⟨hbracket, hhead⟩
        refine hc ⟨hbracket, ?_⟩
        rw [List.append_assoc, List.dropWhile_append] at hhead
        split at hhead
        case isTrue => simp at hhead
        case isFalse hne =>
          cases hdrop : cs.dropWhile Char.isDigit with
          | nil => exact absurd (by simp [hdrop]) hne
          | cons d ds =>
            rw [hdrop] at hhead
            exact hhead
      rw [List.cons_append, List.cons_append, replaceBracket, if_neg hc', ih h]

end

/-! ## One value

What a value does depends on what the object has under its name. -/

/-- The value of a property that is not built in, after one more value. -/
def addValue (num : Option Text) (v : Text) : Option Value → Except Error Value
  | none => .ok (.text v)
  | some (.text s) => if s = [] then .ok (.text v) else ((Arr.single s).store num v).map .array
  | some (.array a) => (a.store num v).map .array
  | some .builtin => .error .typeError

section

variable {name v : Text} {num : Option Text} {obj obj' : Object} {x : Option Value} {y : Value}

theorem addParam_of_not_builtin (h : obj.get name ≠ some .builtin) :
    addParam name num v obj = (addValue num v (obj.get name)).map (obj.set name ·) := by
  unfold addParam addValue
  cases hget : obj.get name with
  | none => rfl
  | some x =>
    cases x with
    | text s =>
      by_cases hs : s = []
      · simp [hs, truthy, Except.map]
      · simp only [if_pos (truthy_text_iff.mpr hs), if_neg hs, map_map]
        cases num with
        | none => simp [asArray, Object.push, Arr.store, hget]
        | some key => simp [asArray, Object.put, Arr.store, hget, Except.map]
    | array a =>
      simp only [if_pos truthy_array, map_map]
      cases num with
      | none => simp [asArray, Object.push, Arr.store, hget]
      | some key => simp [asArray, Object.put, Arr.store, hget, Except.map]
    | builtin => exact absurd hget h

theorem addParam_of_builtin (h : obj.get name = some .builtin) :
    addParam name num v obj = match num with
      | none => .error .typeError
      | some key => .ok (obj.put name key v) := by
  unfold addParam
  rw [h, if_pos truthy_builtin]
  cases num <;> simp [asArray, Object.push, h]

theorem addValue_ne_builtin (h : addValue num v x = .ok y) : y ≠ .builtin := by
  unfold addValue at h
  split at h
  case h_1 => cases h; simp
  case h_2 s =>
    split at h
    · cases h; simp
    · obtain ⟨b, -, rfl⟩ := map_eq_ok_iff.mp h
      simp
  case h_3 a =>
    obtain ⟨b, -, rfl⟩ := map_eq_ok_iff.mp h
    simp
  case h_4 => cases h

/-- A value goes in without an exception exactly if it has an index, or is not to be
pushed onto a full array. -/
theorem addValue_ok_iff (h : x ≠ some .builtin) :
    (∃ y, addValue num v x = .ok y) ↔
      (num = none → ∀ a, x = some (.array a) → a.length < maxLength) := by
  unfold addValue
  split
  case h_1 => simp
  case h_2 s =>
    split
    · simp
    · rw [map_ok_iff, Arr.store_ok_iff]
      simp [Arr.single, maxLength]
  case h_3 a =>
    rw [map_ok_iff, Arr.store_ok_iff]
    simp
  case h_4 => exact absurd rfl h

/-! ### Objects of the loop -/

/-- An object as the loop leaves it. -/
structure Clean (obj : Object) : Prop where
  own_of_inherited : ∀ name ∈ inherited, obj.own name = none
  own_ne_builtin : ∀ name, obj.own name ≠ some .builtin

theorem Clean.empty {prototype : Prototype} : Clean (Object.empty prototype) :=
  ⟨fun _ _ => rfl, fun _ h => by cases h⟩

theorem Clean.set (h : Clean obj) (hname : name ∉ inherited) (hy : y ≠ .builtin) :
    Clean (obj.set name y) where
  own_of_inherited name' hname' := by
    have hne : name' ≠ name := by
      rintro rfl
      exact hname hname'
    rw [Object.own_set_of_ne hne]
    exact h.own_of_inherited name' hname'
  own_ne_builtin name' := by
    by_cases heq : name' = name
    · subst heq
      simpa [Object.set] using hy
    · rw [Object.own_set_of_ne heq]
      exact h.own_ne_builtin name'

theorem Clean.get_eq_builtin_iff (h : Clean obj) :
    obj.get name = some .builtin ↔ name ∈ inherited := by
  constructor
  · intro hget
    unfold Object.get at hget
    cases hown : obj.own name with
    | some x =>
      rw [hown] at hget
      exact absurd (hown.trans hget) (h.own_ne_builtin name)
    | none =>
      simp only [hown] at hget
      by_contra hname
      simp [hname] at hget
  · exact fun hname => Object.get_of_inherited (h.own_of_inherited name hname) hname

/-- What a value does: it goes into the object under its name, or under its index
into what all objects inherit. -/
theorem addParam_cases (h : addParam name num v obj = .ok obj') :
    (obj.get name ≠ some .builtin ∧
      ∃ y, addValue num v (obj.get name) = .ok y ∧ obj' = obj.set name y) ∨
    (obj.get name = some .builtin ∧ ∃ key, num = some key ∧ obj' = obj.put name key v) := by
  by_cases hget : obj.get name = some .builtin
  · rw [addParam_of_builtin hget] at h
    cases num with
    | none => cases h
    | some key => exact .inr ⟨hget, key, rfl, (Except.ok.inj h).symm⟩
  · rw [addParam_of_not_builtin hget] at h
    obtain ⟨y, hy, hobj⟩ := map_eq_ok_iff.mp h
    exact .inl ⟨hget, y, hy, hobj.symm⟩

theorem addParam_ok_iff (h : Clean obj) :
    (∃ obj', addParam name num v obj = .ok obj') ↔
      (num = none → name ∉ inherited ∧
        ∀ a, obj.get name = some (.array a) → a.length < maxLength) := by
  rw [← h.get_eq_builtin_iff]
  by_cases hget : obj.get name = some .builtin
  · rw [addParam_of_builtin hget]
    cases num <;> simp [hget]
  · rw [addParam_of_not_builtin hget, map_ok_iff, addValue_ok_iff hget]
    simp [hget]

end

end SmartDoor.Web
