-- SUMMARY: Values of a script language: texts, arrays and objects that inherit from one shared prototype, and folds that may raise an exception.
import Mathlib.Logic.Function.Basic
import Mathlib.Data.List.Induction
import Mathlib.Data.List.TakeWhile
import SmartDoor.Base.Lists

/-!
# Values of a script

What a script that cuts texts apart and collects them in an object needs of
JavaScript: texts, arrays whose elements are texts, and an object that falls back
on the shared prototype of all objects. An array is its length with the
properties under all keys; only the canonical numerals below the greatest length
are indices and count for the length. The prototype has its built-in properties,
and may have got further ones, which are texts.
-/

namespace Script

abbrev Text := List Char

/-- The two exceptions. -/
inductive Error where
  | typeError
  | rangeError
  deriving DecidableEq, Repr

/-! ## Texts up to a separator -/

section Separator

variable {c : Char} {s t : Text}

theorem takeWhile_ne_append : (s ++ c :: t).takeWhile (· ≠ c) = s.takeWhile (· ≠ c) := by
  induction s with
  | nil => simp
  | cons d s ih =>
    by_cases h : d = c
    · simp [h]
    · simpa [h] using ih

theorem takeWhile_ne_eq_self (h : c ∉ s) : s.takeWhile (· ≠ c) = s := by
  refine List.takeWhile_eq_self_iff.mpr fun d hd => ?_
  have hne : d ≠ c := fun heq => h (heq ▸ hd)
  simpa using hne

theorem dropWhile_ne_append (h : c ∉ s) : (s ++ c :: t).dropWhile (· ≠ c) = c :: t := by
  have hall : ∀ d ∈ s, decide (d ≠ c) = true := fun d hd => by
    have hne : d ≠ c := fun heq => h (heq ▸ hd)
    simpa using hne
  rw [List.dropWhile_append_of_pos hall, List.dropWhile_cons_of_neg (by simp)]

/-- The second character of a separator can be taken for the first one of each later text. -/
theorem intercalate_pair {d : Char} {l : List Text} :
    List.intercalate [c, d] (s :: l) = List.intercalate [c] (s :: l.map (d :: ·)) := by
  induction l generalizing s with
  | nil => simp
  | cons t l ih =>
    rw [List.intercalate_cons_cons, List.map_cons, List.intercalate_cons_cons, ih,
      List.intercalate_cons_cons_left]
    simp

theorem not_mem_intercalate {d : Char} {l : List Text} (hd : c ≠ d) (hl : ∀ s ∈ l, c ∉ s) :
    c ∉ List.intercalate [d] l := by
  induction l with
  | nil => simp
  | cons s l ih =>
    obtain ⟨hs, hl⟩ := List.forall_mem_cons.mp hl
    cases l with
    | nil => simpa using hs
    | cons t l =>
      rw [List.intercalate_cons_cons, List.append_assoc]
      simp [hs, hd, ih hl]

end Separator

/-! ## Arrays -/

/-- The numeral that is the key of the index `n`. -/
def numeral (n : Nat) : Text := Nat.toDigits 10 n

/-- The greatest length of an array, 2³² − 1. -/
def maxLength : Nat := 4294967295

/-- The index that a key stands for. -/
def arrayIndex? (key : Text) : Option Nat :=
  let n := Nat.ofDigitChars 10 key 0
  if numeral n = key ∧ n < maxLength then some n else none

structure Arr where
  length : Nat
  props : Text → Option Text

namespace Arr

/-- `[s]`. -/
def single (s : Text) : Arr := ⟨1, Function.update (fun _ => none) (numeral 0) (some s)⟩

/-- `a[key] = v`. -/
def put (key v : Text) (a : Arr) : Arr where
  length := match arrayIndex? key with
    | some n => max a.length (n + 1)
    | none => a.length
  props := Function.update a.props key (some v)

/-- `a.push(v)`. -/
def push (v : Text) (a : Arr) : Except Error Arr :=
  if a.length < maxLength then
    .ok ⟨a.length + 1, Function.update a.props (numeral a.length) (some v)⟩
  else .error .rangeError

/-- `a[key] = v` if there is a key, `a.push(v)` if there is none. -/
def store (key : Option Text) (v : Text) (a : Arr) : Except Error Arr :=
  match key with
  | none => a.push v
  | some key => .ok (a.put key v)

end Arr

/-! ## Objects -/

/-- What a property can hold. Of the built-in values only that they are neither
texts nor arrays is kept. -/
inductive Value where
  | text (s : Text)
  | array (a : Arr)
  | builtin

/-- `if (value)`. -/
def truthy : Option Value → Bool
  | none => false
  | some (.text s) => s ≠ []
  | some (.array _) => true
  | some .builtin => true

/-- The built-in properties of the prototype. -/
def inherited : List Text :=
  ["__proto__", "constructor", "hasOwnProperty", "isPrototypeOf", "propertyIsEnumerable",
    "toLocaleString", "toString", "valueOf", "__defineGetter__", "__defineSetter__",
    "__lookupGetter__", "__lookupSetter__"].map String.toList

/-- The further properties of the prototype. -/
abbrev Prototype := Text → Option Text

/-- The prototype before a script has run. -/
def Prototype.fresh : Prototype := fun _ => none

/-- An object with its own properties, and the prototype it shares with all others. -/
structure Object where
  own : Text → Option Value
  prototype : Prototype

namespace Object

/-- `{}`. -/
def empty (prototype : Prototype) : Object := ⟨fun _ => none, prototype⟩

/-- `obj[name]`. -/
def get (o : Object) (name : Text) : Option Value :=
  match o.own name with
  | some v => some v
  | none => if name ∈ inherited then some .builtin else (o.prototype name).map .text

/-- `obj[name] = v`, for a name that is not built in. -/
def set (name : Text) (v : Value) (o : Object) : Object :=
  { o with own := Function.update o.own name (some v) }

/-- `obj[name].push(v)`. -/
def push (name v : Text) (o : Object) : Except Error Object :=
  match o.get name with
  | some (.array a) => (a.push v).map fun a => o.set name (.array a)
  | _ => .error .typeError

/-- `obj[name][key] = v`, for a property that is no text. Under `__proto__` it is
the prototype that changes; what a built-in function is given is not read again. -/
def put (name key v : Text) (o : Object) : Object :=
  match o.get name with
  | some (.array a) => o.set name (.array (a.put key v))
  | some .builtin =>
    if name = "__proto__".toList then
      { o with prototype := Function.update o.prototype key (some v) }
    else o
  | _ => o

end Object

/-! ## Numerals -/

theorem numeral_injective {m n : Nat} (h : numeral m = numeral n) : m = n := by
  have hdigits := congrArg (fun key => Nat.ofDigitChars 10 key 0) h
  simpa [numeral, Nat.ofDigitChars_ten_toDigits] using hdigits

@[simp] theorem arrayIndex?_nil : arrayIndex? [] = none := by
  unfold arrayIndex?
  exact if_neg fun h => Nat.toDigits_ne_nil h.1

/-! ## Elements of arrays -/

section Elements

variable {a b : Arr} {key key' s v u : Text} {vs : List Text}

theorem Arr.single_props_eq_some : (Arr.single s).props key = some v ↔ key = numeral 0 ∧ s = v := by
  unfold Arr.single
  by_cases h : key = numeral 0
  · subst h
    simp
  · simp [h]

theorem Arr.put_props_eq_some : (a.put key v).props key' = some u ↔
    (key' = key ∧ v = u) ∨ (key' ≠ key ∧ a.props key' = some u) := by
  unfold Arr.put
  by_cases h : key' = key
  · subst h
    simp
  · simp [h]

/-- The elements are `vs`, in this order. -/
structure Arr.Lists (a : Arr) (vs : List Text) : Prop where
  length_eq : a.length = vs.length
  element : ∀ j v, vs[j]? = some v → a.props (numeral j) = some v

theorem Arr.single_lists : (Arr.single s).Lists [s] where
  length_eq := rfl
  element j v h := by
    obtain ⟨hj, rfl⟩ := List.getElem?_eq_some_iff.mp h
    obtain rfl : j = 0 := by simpa using hj
    simp [Arr.single]

theorem Arr.push_cases (h : a.push v = .ok b) : b.length = a.length + 1 ∧
    b.props = Function.update a.props (numeral a.length) (some v) := by
  unfold Arr.push at h
  split at h
  case isTrue =>
    obtain rfl := Except.ok.inj h
    exact ⟨rfl, rfl⟩
  case isFalse => cases h

theorem Arr.Lists.push (h : a.Lists vs) (hpush : a.push v = .ok b) : b.Lists (vs ++ [v]) := by
  obtain ⟨hlength, hprops⟩ := Arr.push_cases hpush
  refine ⟨by simp [hlength, h.length_eq], fun j w hj => ?_⟩
  rw [hprops]
  obtain hold | ⟨rfl, rfl⟩ := Lists.getElem?_concat_eq_some hj
  · have hne : numeral j ≠ numeral a.length := fun heq => by
      have hlt := (List.getElem?_eq_some_iff.mp hold).1
      rw [numeral_injective heq, h.length_eq] at hlt
      exact Nat.lt_irrefl _ hlt
    rw [Function.update_of_ne hne]
    exact h.element j w hold
  · rw [← h.length_eq, Function.update_self]

end Elements

/-! ## Properties -/

section Properties

variable {o : Object} {name name' key v : Text} {num : Option Text} {x y : Value} {a : Arr}

/-- An array takes every value but one more at its greatest length. -/
theorem Arr.store_ok_iff :
    (∃ b, a.store num v = .ok b) ↔ (num = none → a.length < maxLength) := by
  unfold Arr.store Arr.push
  cases num with
  | none => by_cases h : a.length < maxLength <;> simp [h]
  | some key => simp

@[simp] theorem Object.set_prototype : (o.set name x).prototype = o.prototype := rfl

@[simp] theorem Object.get_set_self : (o.set name x).get name = some x := by
  simp [Object.get, Object.set]

theorem Object.get_set_of_ne (h : name' ≠ name) : (o.set name x).get name' = o.get name' := by
  simp [Object.get, Object.set, h]

@[simp] theorem Object.set_set : (o.set name y).set name x = o.set name x := by
  simp [Object.set]

theorem Object.own_set_of_ne (h : name' ≠ name) : (o.set name x).own name' = o.own name' := by
  simp [Object.set, h]

theorem Object.get_of_inherited (hown : o.own name = none) (h : name ∈ inherited) :
    o.get name = some .builtin := by
  simp [Object.get, hown, h]

theorem Object.get_of_not_inherited (hproto : o.prototype name = none) (h : name ∉ inherited) :
    o.get name = o.own name := by
  unfold Object.get
  cases hown : o.own name with
  | some x => rfl
  | none => simp [h, hproto]

@[simp] theorem truthy_none : truthy none = false := rfl

@[simp] theorem truthy_array : truthy (some (.array a)) = true := rfl

@[simp] theorem truthy_builtin : truthy (some .builtin) = true := rfl

@[simp] theorem truthy_text_iff {s : Text} : truthy (some (.text s)) = true ↔ s ≠ [] := by
  simp [truthy]

end Properties

/-! ## Folds that may raise an exception -/

section Fold

variable {σ τ α ε : Type} {step : σ → α → Except ε σ} {s t : σ} {as : List α} {a : α}
  {r : Except ε σ} {f : σ → τ} {y : τ}

theorem map_map {υ : Type} {g : τ → υ} : (r.map f).map g = r.map fun x => g (f x) := by
  cases r <;> rfl

theorem map_eq_ok_iff : r.map f = .ok y ↔ ∃ x, r = .ok x ∧ f x = y := by
  cases r <;> simp [Except.map]

theorem bind_ok_iff {f : σ → Except ε τ} :
    (∃ y, (r >>= f) = .ok y) ↔ ∃ x, r = .ok x ∧ ∃ y, f x = .ok y := by
  cases r <;> simp [bind, Except.bind]

theorem map_ok_iff : (∃ y, r.map f = .ok y) ↔ ∃ x, r = .ok x := by
  cases r <;> simp [Except.map]

theorem foldlM_concat_eq_ok :
    (as ++ [a]).foldlM step s = .ok t ↔ ∃ u, as.foldlM step s = .ok u ∧ step u a = .ok t := by
  rw [List.foldlM_append]
  cases h : as.foldlM step s with
  | error e => simp [bind, Except.bind]
  | ok u => cases ha : step u a <;> simp [bind, Except.bind, pure, Except.pure, ha]

/-- What each step keeps holds after a fold without an exception. -/
theorem foldlM_induction {I : List α → σ → Prop} (hs : I [] s)
    (hstep : ∀ as a u t, I as u → step u a = .ok t → I (as ++ [a]) t)
    (h : as.foldlM step s = .ok t) : I as t := by
  induction as using List.reverseRecOn generalizing t with
  | nil =>
    obtain rfl : s = t := Except.ok.inj h
    exact hs
  | append_singleton as a ih =>
    obtain ⟨u, hu, ha⟩ := foldlM_concat_eq_ok.mp h
    exact hstep as a u t (ih hu) ha

end Fold

end Script
