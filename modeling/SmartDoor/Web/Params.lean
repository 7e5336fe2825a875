-- SUMMARY: Query strings made of parameters with a name, perhaps a bracket, and a value, and what the parser does with them name by name.
import SmartDoor.Web.Exceptions

/-!
# Parameters

Where every piece of the query string is a parameter, the parser puts each value
under its name, and what it has under one name in the end depends on the parameters
of this name only.
-/

namespace SmartDoor.Web

open Script

/-! ## Parameters -/

/-- The text has none of the characters `seps`. -/
def FreeOf (seps : List Char) (s : Text) : Prop := ∀ c ∈ s, c ∉ seps

instance {seps : List Char} {s : Text} : Decidable (FreeOf seps s) :=
  decidable_of_iff (s.all fun c => c ∉ seps) (by simp [FreeOf])

/-- A text without the separators of a query string. -/
abbrev Plain (s : Text) : Prop := FreeOf ['&', '#', '='] s

/-- A parameter `name=value`, `name[]=value` or `name[i]=value`; `num` is what
stands in the bracket, if there is one. -/
structure Param where
  name : Text
  num : Option Text
  value : Text
  name_plain : Plain name
  name_no_bracket : (replaceBracket name).2 = none
  num_digits : ∀ i ∈ num, ∀ c ∈ i, c.isDigit = true
  value_plain : Plain value

/-- `name=value`. -/
def Param.plain (name value : Text) (hname : Plain name ∧ (replaceBracket name).2 = none)
    (hvalue : Plain value) : Param where
  name := name
  num := none
  value := value
  name_plain := hname.1
  name_no_bracket := hname.2
  num_digits := fun _ hi => by cases hi
  value_plain := hvalue

/-- The name with its bracket. -/
def Param.key (p : Param) : Text :=
  match p.num with
  | none => p.name
  | some i => p.name ++ '[' :: i ++ [']']

def Param.text (p : Param) : Text := p.key ++ '=' :: p.value

/-- `window.location.search` for the parameters `ps`. -/
def query (ps : List Param) : Text := '?' :: List.intercalate ['&'] (ps.map Param.text)

/-- The parameters of a name, in the order of their appearance. -/
def occurrences (lower : Text → Text) (name : Text) (ps : List Param) : List Param :=
  ps.filter (lower ·.name = name)

/-! ## Pieces -/

variable {lower : Text → Text} {prototype : Prototype} {name s : Text} {ps : List Param}
  {p : Param} {obj obj' : Object}

theorem FreeOf.not_mem {seps : List Char} {c : Char} (h : FreeOf seps s) (hc : c ∈ seps) :
    c ∉ s :=
  fun hmem => h c hmem hc

theorem FreeOf.mono {seps seps' : List Char} (h : FreeOf seps s) (hsub : seps' ⊆ seps) :
    FreeOf seps' s :=
  fun c hmem hc => h c hmem (hsub hc)

theorem Param.key_plain : Plain p.key := by
  unfold Param.key
  cases hnum : p.num with
  | none => exact p.name_plain
  | some i =>
    have hdigits : Plain i := fun c hc hsep => by
      have hdigit := p.num_digits i hnum c hc
      have hsep : c = '&' ∨ c = '#' ∨ c = '=' := by simpa using hsep
      obtain rfl | rfl | rfl := hsep
      all_goals exact absurd hdigit (by decide)
    have hbracket : Plain ('[' :: (i ++ [']'])) :=
      List.forall_mem_cons.mpr ⟨by decide, List.forall_mem_append.mpr ⟨hdigits, by simp⟩⟩
    dsimp only
    rw [List.append_assoc]
    exact List.forall_mem_append.mpr ⟨p.name_plain, hbracket⟩

theorem Param.text_not_mem {c : Char} (hc : c ∈ ['&', '#']) : c ∉ p.text := by
  have hne : c ≠ '=' := by
    rintro rfl
    revert hc
    decide
  have hsep : c ∈ ['&', '#', '='] := by
    simp only [List.mem_cons, List.not_mem_nil, or_false] at hc ⊢
    exact hc.imp_right .inl
  unfold Param.text
  simp [p.key_plain.not_mem hsep, p.value_plain.not_mem hsep, hne]

theorem Param.splitOn_text : p.text.splitOn '=' = [p.key, p.value] := by
  unfold Param.text
  rw [List.splitOn_append_cons_self_of_not_mem (p.key_plain.not_mem (by simp)),
    List.splitOn_eq_singleton (p.value_plain.not_mem (by simp))]

theorem Param.replaceBracket_key : replaceBracket p.key = (p.name, p.num) := by
  unfold Param.key
  cases hnum : p.num with
  | none => exact replaceBracket_eq_self p.name_no_bracket
  | some i => exact replaceBracket_append p.name_no_bracket (p.num_digits i hnum)

theorem paramName_text : paramName lower p.text = lower p.name := by
  rw [paramName, p.splitOn_text, List.headD_cons, p.replaceBracket_key]

theorem paramNum_text : paramNum p.text = p.num := by
  rw [paramNum, p.splitOn_text, List.headD_cons, p.replaceBracket_key]

theorem paramValue_text : paramValue prototype p.text = some p.value := by
  rw [paramValue, p.splitOn_text]
  rfl

theorem iterate_text :
    iterate lower obj p.text = addParam (lower p.name) p.num (lower p.value) obj := by
  rw [iterate, paramValue_text, paramName_text, paramNum_text]

theorem pieces_query : pieces (query ps) = ps.map Param.text := by
  have hplain : ∀ c ∈ ['&', '#'], ∀ s ∈ ps.map Param.text, c ∉ s := fun c hc s hs => by
    obtain ⟨p, -, rfl⟩ := List.mem_map.mp hs
    exact p.text_not_mem hc
  unfold pieces query
  rw [List.drop_one, List.tail_cons]
  split
  case isTrue hnil =>
    cases ps with
    | nil => rfl
    | cons p ps =>
      cases htext : p.text with
      | nil => simp [Param.text] at htext
      | cons c cs =>
        rw [List.map_cons, htext, List.intercalate_cons_cons_left] at hnil
        cases hnil
  case isFalse hne =>
    have hps : ps.map Param.text ≠ [] := by
      rintro hnil
      rw [hnil] at hne
      exact hne rfl
    rw [List.splitOn_eq_singleton (not_mem_intercalate (by decide) (hplain '#' (by simp))),
      List.headD_cons, List.splitOn_intercalate '&' (hplain '&' (by simp)) hps]

/-! ## Name by name -/

theorem getAllUrlParams_query :
    getAllUrlParams lower prototype (query ps) =
      ps.foldlM (fun obj p => addParam (lower p.name) p.num (lower p.value) obj)
        (Object.empty prototype) := by
  unfold getAllUrlParams
  rw [pieces_query, List.foldlM_map]
  simp only [iterate_text]

theorem occurrences_concat : occurrences lower name (ps ++ [p]) =
    if lower p.name = name then occurrences lower name ps ++ [p]
    else occurrences lower name ps := by
  unfold occurrences
  by_cases h : lower p.name = name <;> simp [h]

/-- The names of all parameters are free to use. -/
def OwnNames (lower : Text → Text) (ps : List Param) : Prop :=
  ∀ p ∈ ps, lower p.name ∉ inherited

instance : Decidable (OwnNames lower ps) := inferInstanceAs (Decidable (∀ p ∈ ps, _))

/-- One more parameter of a name whose property is not built in. -/
def nextValue (lower : Text → Text) (x : Option Value) (p : Param) : Except Error (Option Value) :=
  (addValue p.num (lower p.value) x).map some

/-- What the loop keeps if all names are free to use. -/
structure Collects (lower : Text → Text) (ps : List Param) (obj : Object) : Prop where
  clean : Clean obj
  prototype_eq : obj.prototype = .fresh
  get_eq : ∀ name ∉ inherited,
    (occurrences lower name ps).foldlM (nextValue lower) none = .ok (obj.get name)

theorem Collects.addParam (h : Collects lower ps obj) (hp : lower p.name ∉ inherited)
    (hstep : Web.addParam (lower p.name) p.num (lower p.value) obj = .ok obj') :
    Collects lower (ps ++ [p]) obj' := by
  obtain ⟨-, y, hy, rfl⟩ | ⟨hget, -⟩ := addParam_cases hstep
  · refine ⟨h.clean.set hp (addValue_ne_builtin hy), h.prototype_eq, fun name hname => ?_⟩
    rw [occurrences_concat]
    split
    case isTrue heq =>
      subst heq
      rw [foldlM_concat_eq_ok, Object.get_set_self]
      exact ⟨_, h.get_eq _ hname, map_eq_ok_iff.mpr ⟨y, hy, rfl⟩⟩
    case isFalse hne =>
      rw [Object.get_set_of_ne (Ne.symm hne)]
      exact h.get_eq name hname
  · exact absurd (h.clean.get_eq_builtin_iff.mp hget) hp

theorem collects (hps : OwnNames lower ps)
    (h : getAllUrlParams lower .fresh (query ps) = .ok obj) : Collects lower ps obj := by
  rw [getAllUrlParams_query] at h
  induction ps using List.reverseRecOn generalizing obj with
  | nil =>
    obtain rfl : Object.empty .fresh = obj := Except.ok.inj h
    refine ⟨.empty, rfl, fun name hname => ?_⟩
    rw [Object.get_of_not_inherited rfl hname]
    rfl
  | append_singleton ps p ih =>
    obtain ⟨u, hu, hp⟩ := foldlM_concat_eq_ok.mp h
    obtain ⟨hps, hown⟩ := List.forall_mem_append.mp hps
    exact (ih hps hu).addParam (hown p (by simp)) hp

/-! ### One more value -/

section NextValue

variable {x y : Option Value} {a : Arr}

theorem nextValue_text (h : nextValue lower (some (.text s)) p = .ok y) :
    (s = [] ∧ y = some (.text (lower p.value))) ∨
      s ≠ [] ∧ ∃ b, (Arr.single s).store p.num (lower p.value) = .ok b ∧ y = some (.array b) := by
  unfold nextValue addValue at h
  obtain ⟨z, hz, rfl⟩ := map_eq_ok_iff.mp h
  dsimp only at hz
  split at hz
  case isTrue hs =>
    obtain rfl := Except.ok.inj hz
    exact .inl ⟨hs, rfl⟩
  case isFalse hs =>
    obtain ⟨b, hb, rfl⟩ := map_eq_ok_iff.mp hz
    exact .inr ⟨hs, b, hb, rfl⟩

theorem nextValue_array (h : nextValue lower (some (.array a)) p = .ok y) :
    ∃ b, a.store p.num (lower p.value) = .ok b ∧ y = some (.array b) := by
  unfold nextValue addValue at h
  obtain ⟨z, hz, rfl⟩ := map_eq_ok_iff.mp h
  obtain ⟨b, hb, rfl⟩ := map_eq_ok_iff.mp hz
  exact ⟨b, hb, rfl⟩

theorem nextValue_truthy (h : nextValue lower x p = .ok y) :
    truthy y = true ↔ truthy x = true ∨ lower p.value ≠ [] := by
  cases x with
  | none =>
    obtain rfl := Except.ok.inj h
    simp
  | some x =>
    cases x with
    | text s =>
      obtain ⟨hs, rfl⟩ | ⟨hs, b, -, rfl⟩ := nextValue_text h
      · simp [hs]
      · simp [hs]
    | array a =>
      obtain ⟨b, -, rfl⟩ := nextValue_array h
      simp
    | builtin => cases h

/-- The value is a text exactly if there was none, or an empty one. -/
theorem nextValue_eq_text_iff (h : nextValue lower x p = .ok y) :
    y = some (.text s) ↔ truthy x = false ∧ lower p.value = s := by
  cases x with
  | none =>
    obtain rfl := Except.ok.inj h
    simp
  | some x =>
    cases x with
    | text t =>
      obtain ⟨ht, rfl⟩ | ⟨ht, b, -, rfl⟩ := nextValue_text h
      · simp [ht, truthy]
      · simp [ht, truthy]
    | array a =>
      obtain ⟨b, -, rfl⟩ := nextValue_array h
      simp
    | builtin => cases h

theorem truthy_iff (h : ps.foldlM (nextValue lower) none = .ok x) :
    truthy x = true ↔ ∃ p ∈ ps, lower p.value ≠ [] := by
  induction ps using List.reverseRecOn generalizing x with
  | nil =>
    obtain rfl := Except.ok.inj h
    simp
  | append_singleton ps p ih =>
    obtain ⟨u, hu, hstep⟩ := foldlM_concat_eq_ok.mp h
    rw [nextValue_truthy hstep, ih hu]
    simp [or_and_right, exists_or]

end NextValue

/-! ## Exceptions -/

/-- The parameter raises no exception after those of `pre`: without a bracket, its
name is free to use and has no full array. -/
def Fits (lower : Text → Text) (pre : List Param) (p : Param) : Prop :=
  p.num = none → lower p.name ∉ inherited ∧
    ∀ obj a, getAllUrlParams lower .fresh (query pre) = .ok obj →
      obj.get (lower p.name) = some (.array a) → a.length < maxLength

theorem accepted_text_iff {pre : List Param} :
    Accepted lower .fresh (pre.map Param.text) p.text ↔ Fits lower pre p := by
  unfold Fits getAllUrlParams
  rw [pieces_query, ← @paramName_text lower p, ← @paramNum_text p]
  constructor
  · intro h hnum
    exact ⟨fun hmem => h.inherited_numbered hmem hnum, h.has_room hnum⟩
  · intro h
    have hvalue : '=' ∈ p.text := by simp [Param.text]
    exact ⟨.inl hvalue, fun hmem hnum => (h hnum).1 hmem, fun hnum => (h hnum).2⟩

theorem query_ok_iff :
    (∃ obj, getAllUrlParams lower .fresh (query ps) = .ok obj) ↔
      Lists.Everywhere (Fits lower) ps := by
  rw [getAllUrlParams_ok_iff, Accepts, pieces_query, Lists.everywhere_map]
  simp only [accepted_text_iff]

end SmartDoor.Web
