-- SUMMARY: Which repeated parameters the parser collects without loss.
import SmartDoor.Web.Params

/-!
# Repeated parameters

The first value of a name is kept as a text and turned into an array when the
second one comes. The parser forgets the bracket of the first one, so it lands at
the index 0; it takes an empty text for an absent one, so an empty first value is
overwritten; and an empty bracket is the key of a property that is no element.
-/

namespace SmartDoor.Web

open Script

/-! ## Where a value belongs -/

/-- The parameter has the form `name[i]=value`. -/
def Param.Indexed (p : Param) : Prop := p.num ≠ none ∧ p.num ≠ some []

instance {p : Param} : Decidable p.Indexed := inferInstanceAs (Decidable (_ ∧ _))

/-- The number in the bracket. -/
def Param.index (p : Param) : Nat := Nat.ofDigitChars 10 (p.num.getD []) 0

/-- The index of a parameter that is the `j`th of its name: its own one, if it has one. -/
def Param.place (j : Nat) (p : Param) : Nat := if p.Indexed then p.index else j

/-- All parameters have one of the three forms, the indices being distinct. -/
def OneForm (ps : List Param) : Prop :=
  (∀ p ∈ ps, p.num = none) ∨ (∀ p ∈ ps, p.num = some []) ∨
    (∀ p ∈ ps, p.Indexed) ∧ (ps.map Param.index).Nodup

section

variable (lower : Text → Text)

/-- The array holds the value of every parameter at its place; those without an
index are all it holds. -/
structure Holds (ps : List Param) (a : Arr) : Prop where
  element : ∀ j (p : Param), ps[j]? = some p → a.props (numeral (p.place j)) = some (lower p.value)
  length_eq : (∀ p ∈ ps, ¬ p.Indexed) → a.length = ps.length

/-- The parser collects all parameters of the name, up to lower case. -/
def Collected (ps : List Param) (name : Text) : Prop :=
  ∃ obj a, getAllUrlParams lower .fresh (query ps) = .ok obj ∧
    obj.get name = some (.array a) ∧ Holds lower (occurrences lower name ps) a

/-- Nothing of the parameters `first :: rest` of a name is lost: the first one is
where the parser puts it, and each further index is the numeral of an element. -/
structure Kept (first : Param) (rest : List Param) : Prop where
  value_ne_nil : lower first.value ≠ []
  num_ne_nil : first.num ≠ some []
  index_eq_zero : first.Indexed → first.index = 0
  canonical : ∀ p ∈ rest, p.Indexed → p.num = some (numeral p.index)

end

/-! ## Parameters of one form

`w` is the first value, in lower case. -/

section OneForm

variable {lower : Text → Text} {ps : List Param} {first p : Param} {rest : List Param}
  {name w : Text} {x : Option Value} {a : Arr}

/-! ### Without an index -/

/-- Without a bracket, and with a first value that is not empty, the values are listed. -/
theorem plain_lists (hw : w ≠ []) (hplain : ∀ p ∈ rest, p.num = none)
    (h : rest.foldlM (nextValue lower) (some (.text w)) = .ok x) :
    (rest = [] ∧ x = some (.text w)) ∨
      ∃ a, x = some (.array a) ∧ a.Lists (w :: rest.map (lower ·.value)) := by
  induction rest using List.reverseRecOn generalizing x with
  | nil => exact .inl ⟨rfl, (Except.ok.inj h).symm⟩
  | append_singleton rest p ih =>
    obtain ⟨hrest, hp⟩ := List.forall_mem_append.mp hplain
    have hnum : p.num = none := hp p (by simp)
    obtain ⟨u, hu, hstep⟩ := foldlM_concat_eq_ok.mp h
    right
    obtain ⟨rfl, rfl⟩ | ⟨a, rfl, ha⟩ := ih hrest hu
    · obtain ⟨hnil, -⟩ | ⟨-, b, hb, rfl⟩ := nextValue_text hstep
      · exact absurd hnil hw
      · rw [hnum] at hb
        exact ⟨b, rfl, Arr.single_lists.push hb⟩
    · obtain ⟨b, hb, rfl⟩ := nextValue_array hstep
      rw [hnum] at hb
      refine ⟨b, rfl, ?_⟩
      rw [List.map_append, ← List.cons_append]
      exact ha.push hb

/-- Without a bracket, an empty first value makes the array too short. -/
theorem plain_short (hplain : ∀ p ∈ rest, p.num = none)
    (h : rest.foldlM (nextValue lower) (some (.text [])) = .ok x) :
    (∃ s, x = some (.text s) ∧ (s ≠ [] → rest ≠ [])) ∨
      ∃ a, x = some (.array a) ∧ a.length ≤ rest.length := by
  induction rest using List.reverseRecOn generalizing x with
  | nil => exact .inl ⟨[], (Except.ok.inj h).symm, by simp⟩
  | append_singleton rest p ih =>
    obtain ⟨hrest, hp⟩ := List.forall_mem_append.mp hplain
    have hnum : p.num = none := hp p (by simp)
    obtain ⟨u, hu, hstep⟩ := foldlM_concat_eq_ok.mp h
    rw [List.length_append, List.length_singleton]
    obtain ⟨s, rfl, hs⟩ | ⟨a, rfl, ha⟩ := ih hrest hu
    · obtain ⟨-, rfl⟩ | ⟨hne, b, hb, rfl⟩ := nextValue_text hstep
      · exact .inl ⟨_, rfl, by simp⟩
      · rw [hnum] at hb
        have hlength : b.length = 1 + 1 := (Arr.push_cases hb).1
        have hpos := List.length_pos_iff.mpr (hs hne)
        exact .inr ⟨b, rfl, by omega⟩
    · obtain ⟨b, hb, rfl⟩ := nextValue_array hstep
      rw [hnum] at hb
      have hlength := (Arr.push_cases hb).1
      exact .inr ⟨b, rfl, by omega⟩

/-- Empty brackets never make the array longer than one element. -/
theorem bracket_length (hbracket : ∀ p ∈ rest, p.num = some [])
    (h : rest.foldlM (nextValue lower) (some (.text w)) = .ok x) :
    (∃ s, x = some (.text s)) ∨ ∃ a, x = some (.array a) ∧ a.length = 1 := by
  induction rest using List.reverseRecOn generalizing x with
  | nil => exact .inl ⟨w, (Except.ok.inj h).symm⟩
  | append_singleton rest p ih =>
    obtain ⟨hrest, hp⟩ := List.forall_mem_append.mp hbracket
    have hnum : p.num = some [] := hp p (by simp)
    obtain ⟨u, hu, hstep⟩ := foldlM_concat_eq_ok.mp h
    obtain ⟨s, rfl⟩ | ⟨a, rfl, ha⟩ := ih hrest hu
    · obtain ⟨-, rfl⟩ | ⟨-, b, hb, rfl⟩ := nextValue_text hstep
      · exact .inl ⟨_, rfl⟩
      · rw [hnum] at hb
        obtain rfl := Except.ok.inj hb
        exact .inr ⟨_, rfl, by simp [Arr.put, Arr.single]⟩
    · obtain ⟨b, hb, rfl⟩ := nextValue_array hstep
      rw [hnum] at hb
      obtain rfl := Except.ok.inj hb
      exact .inr ⟨_, rfl, by simp [Arr.put, ha]⟩

/-! ### With an index -/

/-- A property of the array has been put there, or is the first text kept, under 0. -/
theorem indexed_props (hindexed : ∀ p ∈ rest, p.Indexed)
    (h : rest.foldlM (nextValue lower) (some (.text w)) = .ok x) :
    (∃ s, x = some (.text s)) ∨ ∃ a, x = some (.array a) ∧
      ∀ key v, a.props key = some v →
        (∃ p ∈ rest, p.num = some key) ∨ key = numeral 0 ∧ v ≠ [] := by
  induction rest using List.reverseRecOn generalizing x with
  | nil => exact .inl ⟨w, (Except.ok.inj h).symm⟩
  | append_singleton rest p ih =>
    obtain ⟨hrest, hp⟩ := List.forall_mem_append.mp hindexed
    obtain ⟨i, hnum⟩ := Option.ne_none_iff_exists'.mp (hp p (by simp)).1
    obtain ⟨u, hu, hstep⟩ := foldlM_concat_eq_ok.mp h
    obtain ⟨s, rfl⟩ | ⟨a, rfl, ha⟩ := ih hrest hu
    · obtain ⟨-, rfl⟩ | ⟨hne, b, hb, rfl⟩ := nextValue_text hstep
      · exact .inl ⟨_, rfl⟩
      · rw [hnum] at hb
        obtain rfl := Except.ok.inj hb
        refine .inr ⟨_, rfl, fun key v hv => ?_⟩
        obtain ⟨rfl, -⟩ | ⟨-, hv⟩ := Arr.put_props_eq_some.mp hv
        · exact .inl ⟨p, by simp, hnum⟩
        · obtain ⟨rfl, rfl⟩ := Arr.single_props_eq_some.mp hv
          exact .inr ⟨rfl, hne⟩
    · obtain ⟨b, hb, rfl⟩ := nextValue_array hstep
      rw [hnum] at hb
      obtain rfl := Except.ok.inj hb
      refine .inr ⟨_, rfl, fun key v hv => ?_⟩
      obtain ⟨rfl, -⟩ | ⟨-, hv⟩ := Arr.put_props_eq_some.mp hv
      · exact .inl ⟨p, by simp, hnum⟩
      · obtain ⟨q, hq, hqnum⟩ | hzero := ha key v hv
        · exact .inl ⟨q, by simp [hq], hqnum⟩
        · exact .inr hzero

/-- A first value that is not empty stays at 0, and the others where they are put. -/
theorem indexed_holds (hw : w ≠ []) (hindexed : ∀ p ∈ rest, p.Indexed)
    (hzero : ∀ p ∈ rest, p.num ≠ some (numeral 0)) (hnodup : (rest.map Param.num).Nodup)
    (h : rest.foldlM (nextValue lower) (some (.text w)) = .ok x) :
    (rest = [] ∧ x = some (.text w)) ∨ ∃ a, x = some (.array a) ∧
      a.props (numeral 0) = some w ∧
      ∀ p ∈ rest, ∀ i, p.num = some i → a.props i = some (lower p.value) := by
  induction rest using List.reverseRecOn generalizing x with
  | nil => exact .inl ⟨rfl, (Except.ok.inj h).symm⟩
  | append_singleton rest p ih =>
    obtain ⟨hindexed, hp⟩ := List.forall_mem_append.mp hindexed
    obtain ⟨hzero, hpzero⟩ := List.forall_mem_append.mp hzero
    rw [List.map_append] at hnodup
    obtain ⟨hnodup, -, hdisjoint⟩ := List.nodup_append.mp hnodup
    obtain ⟨i, hnum⟩ := Option.ne_none_iff_exists'.mp (hp p (by simp)).1
    have hi : numeral 0 ≠ i := fun heq => hpzero p (by simp) (by rw [hnum, heq])
    obtain ⟨u, hu, hstep⟩ := foldlM_concat_eq_ok.mp h
    right
    obtain ⟨rfl, rfl⟩ | ⟨a, rfl, hfirst, ha⟩ := ih hindexed hzero hnodup hu
    · obtain ⟨hnil, -⟩ | ⟨-, b, hb, rfl⟩ := nextValue_text hstep
      · exact absurd hnil hw
      · rw [hnum] at hb
        obtain rfl := Except.ok.inj hb
        refine ⟨_, rfl, Arr.put_props_eq_some.mpr (.inr ⟨hi, ?_⟩), fun q hq k hk => ?_⟩
        · exact Arr.single_props_eq_some.mpr ⟨rfl, rfl⟩
        · obtain rfl : q = p := by simpa using hq
          obtain rfl : i = k := Option.some.inj (hnum.symm.trans hk)
          exact Arr.put_props_eq_some.mpr (.inl ⟨rfl, rfl⟩)
    · obtain ⟨b, hb, rfl⟩ := nextValue_array hstep
      rw [hnum] at hb
      obtain rfl := Except.ok.inj hb
      refine ⟨_, rfl, Arr.put_props_eq_some.mpr (.inr ⟨hi, hfirst⟩), fun q hq k hk => ?_⟩
      obtain hold | hnew := List.mem_append.mp hq
      · have hne : k ≠ i := by
          rintro rfl
          exact hdisjoint _ (List.mem_map_of_mem hold) _ (List.mem_map_of_mem (by simp))
            (hk.trans hnum.symm)
        exact Arr.put_props_eq_some.mpr (.inr ⟨hne, ha q hold k hk⟩)
      · obtain rfl : q = p := by simpa using hnew
        obtain rfl : i = k := Option.some.inj (hnum.symm.trans hk)
        exact Arr.put_props_eq_some.mpr (.inl ⟨rfl, rfl⟩)

/-! ### All forms -/

theorem Param.not_indexed_of_none (h : p.num = none) : ¬ p.Indexed := fun hp => hp.1 h

theorem Param.not_indexed_of_nil (h : p.num = some []) : ¬ p.Indexed := fun hp => hp.2 h

/-- Parameters without an index are held in the order of their appearance. -/
theorem holds_iff_lists (h : ∀ p ∈ ps, ¬ p.Indexed) :
    Holds lower ps a ↔ a.Lists (ps.map (lower ·.value)) := by
  have hplace : ∀ j (p : Param), ps[j]? = some p → p.place j = j := fun j p hj =>
    if_neg (h p (List.mem_of_getElem? hj))
  constructor
  · intro hholds
    refine ⟨by simpa using hholds.length_eq h, fun j v hj => ?_⟩
    rw [List.getElem?_map] at hj
    obtain ⟨p, hp, rfl⟩ := Option.map_eq_some_iff.mp hj
    rw [← hholds.element j p hp, hplace j p hp]
  · intro hlists
    refine ⟨fun j p hp => ?_, fun _ => by simpa using hlists.length_eq⟩
    rw [hplace j p hp]
    exact hlists.element j _ (by rw [List.getElem?_map, hp]; rfl)

theorem foldlM_cons_none : (first :: rest).foldlM (nextValue lower) none =
    rest.foldlM (nextValue lower) (some (.text (lower first.value))) := rfl

theorem holds_iff_kept_of_plain (hrest : rest ≠ []) (hplain : ∀ p ∈ first :: rest, p.num = none)
    (h : (first :: rest).foldlM (nextValue lower) none = .ok x) :
    (∃ a, x = some (.array a) ∧ Holds lower (first :: rest) a) ↔ Kept lower first rest := by
  have hindexed : ∀ p ∈ first :: rest, ¬ p.Indexed := fun p hp =>
    Param.not_indexed_of_none (hplain p hp)
  obtain ⟨hfirst, htail⟩ := List.forall_mem_cons.mp hplain
  rw [foldlM_cons_none] at h
  constructor
  · rintro ⟨a, rfl, hholds⟩
    refine ⟨fun hw => ?_, by simp [hfirst], fun hi => absurd hi (hindexed first (by simp)),
      fun p hp hi => absurd hi (hindexed p (by simp [hp]))⟩
    rw [hw] at h
    obtain ⟨s, hs, -⟩ | ⟨b, hb, hlength⟩ := plain_short htail h
    · cases hs
    · obtain rfl : a = b := by simpa using hb
      rw [hholds.length_eq hindexed, List.length_cons] at hlength
      omega
  · intro hkept
    obtain ⟨hnil, -⟩ | ⟨a, rfl, hlists⟩ := plain_lists hkept.value_ne_nil htail h
    · exact absurd hnil hrest
    · exact ⟨a, rfl, (holds_iff_lists hindexed).mpr hlists⟩

theorem holds_iff_kept_of_bracket (hrest : rest ≠ [])
    (hbracket : ∀ p ∈ first :: rest, p.num = some [])
    (h : (first :: rest).foldlM (nextValue lower) none = .ok x) :
    (∃ a, x = some (.array a) ∧ Holds lower (first :: rest) a) ↔ Kept lower first rest := by
  have hindexed : ∀ p ∈ first :: rest, ¬ p.Indexed := fun p hp =>
    Param.not_indexed_of_nil (hbracket p hp)
  obtain ⟨hfirst, htail⟩ := List.forall_mem_cons.mp hbracket
  rw [foldlM_cons_none] at h
  refine iff_of_false ?_ fun hkept => hkept.num_ne_nil hfirst
  rintro ⟨a, rfl, hholds⟩
  obtain ⟨s, hs⟩ | ⟨b, hb, hlength⟩ := bracket_length htail h
  · cases hs
  · obtain rfl : a = b := by simpa using hb
    have hpos := List.length_pos_iff.mpr hrest
    rw [hholds.length_eq hindexed, List.length_cons] at hlength
    omega

theorem Param.index_of_num {n : Nat} (h : p.num = some (numeral n)) : p.index = n := by
  unfold Param.index
  rw [h]
  exact Nat.ofDigitChars_ten_toDigits

theorem holds_iff_kept_of_indexed (hrest : rest ≠ []) (hindexed : ∀ p ∈ first :: rest, p.Indexed)
    (hnodup : ((first :: rest).map Param.index).Nodup)
    (h : (first :: rest).foldlM (nextValue lower) none = .ok x) :
    (∃ a, x = some (.array a) ∧ Holds lower (first :: rest) a) ↔ Kept lower first rest := by
  obtain ⟨hfirst, htail⟩ := List.forall_mem_cons.mp hindexed
  obtain ⟨hnew, hnodup'⟩ := List.nodup_cons.mp hnodup
  have hne : ∀ p ∈ rest, p.index ≠ first.index := fun p hp heq =>
    hnew (heq ▸ List.mem_map_of_mem hp)
  have hplace : ∀ j, ∀ p ∈ first :: rest, p.place j = p.index := fun j p hp =>
    if_pos (hindexed p hp)
  rw [foldlM_cons_none] at h
  constructor
  · rintro ⟨a, rfl, hholds⟩
    obtain ⟨s, hs⟩ | ⟨b, hb, hprops⟩ := indexed_props htail h
    · cases hs
    obtain rfl : a = b := by simpa using hb
    have hstored : ∀ p ∈ first :: rest, a.props (numeral p.index) = some (lower p.value) :=
      fun p hp => by
        obtain ⟨j, hj⟩ := List.mem_iff_getElem?.mp hp
        rw [← hholds.element j p hj, hplace j p hp]
    have hzero : first.index = 0 ∧ lower first.value ≠ [] := by
      obtain ⟨q, hq, hqnum⟩ | ⟨hkey, hv⟩ := hprops _ _ (hstored first (by simp))
      · exact absurd (Param.index_of_num hqnum) (hne q hq)
      · exact ⟨numeral_injective hkey, hv⟩
    refine ⟨hzero.2, hfirst.2, fun _ => hzero.1, fun p hp _ => ?_⟩
    obtain ⟨q, hq, hqnum⟩ | ⟨hkey, -⟩ := hprops _ _ (hstored p (by simp [hp]))
    · have heq : q = p := List.inj_on_of_nodup_map hnodup' hq hp (Param.index_of_num hqnum)
      rwa [heq] at hqnum
    · exact absurd ((numeral_injective hkey).trans hzero.1.symm) (hne p hp)
  · intro hkept
    have hzero := hkept.index_eq_zero hfirst
    have hnum : ∀ p ∈ rest, p.num = some (numeral p.index) := fun p hp =>
      hkept.canonical p hp (htail p hp)
    have hne_zero : ∀ p ∈ rest, p.num ≠ some (numeral 0) := fun p hp heq =>
      hne p hp ((Param.index_of_num heq).trans hzero.symm)
    have hnodup_num : (rest.map Param.num).Nodup := by
      have hmap : rest.map Param.num = (rest.map Param.index).map fun n => some (numeral n) := by
        rw [List.map_map]
        exact List.map_congr_left hnum
      rw [hmap]
      exact hnodup'.map fun m n heq => numeral_injective (Option.some.inj heq)
    obtain ⟨hnil, -⟩ | ⟨a, rfl, hw, hvalues⟩ :=
      indexed_holds hkept.value_ne_nil htail hne_zero hnodup_num h
    · exact absurd hnil hrest
    · refine ⟨a, rfl, fun j p hj => ?_, fun hnot => absurd hfirst (hnot first (by simp))⟩
      have hp := List.mem_of_getElem? hj
      rw [hplace j p hp]
      obtain rfl | hp := List.mem_cons.mp hp
      · rw [hzero, hw]
      · exact hvalues p hp _ (hnum p hp)

theorem holds_iff_kept (hrest : rest ≠ []) (hform : OneForm (first :: rest))
    (h : (first :: rest).foldlM (nextValue lower) none = .ok x) :
    (∃ a, x = some (.array a) ∧ Holds lower (first :: rest) a) ↔ Kept lower first rest := by
  obtain hplain | hbracket | ⟨hindexed, hnodup⟩ := hform
  · exact holds_iff_kept_of_plain hrest hplain h
  · exact holds_iff_kept_of_bracket hrest hbracket h
  · exact holds_iff_kept_of_indexed hrest hindexed hnodup h

/-! ## The whole query string -/

/-- The parameters of a name that come more than once, all in one form, are
collected exactly if the parser raises no exception and nothing of them is lost. -/
theorem collected_iff_kept (hps : OwnNames lower ps)
    (hocc : occurrences lower name ps = first :: rest) (hrest : rest ≠ [])
    (hform : OneForm (first :: rest)) :
    Collected lower ps name ↔ Lists.Everywhere (Fits lower) ps ∧ Kept lower first rest := by
  have hname : name ∉ inherited := by
    have hmem : first ∈ occurrences lower name ps := by simp [hocc]
    obtain ⟨hfirst, heq⟩ := List.mem_filter.mp hmem
    rw [← of_decide_eq_true heq]
    exact hps first hfirst
  rw [← query_ok_iff]
  have hcollects : ∀ obj, getAllUrlParams lower .fresh (query ps) = .ok obj →
      (occurrences lower name ps).foldlM (nextValue lower) none = .ok (obj.get name) :=
    fun obj h => (collects hps h).get_eq name hname
  unfold Collected
  rw [hocc] at hcollects ⊢
  constructor
  · rintro ⟨obj, a, hobj, ha, hholds⟩
    exact ⟨⟨obj, hobj⟩, (holds_iff_kept hrest hform (hcollects obj hobj)).mp ⟨a, ha, hholds⟩⟩
  · rintro ⟨⟨obj, hobj⟩, hkept⟩
    obtain ⟨a, ha, hholds⟩ := (holds_iff_kept hrest hform (hcollects obj hobj)).mpr hkept
    exact ⟨obj, a, hobj, ha, hholds⟩

end OneForm

/-! ### Two things -/

/-- `list=thing1&list=thing2`. -/
def plainThings : List Param :=
  [.plain "list".toList "thing1".toList (by decide) (by decide),
    .plain "list".toList "thing2".toList (by decide) (by decide)]

/-- The parameter with an empty bracket. -/
def Param.withBracket (p : Param) : Param :=
  { p with num := some [], num_digits := fun _ hi _ hc => by cases hi; cases hc }

/-- `list[]=thing1&list[]=thing2`. -/
def bracketThings : List Param := plainThings.map Param.withBracket

theorem collected_iff_kept_plainThings :
    Collected (List.map Char.toLower) plainThings "list".toList := by
  have hocc : occurrences (List.map Char.toLower) "list".toList plainThings = plainThings := rfl
  refine (collected_iff_kept (by decide) hocc (by simp) (.inl (by decide))).mpr
    ⟨query_ok_iff.mp ⟨_, rfl⟩, by decide, by decide, fun hi => ?_, fun p hp hi => ?_⟩
  · exact absurd hi (by decide)
  · obtain rfl := List.mem_singleton.mp hp
    exact absurd hi (by decide)

theorem bracketThings_not_collected :
    ¬ Collected (List.map Char.toLower) bracketThings "list".toList := by
  have hocc : occurrences (List.map Char.toLower) "list".toList bracketThings = bracketThings := rfl
  rintro ⟨obj, a, hobj, ha, hholds⟩
  have hget := (collects (by decide) hobj).get_eq "list".toList (by decide)
  rw [hocc] at hget hholds
  exact ((holds_iff_kept_of_bracket (by simp) (by decide) hget).mp ⟨a, ha, hholds⟩).num_ne_nil rfl

end SmartDoor.Web
