-- SUMMARY: Which query strings the parser accepts, and with it the constructor of the page.
import SmartDoor.Base.Lists
import SmartDoor.Web.App

/-!
# Exceptions of the parser

An iteration has three ways to fail. A piece without `=` has no value to change to
lower case; only a property "1" of the prototype, which an earlier `__proto__[1]`
puts there, stands in for it. A name that every object inherits has a value that is
no array, so nothing can be pushed onto it. An array of the greatest length takes
no further element.
-/

namespace SmartDoor.Web

open Script Lists

variable {lower : Text → Text} {prototype : Prototype} {search piece : Text} {pre : List Text}
  {obj obj' : Object}

/-! ## What is accepted -/

section

variable (lower : Text → Text) (prototype : Prototype)

/-- The piece gives the prototype its property "1". -/
def SetsOne (piece : Text) : Prop :=
  paramName lower piece = "__proto__".toList ∧ paramNum piece = some (numeral 1)

/-- A piece after those of `pre` raises no exception. -/
structure Accepted (pre : List Text) (piece : Text) : Prop where
  has_value : '=' ∈ piece ∨ (prototype (numeral 1)).isSome ∨ ∃ p ∈ pre, SetsOne lower p
  inherited_numbered : paramName lower piece ∈ inherited → paramNum piece ≠ none
  has_room : paramNum piece = none → ∀ obj a,
    pre.foldlM (iterate lower) (Object.empty prototype) = .ok obj →
    obj.get (paramName lower piece) = some (.array a) → a.length < maxLength

/-- No piece of the query string raises an exception. -/
def Accepts (search : Text) : Prop := Everywhere (Accepted lower prototype) (pieces search)

/-- None of the calls in the constructor raises an exception: the two more that it
makes for `applogin` find the prototype as the call before has left it. -/
structure App.Accepts (search : Text) : Prop where
  applogin : Web.Accepts lower prototype search
  doorname : ∀ params, getAllUrlParams lower prototype search = .ok params →
    isText "true".toList (params.get "applogin".toList) = true →
    Web.Accepts lower params.prototype search
  name : ∀ params doorParams, getAllUrlParams lower prototype search = .ok params →
    isText "true".toList (params.get "applogin".toList) = true →
    getAllUrlParams lower params.prototype search = .ok doorParams →
    Web.Accepts lower doorParams.prototype search

end

/-! ## The state before a piece -/

/-- What the loop keeps. -/
structure Reached (lower : Text → Text) (prototype : Prototype) (pre : List Text)
    (obj : Object) : Prop where
  clean : Clean obj
  one : (obj.prototype (numeral 1)).isSome ↔
    (prototype (numeral 1)).isSome ∨ ∃ p ∈ pre, SetsOne lower p

theorem paramValue_isSome_iff :
    (paramValue prototype piece).isSome ↔ '=' ∈ piece ∨ (prototype (numeral 1)).isSome := by
  unfold paramValue
  rw [Option.isSome_or, Bool.or_eq_true]
  refine or_congr_left ?_
  by_cases h : '=' ∈ piece
  · obtain ⟨name, value, rfl, hname⟩ := List.eq_append_cons_of_mem h
    rw [List.splitOn_append_cons_self_of_not_mem hname]
    cases hvalue : value.splitOn '=' with
    | nil => exact absurd hvalue (List.splitOn_ne_nil _ _)
    | cons t l => simp
  · simp [List.splitOn_eq_singleton h, h]

theorem Reached.iterate (h : Reached lower prototype pre obj)
    (hstep : Web.iterate lower obj piece = .ok obj') :
    Reached lower prototype (pre ++ [piece]) obj' := by
  have hmem : (∃ p ∈ pre ++ [piece], SetsOne lower p) ↔
      (∃ p ∈ pre, SetsOne lower p) ∨ SetsOne lower piece := by
    simp [or_and_right, exists_or]
  unfold Web.iterate at hstep
  cases hvalue : paramValue obj.prototype piece with
  | none => simp [hvalue] at hstep
  | some value =>
    simp only [hvalue] at hstep
    obtain ⟨hget, y, hy, rfl⟩ | ⟨hget, key, hnum, rfl⟩ := addParam_cases hstep
    · rw [ne_eq, h.clean.get_eq_builtin_iff] at hget
      refine ⟨h.clean.set hget (addValue_ne_builtin hy), ?_⟩
      have hone : ¬ SetsOne lower piece := fun hone => hget (by simp [hone.1, inherited])
      rw [hmem, Object.set_prototype, h.one]
      simp [hone]
    · unfold Object.put
      rw [hget]
      dsimp only
      split
      case isTrue hname =>
        refine ⟨⟨h.clean.own_of_inherited, h.clean.own_ne_builtin⟩, ?_⟩
        rw [hmem, ← or_assoc, ← h.one]
        dsimp only
        by_cases hkey : key = numeral 1
        · simp [SetsOne, hname, hnum, hkey]
        · rw [Function.update_of_ne (Ne.symm hkey)]
          simp [SetsOne, hnum, hkey]
      case isFalse hname =>
        have hone : ¬ SetsOne lower piece := fun hone => hname hone.1
        refine ⟨h.clean, ?_⟩
        rw [hmem, h.one]
        simp [hone]

theorem reached (h : pre.foldlM (iterate lower) (Object.empty prototype) = .ok obj) :
    Reached lower prototype pre obj := by
  refine foldlM_induction ?_ (fun _ _ _ _ hreached hstep => hreached.iterate hstep) h
  exact ⟨.empty, by simp [Object.empty]⟩

/-! ## One piece, and all of them -/

theorem iterate_ok_iff (h : pre.foldlM (iterate lower) (Object.empty prototype) = .ok obj) :
    (∃ obj', iterate lower obj piece = .ok obj') ↔ Accepted lower prototype pre piece := by
  have hreached := reached h
  have hvalue : (paramValue obj.prototype piece).isSome ↔ _ := paramValue_isSome_iff
  rw [hreached.one] at hvalue
  unfold iterate
  cases hparam : paramValue obj.prototype piece with
  | none =>
    simp only [hparam, Option.isSome_none] at hvalue
    refine iff_of_false (by simp) fun hacc => ?_
    exact absurd (hvalue.mpr hacc.has_value) (by simp)
  | some value =>
    rw [hparam] at hvalue
    dsimp only
    rw [addParam_ok_iff hreached.clean]
    constructor
    · intro hadd
      refine ⟨hvalue.mp rfl, fun hname hnum => (hadd hnum).1 hname, fun hnum obj'' a hobj => ?_⟩
      obtain rfl : obj = obj'' := Except.ok.inj (h.symm.trans hobj)
      exact (hadd hnum).2 a
    · exact fun hacc hnum => ⟨fun hname => hacc.inherited_numbered hname hnum,
        fun a ha => hacc.has_room hnum obj a h ha⟩

/-- The parser raises no exception exactly if no piece does. -/
theorem getAllUrlParams_ok_iff :
    (∃ obj, getAllUrlParams lower prototype search = .ok obj) ↔
      Accepts lower prototype search := by
  unfold getAllUrlParams Accepts
  generalize pieces search = ps
  induction ps using List.reverseRecOn with
  | nil => exact iff_of_true ⟨_, rfl⟩ everywhere_nil
  | append_singleton pre piece ih =>
    rw [everywhere_concat, ← ih]
    simp only [foldlM_concat_eq_ok]
    constructor
    · rintro ⟨obj', obj, hobj, hstep⟩
      exact ⟨⟨obj, hobj⟩, (iterate_ok_iff hobj).mp ⟨obj', hstep⟩⟩
    · rintro ⟨⟨obj, hobj⟩, hacc⟩
      obtain ⟨obj', hstep⟩ := (iterate_ok_iff hobj).mpr hacc
      exact ⟨obj', obj, hobj, hstep⟩

theorem construct_ok_iff {cookie : Text} :
    (∃ app, App.construct lower cookie prototype search = .ok app) ↔
      App.Accepts lower prototype search := by
  have hcall : ∀ prototype, (∃ obj, getAllUrlParams lower prototype search = .ok obj) ↔
      Accepts lower prototype search := fun _ => getAllUrlParams_ok_iff
  unfold App.construct
  rw [bind_ok_iff]
  constructor
  · rintro ⟨params, hparams, hrest⟩
    have happlogin := (hcall prototype).mp ⟨params, hparams⟩
    cases htrue : isText "true".toList (params.get "applogin".toList) with
    | false =>
      refine ⟨happlogin, fun params' hparams' htrue' => ?_, fun params' _ hparams' htrue' => ?_⟩
      all_goals
        obtain rfl : params = params' := Except.ok.inj (hparams.symm.trans hparams')
        exact absurd (htrue.symm.trans htrue') (by decide)
    | true =>
      rw [if_pos htrue, bind_ok_iff] at hrest
      obtain ⟨doorParams, hdoor, hrest⟩ := hrest
      rw [bind_ok_iff] at hrest
      obtain ⟨nameParams, hname, -⟩ := hrest
      refine ⟨happlogin, fun params' hparams' _ => ?_,
        fun params' doorParams' hparams' _ hdoor' => ?_⟩
      · obtain rfl : params = params' := Except.ok.inj (hparams.symm.trans hparams')
        exact (hcall _).mp ⟨doorParams, hdoor⟩
      · obtain rfl : params = params' := Except.ok.inj (hparams.symm.trans hparams')
        obtain rfl : doorParams = doorParams' := Except.ok.inj (hdoor.symm.trans hdoor')
        exact (hcall _).mp ⟨nameParams, hname⟩
  · intro hacc
    obtain ⟨params, hparams⟩ := (hcall prototype).mpr hacc.applogin
    refine ⟨params, hparams, ?_⟩
    cases htrue : isText "true".toList (params.get "applogin".toList) with
    | false => exact ⟨_, rfl⟩
    | true =>
      obtain ⟨doorParams, hdoor⟩ := (hcall _).mpr (hacc.doorname params hparams htrue)
      obtain ⟨nameParams, hname⟩ := (hcall _).mpr (hacc.name params doorParams hparams htrue hdoor)
      rw [if_pos rfl, bind_ok_iff]
      refine ⟨doorParams, hdoor, ?_⟩
      rw [bind_ok_iff]
      exact ⟨nameParams, hname, _, rfl⟩

/-- The parser, and the constructor with the calls it makes, raise no exception
exactly for the query strings that are accepted. -/
theorem completes_iff_accepts {cookie : Text} :
    ((∃ obj, getAllUrlParams lower prototype search = .ok obj) ↔
      Accepts lower prototype search) ∧
    ((∃ app, App.construct lower cookie prototype search = .ok app) ↔
      App.Accepts lower prototype search) :=
  ⟨getAllUrlParams_ok_iff, construct_ok_iff⟩

/-- A parameter without a value. -/
theorem raises_without_value :
    ¬ ((∃ obj, getAllUrlParams (List.map Char.toLower) .fresh "?foo".toList = .ok obj) ∧
      ∃ app, App.construct (List.map Char.toLower) [] .fresh "?foo".toList = .ok app) := by
  rintro ⟨⟨obj, hobj⟩, -⟩
  have herror : getAllUrlParams (List.map Char.toLower) .fresh "?foo".toList =
      .error .typeError := rfl
  cases herror.symm.trans hobj

end SmartDoor.Web
