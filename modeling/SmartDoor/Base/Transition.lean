-- SUMMARY: Runs of a step function over chosen actions, and the rules that carry an invariant along them.
import Mathlib.Data.List.Induction

/-!
# Runs

A system of several parties is a step function on its whole state: an action
names the party that moves and the choices of the environment, and the step is
`none` where the action is not enabled. An interleaving is then a list of
actions, and a reachable state is one that some list leads to.
-/

namespace Transition

variable {σ α : Type*} {step : σ → α → Option σ}

/-- The state after taking `as` from `s`, if each action is enabled in turn. -/
def run (step : σ → α → Option σ) (s : σ) : List α → Option σ
  | [] => some s
  | a :: as => (step s a).bind (fun s' => run step s' as)

/-- `g` holds of every action of `as` in the state it is taken from. -/
def Meets (step : σ → α → Option σ) (g : σ → α → Prop) (s : σ) : List α → Prop
  | [] => True
  | a :: as => g s a ∧ ∀ s', step s a = some s' → Meets step g s' as

/-- The run `as` from `s` passes through `u`. -/
def Passes (step : σ → α → Option σ) (s : σ) (as : List α) (u : σ) : Prop :=
  ∃ pre, pre <+: as ∧ run step s pre = some u

@[simp] theorem run_nil {s : σ} : run step s [] = some s := rfl

theorem run_cons_eq_some {s t : σ} {a : α} {as : List α} :
    run step s (a :: as) = some t ↔ ∃ s', step s a = some s' ∧ run step s' as = some t := by
  simp [run, Option.bind_eq_some_iff]

theorem run_append {s : σ} {as bs : List α} :
    run step s (as ++ bs) = (run step s as).bind (fun s' => run step s' bs) := by
  induction as generalizing s with
  | nil => rfl
  | cons a as ih =>
    simp only [List.cons_append, run]
    cases step s a with
    | none => rfl
    | some s' => exact ih

/-- A run that ends with the action `a`. -/
theorem run_concat_eq_some {s t : σ} {as : List α} {a : α} :
    run step s (as ++ [a]) = some t ↔ ∃ u, run step s as = some u ∧ step u a = some t := by
  simp [run_append, run, Option.bind_eq_some_iff]

theorem meets_cons_iff {g : σ → α → Prop} {s : σ} {a : α} {as : List α} :
    Meets step g s (a :: as) ↔ g s a ∧ ∀ s' ∈ step s a, Meets step g s' as := Iff.rfl

theorem meets_cons_of_step {g : σ → α → Prop} {s s' : σ} {a : α} {as : List α}
    (hstep : step s a = some s') (hg : g s a) (h : Meets step g s' as) :
    Meets step g s (a :: as) := by
  refine ⟨hg, fun t ht => ?_⟩
  obtain rfl : s' = t := Option.some.inj (hstep.symm.trans ht)
  exact h

theorem meets_append {g : σ → α → Prop} {s : σ} {as bs : List α} :
    Meets step g s (as ++ bs) ↔
      Meets step g s as ∧ ∀ t, run step s as = some t → Meets step g t bs := by
  induction as generalizing s with
  | nil => simp [Meets]
  | cons a as ih =>
    simp only [List.cons_append, Meets, ih, run_cons_eq_some]
    constructor
    · rintro ⟨ha, hrest⟩
      exact ⟨⟨ha, fun s' hs' => (hrest s' hs').1⟩, fun t ⟨s', hs', ht⟩ => (hrest s' hs').2 t ht⟩
    · rintro ⟨⟨ha, hrest⟩, hbs⟩
      exact ⟨ha, fun s' hs' => ⟨hrest s' hs', fun t ht => hbs t ⟨s', hs', ht⟩⟩⟩

theorem meets_concat {g : σ → α → Prop} {s t : σ} {as : List α} {a : α}
    (hrun : run step s as = some t) :
    Meets step g s (as ++ [a]) ↔ Meets step g s as ∧ g t a := by
  simp [meets_append, hrun, Meets]

theorem meets_mono {g g' : σ → α → Prop} {s : σ} {as : List α} (h : ∀ s a, g s a → g' s a)
    (hg : Meets step g s as) : Meets step g' s as := by
  induction as generalizing s with
  | nil => trivial
  | cons a as ih => exact ⟨h s a hg.1, fun s' hs' => ih (hg.2 s' hs')⟩

/-- A guard that does not depend on the state. -/
theorem meets_of_forall {g : σ → α → Prop} {s : σ} {as : List α} (h : ∀ a ∈ as, ∀ t, g t a) :
    Meets step g s as := by
  induction as generalizing s with
  | nil => trivial
  | cons a as ih => exact ⟨h a (by simp) s, fun s' _ => ih fun b hb => h b (by simp [hb])⟩

/-- A guard that can be decided in each state can be decided for a run. -/
instance decidableMeets {g : σ → α → Prop} [∀ s a, Decidable (g s a)] :
    ∀ (s : σ) (as : List α), Decidable (Meets step g s as)
  | _, [] => isTrue trivial
  | _, _ :: as =>
    have (s' : σ) : Decidable (Meets step g s' as) := decidableMeets s' as
    decidable_of_iff _ meets_cons_iff.symm

/-! ## Invariants -/

/-- What every guarded step keeps holds after every run whose steps meet the guard. -/
theorem run_invariant_of_meets {I : σ → Prop} {g : σ → α → Prop} {s t : σ} {as : List α}
    (hstep : ∀ s a s', I s → g s a → step s a = some s' → I s')
    (hs : I s) (hg : Meets step g s as) (hrun : run step s as = some t) : I t := by
  induction as generalizing s with
  | nil =>
    obtain rfl : s = t := by simpa using hrun
    exact hs
  | cons a as ih =>
    obtain ⟨s', ha, hrest⟩ := run_cons_eq_some.mp hrun
    exact ih (hstep s a s' hs hg.1 ha) (hg.2 s' ha) hrest

/-- To meet a guard, each step may use the run before it and the run after it. -/
theorem meets_of_run {g : σ → α → Prop} {s u : σ} {as : List α} (hrun : run step s as = some u)
    (h : ∀ pre a post t t', as = pre ++ a :: post → run step s pre = some t →
      step t a = some t' → run step t' post = some u → g t a) : Meets step g s as := by
  induction as generalizing s with
  | nil => trivial
  | cons a as ih =>
    obtain ⟨s₁, hs₁, hrest⟩ := run_cons_eq_some.mp hrun
    refine ⟨h [] a as s s₁ rfl rfl hs₁ hrest, fun s' hs' => ?_⟩
    obtain rfl : s₁ = s' := Option.some.inj (hs₁.symm.trans hs')
    refine ih hrest fun pre b post t t' has hpre => ?_
    apply h (a :: pre) b post t t'
    · rw [has, List.cons_append]
    · exact run_cons_eq_some.mpr ⟨s₁, hs₁, hpre⟩

/-- What every step keeps holds after every run. -/
theorem run_invariant {I : σ → Prop} {s t : σ} {as : List α}
    (hstep : ∀ s a s', I s → step s a = some s' → I s')
    (hs : I s) (hrun : run step s as = some t) : I t :=
  run_invariant_of_meets (g := fun _ _ => True) (fun s a s' hi _ => hstep s a s' hi) hs
    (meets_of_run hrun fun _ _ _ _ _ _ _ _ _ => trivial) hrun

/-- If a step keeps `I`, and keeps `P` exactly where it meets `g`, then `P` holds all along
a run if and only if each step of the run meets `g`. -/
theorem always_iff_meets {I P : σ → Prop} {q g : σ → α → Prop} {s t : σ} {as : List α}
    (hstep : ∀ s a s', I s → P s → q s a → step s a = some s' → I s' ∧ (P s' ↔ g s a))
    (hI : I s) (hP : P s) (hq : Meets step q s as) (hrun : run step s as = some t) :
    (∀ pre u, pre <+: as → run step s pre = some u → P u) ↔ Meets step g s as := by
  induction as generalizing s with
  | nil =>
    refine iff_of_true (fun pre u hpre hu => ?_) trivial
    obtain rfl := List.prefix_nil.mp hpre
    obtain rfl : s = u := by simpa using hu
    exact hP
  | cons a as ih =>
    obtain ⟨s', ha, hrest⟩ := run_cons_eq_some.mp hrun
    obtain ⟨hI', hP'⟩ := hstep s a s' hI hP hq.1 ha
    constructor
    · intro halways
      have hs' : P s' := halways [a] s' (List.prefix_append [a] as) (by simp [run, ha])
      refine meets_cons_of_step ha (hP'.mp hs') ((ih hI' hs' (hq.2 s' ha) hrest).mp ?_)
      intro pre u hpre hu
      exact halways (a :: pre) u (List.cons_prefix_cons.mpr ⟨rfl, hpre⟩)
        (run_cons_eq_some.mpr ⟨s', ha, hu⟩)
    · rintro ⟨hg, hmeets⟩ pre u hpre hu
      cases pre with
      | nil =>
        obtain rfl : s = u := by simpa using hu
        exact hP
      | cons b pre =>
        obtain ⟨rfl, hpre'⟩ := List.cons_prefix_cons.mp hpre
        obtain ⟨s'', hb, hu'⟩ := run_cons_eq_some.mp hu
        obtain rfl : s' = s'' := Option.some.inj (ha.symm.trans hb)
        exact (ih hI' (hP'.mpr hg) (hq.2 s' ha) hrest).mpr (hmeets s' ha) pre u hpre' hu'

/-- An invariant that speaks about the run so far. -/
theorem run_induction {I : List α → σ → Prop} {s t : σ} {as : List α} (hs : I [] s)
    (hstep : ∀ as t a t', run step s as = some t → I as t → step t a = some t' → I (as ++ [a]) t')
    (hrun : run step s as = some t) : I as t := by
  induction as using List.reverseRecOn generalizing t with
  | nil =>
    obtain rfl : s = t := by simpa using hrun
    exact hs
  | append_singleton as a ih =>
    obtain ⟨u, hu, ha⟩ := run_concat_eq_some.mp hrun
    exact hstep as u a t hu (ih hu) ha

end Transition
