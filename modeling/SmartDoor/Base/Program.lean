-- SUMMARY: Sequential programs as trees of effects, run one effect at a time in a world, and their weakest preconditions.
import Mathlib.Data.List.Basic

/-!
# Programs as trees of effects

A handler of a single-threaded process runs from beginning to end, while other
processes and the physical world move between any two of its effects. Such a
handler is a tree: each node performs an effect and branches on the answer. An
interpretation `act` says how the world answers and changes, given a choice `i`
of the environment.

`wp` is the weakest precondition over all choices of the environment. It is
preserved by the single steps of the program (`wp_step`), so it also serves as
the invariant of a run in progress.
-/

/-- A program whose effects are of type `E`, where effect `e` is answered by a
value of type `R e`. -/
inductive Prog (E : Type) (R : E → Type) (α : Type) : Type where
  | done (result : α) : Prog E R α
  | exec (e : E) (k : R e → Prog E R α) : Prog E R α

namespace Prog

variable {E : Type} {R : E → Type} {α β ι W : Type}

/-- Run `p`, then the program its result selects. -/
def bind : Prog E R α → (α → Prog E R β) → Prog E R β
  | .done a, f => f a
  | .exec e k, f => .exec e (fun r => (k r).bind f)

instance : Monad (Prog E R) where
  pure := .done
  bind := Prog.bind

/-- The program that performs one effect and returns its answer. -/
def perform (e : E) : Prog E R (R e) := .exec e .done

/-! ## Single steps -/

/-- What is left of the program, and the world, after its next effect under the
environment's choice `i`. A finished program takes no step. -/
def step (act : ι → W → (e : E) → R e × W) (i : ι) (w : W) :
    Prog E R α → Option (Prog E R α × W)
  | .done _ => none
  | .exec e k => some (k (act i w e).1, (act i w e).2)

/-! ## Weakest preconditions -/

/-- `p`, started in the given world, ends in a result and a world that satisfy
`Q`, whatever the environment chooses at each effect. -/
def wp (act : ι → W → (e : E) → R e × W) : Prog E R α → (α → W → Prop) → W → Prop
  | .done a, Q, w => Q a w
  | .exec e k, Q, w => ∀ i, wp act (k (act i w e).1) Q (act i w e).2

variable {act : ι → W → (e : E) → R e × W} {Q Q' : α → W → Prop} {w : W}

@[simp] theorem wp_pure {a : α} : wp act (pure a : Prog E R α) Q w ↔ Q a w := Iff.rfl

@[simp] theorem wp_perform {e : E} {Q : R e → W → Prop} :
    wp act (perform e) Q w ↔ ∀ i, Q (act i w e).1 (act i w e).2 := Iff.rfl

@[simp] theorem wp_bind {p : Prog E R α} {f : α → Prog E R β} {Q : β → W → Prop} :
    wp act (p >>= f) Q w ↔ wp act p (fun a => wp act (f a) Q) w := by
  change wp act (p.bind f) Q w ↔ _
  induction p generalizing w with
  | done a => rfl
  | exec e k ih =>
    simp only [bind, wp]
    exact forall_congr' fun i => ih _

theorem wp_mono {p : Prog E R α} (h : ∀ a w, Q a w → Q' a w) (hp : wp act p Q w) :
    wp act p Q' w := by
  induction p generalizing w with
  | done a => exact h a w hp
  | exec e k ih => exact fun i => ih _ (hp i)

/-- The weakest precondition is kept by every single step. -/
theorem wp_step {p p' : Prog E R α} {w' : W} {i : ι} (hp : wp act p Q w)
    (h : step act i w p = some (p', w')) : wp act p' Q w' := by
  cases p with
  | done a => simp [step] at h
  | exec e k =>
    simp only [step, Option.some.injEq, Prod.mk.injEq] at h
    obtain ⟨rfl, rfl⟩ := h
    exact hp i

/-- A finished program satisfies its postcondition where it stands. -/
theorem wp_of_step_eq_none {p : Prog E R α} {i : ι} (hp : wp act p Q w)
    (h : step act i w p = none) : ∃ a, p = .done a ∧ Q a w := by
  cases p with
  | done a => exact ⟨a, rfl, hp⟩
  | exec e k => simp [step] at h

/-! ## Programs that use only some effects -/

/-- Every effect `p` can perform satisfies `S`. -/
def Uses (S : E → Prop) : Prog E R α → Prop
  | .done _ => True
  | .exec e k => S e ∧ ∀ r, Uses S (k r)

variable {S : E → Prop}

@[simp] theorem uses_pure {a : α} : Uses S (pure a : Prog E R α) := trivial

@[simp] theorem uses_perform {e : E} : Uses S (perform (R := R) e) ↔ S e := by
  simp [perform, Uses]

theorem uses_bind {p : Prog E R α} {f : α → Prog E R β} (hp : Uses S p)
    (hf : ∀ a, Uses S (f a)) : Uses S (p >>= f) := by
  change Uses S (p.bind f)
  induction p with
  | done a => exact hf a
  | exec e k ih => exact ⟨hp.1, fun r => ih r (hp.2 r)⟩

theorem uses_ite {c : Prop} [Decidable c] {p q : Prog E R α} (hp : Uses S p) (hq : Uses S q) :
    Uses S (if c then p else q) := by
  split
  · exact hp
  · exact hq

/-- What each effect of the program does to the world, the whole program does. -/
theorem wp_of_uses {r : W → W → Prop} (hrefl : ∀ w, r w w)
    (htrans : ∀ w₁ w₂ w₃, r w₁ w₂ → r w₂ w₃ → r w₁ w₃)
    (hact : ∀ i w e, S e → r w (act i w e).2) {p : Prog E R α} (hp : Uses S p) :
    wp act p (fun _ w' => r w w') w := by
  induction p generalizing w with
  | done a => exact hrefl w
  | exec e k ih =>
    intro i
    exact wp_mono (fun _ w' h => htrans _ _ _ (hact i w e hp.1) h) (ih _ (hp.2 _))

end Prog
