-- SUMMARY: A log replayed against the world it was made in: what holds of the world all along and at the end.
import Mathlib.Data.List.Basic

/-!
# Replaying a log

A process leaves entries in a log, and each entry says what may have happened to a
part of the world that the process does not hold: `moves a e b`. `Accepts` are the
ways the world can have gone through the whole log. `Along` is the condition that
they all satisfy `P` on the way and `Q` at the end, with the rules to compose it
along the log.
-/

namespace Replay

variable {σ E : Type*}

/-- From `a`, the world can have gone through the entries and be in `b`. -/
def Accepts (moves : σ → E → σ → Prop) : σ → List E → σ → Prop
  | a, [], b => a = b
  | a, e :: l, b => ∃ c, moves a e c ∧ Accepts moves c l b

/-- However the world goes through the entries from `a`, `P` holds all along and `Q` at the
end. -/
def Along (moves : σ → E → σ → Prop) (P Q : σ → Prop) : σ → List E → Prop
  | a, [] => P a ∧ Q a
  | a, e :: l => P a ∧ ∀ c, moves a e c → Along moves P Q c l

variable {moves : σ → E → σ → Prop} {P Q Q' : σ → Prop} {a b : σ} {l m : List E}

theorem along_nil : Along moves P Q a [] ↔ P a ∧ Q a := Iff.rfl

theorem along_cons {e : E} :
    Along moves P Q a (e :: l) ↔ P a ∧ ∀ c, moves a e c → Along moves P Q c l := Iff.rfl

namespace Along

theorem start (h : Along moves P Q a l) : P a := by
  cases l with
  | nil => exact h.1
  | cons e l => exact h.1

theorem mono (h : Along moves P Q a l) (hQ : ∀ b, P b → Q b → Q' b) : Along moves P Q' a l := by
  induction l generalizing a with
  | nil => exact ⟨h.1, hQ a h.1 h.2⟩
  | cons e l ih => exact ⟨h.1, fun c hc => ih (h.2 c hc)⟩

theorem append (h : Along moves P (fun b => Along moves P Q b m) a l) :
    Along moves P Q a (l ++ m) := by
  induction l generalizing a with
  | nil => exact h.2
  | cons e l ih => exact ⟨h.1, fun c hc => ih (h.2 c hc)⟩

theorem of_accepts (h : Along moves P Q a l) (hl : Accepts moves a l b) : Q b := by
  induction l generalizing a with
  | nil =>
    obtain rfl : a = b := hl
    exact h.2
  | cons e l ih =>
    obtain ⟨c, hc, hl⟩ := hl
    exact ih (h.2 c hc) hl

/-- The first part of the log. -/
theorem of_accepts_append (h : Along moves P Q a (l ++ m)) (hl : Accepts moves a l b) : P b := by
  induction l generalizing a with
  | nil =>
    obtain rfl : a = b := hl
    exact h.start
  | cons e l ih =>
    obtain ⟨c, hc, hl⟩ := hl
    exact ih (h.2 c hc) hl

end Along

end Replay
