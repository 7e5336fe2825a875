-- SUMMARY: The traces a program can leave in a log, and their weakest precondition.
import SmartDoor.Base.Program

/-!
# Traces of programs

What a program does to a log, for whatever answers it gets, is a relation
between the program, the entries it adds and its result. `wp_traces` connects
it to the weakest precondition; `traces_bind` takes a program apart.
-/

namespace Prog

variable {E : Type} {R : E → Type} {α β ι W Ev : Type}

/-- `evs` is what a complete run of `p` with result `a` adds to the log, where
an effect with answer `r` adds `label e r`. -/
def Traces (label : (e : E) → R e → List Ev) : Prog E R α → List Ev → α → Prop
  | .done b, evs, a => evs = [] ∧ a = b
  | .exec e k, evs, a => ∃ r rest, evs = label e r ++ rest ∧ Traces label (k r) rest a

variable {label : (e : E) → R e → List Ev} {evs : List Ev}

@[simp] theorem traces_pure {a b : α} :
    Traces label (pure b : Prog E R α) evs a ↔ evs = [] ∧ a = b := Iff.rfl

@[simp] theorem traces_perform {e : E} {r : R e} :
    Traces label (perform e) evs r ↔ evs = label e r := by
  constructor
  · rintro ⟨r', rest, rfl, rfl, rfl⟩
    exact List.append_nil _
  · rintro rfl
    exact ⟨r, [], (List.append_nil _).symm, rfl, rfl⟩

theorem traces_bind {p : Prog E R α} {f : α → Prog E R β} {b : β} :
    Traces label (p >>= f) evs b ↔
      ∃ a evs₁ evs₂, Traces label p evs₁ a ∧ Traces label (f a) evs₂ b ∧ evs = evs₁ ++ evs₂ := by
  change Traces label (p.bind f) evs b ↔ _
  induction p generalizing evs with
  | done a =>
    constructor
    · intro h
      exact ⟨a, [], evs, ⟨rfl, rfl⟩, h, rfl⟩
    · rintro ⟨_, _, evs₂, ⟨rfl, rfl⟩, h, rfl⟩
      exact h
  | exec e k ih =>
    simp only [Traces, bind]
    constructor
    · rintro ⟨r, rest, rfl, h⟩
      obtain ⟨a, evs₁, evs₂, h₁, h₂, rfl⟩ := (ih r).mp h
      exact ⟨a, label e r ++ evs₁, evs₂, ⟨r, evs₁, rfl, h₁⟩, h₂, (List.append_assoc ..).symm⟩
    · rintro ⟨a, _, evs₂, ⟨r, evs₁, rfl, h₁⟩, h₂, rfl⟩
      exact ⟨r, evs₁ ++ evs₂, List.append_assoc .., (ih r).mpr ⟨a, evs₁, evs₂, h₁, h₂, rfl⟩⟩

/-! ## Traces and weakest preconditions -/

variable {act : ι → W → (e : E) → R e × W} {Q Q' : α → W → Prop} {w : W}

theorem wp_and {p : Prog E R α} (h : wp act p Q w) (h' : wp act p Q' w) :
    wp act p (fun a w => Q a w ∧ Q' a w) w := by
  induction p generalizing w with
  | done a => exact ⟨h, h'⟩
  | exec e k ih => exact fun i => ih _ (h i) (h' i)

/-- Where the world's log grows by the label of each effect, a program adds one
of its traces. -/
theorem wp_traces {log : W → List Ev}
    (hact : ∀ i w e, log (act i w e).2 = log w ++ label e (act i w e).1) (p : Prog E R α) :
    wp act p (fun a w' => ∃ evs, log w' = log w ++ evs ∧ Traces label p evs a) w := by
  induction p generalizing w with
  | done a => exact ⟨[], (List.append_nil _).symm, rfl, rfl⟩
  | exec e k ih =>
    intro i
    refine wp_mono (fun a w' h => ?_) (ih (act i w e).1)
    obtain ⟨evs, hlog, htr⟩ := h
    refine ⟨label e (act i w e).1 ++ evs, ?_, (act i w e).1, evs, rfl, htr⟩
    rw [hlog, hact, List.append_assoc]

/-- What no effect can repair holds before a program that ends with it. -/
theorem of_wp [Inhabited ι] {I : W → Prop} (hact : ∀ i w e, I (act i w e).2 → I w)
    {p : Prog E R α} (hp : wp act p (fun _ w => I w) w) : I w := by
  induction p generalizing w with
  | done a => exact hp
  | exec e k ih => exact hact default w e (ih _ (hp default))

end Prog
