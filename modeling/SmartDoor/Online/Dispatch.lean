-- SUMMARY: Every dispatch of online.js has a writecom of its own as its cause.
import SmartDoor.Online.Steps

/-!
# Dispatches and commands

No run of the handler, nested or not, dispatches a command that nobody wrote or
that has been dispatched before.
-/

namespace SmartDoor.Online

variable {C : Type} [DecidableEq C] {cfg : DoorConfig} {nameOf : C → String} {s : State C}

/-- The `i`th event dispatches the command. -/
def DispatchedAt (s : State C) (i : Nat) (command : Command) : Prop :=
  ∃ stamp, s.trace[i]? = some (.dispatched command stamp)

/-- The `i`th event is a `writecom` of the command by some client. -/
def WrittenAt (s : State C) (i : Nat) (command : Command) : Prop :=
  ∃ c, s.trace[i]? = some (.wrote c command.text)

/-- The place of the `writecom` that caused the `i`th event, if that is a dispatch. -/
def cause (s : State C) (i : Nat) : Nat := ((s.trace[i]?.bind Event.pick?)).getD 0

omit [DecidableEq C] in
theorem cause_of_dispatched {i stamp : Nat} {command : Command}
    (h : s.trace[i]? = some (.dispatched command stamp)) : cause s i = stamp := by
  simp [cause, h, Event.pick?]

omit [DecidableEq C] in
/-- Two dispatches of one cause are the same event. -/
theorem Dispatches.eq_of_stamp (h : Dispatches s) {i j stamp : Nat} {command command' : Command}
    (hi : s.trace[i]? = some (.dispatched command stamp))
    (hj : s.trace[j]? = some (.dispatched command' stamp)) : i = j := by
  have honce := List.pairwise_iff_getElem.mp h.once
  obtain ⟨hlt, hgi⟩ := List.getElem?_eq_some_iff.mp hi
  obtain ⟨hlt', hgj⟩ := List.getElem?_eq_some_iff.mp hj
  rcases Nat.lt_trichotomy i j with hij | rfl | hij
  · exact absurd (by rw [hgj]; rfl) (honce i j hlt hlt' hij stamp (by rw [hgi]; rfl))
  · rfl
  · exact absurd (by rw [hgi]; rfl) (honce j i hlt' hlt hij stamp (by rw [hgj]; rfl))

/-- In every reachable state the dispatches map injectively to earlier calls of
`writecom` with the same command. -/
theorem dispatches_injective {as : List (Action C)}
    (h : Transition.run (State.step cfg nameOf) State.init as = some s) :
    ∃ f : Nat → Nat,
      (∀ i command, DispatchedAt s i command → f i < i ∧ WrittenAt s (f i) command) ∧
      (∀ i j command command', DispatchedAt s i command → DispatchedAt s j command' →
        f i = f j → i = j) := by
  have hd : Dispatches s := (inv_of_run h).dispatches
  refine ⟨cause s, fun i command ⟨stamp, hi⟩ => ?_, ?_⟩
  · rw [cause_of_dispatched hi]
    exact hd.caused i stamp command hi
  · rintro i j command command' ⟨stamp, hi⟩ ⟨stamp', hj⟩ heq
    rw [cause_of_dispatched hi, cause_of_dispatched hj] at heq
    subst heq
    exact hd.eq_of_stamp hi hj

/-- One client locks the door; the handler clears `todo` and enters the branch. -/
def lockOnce : List (Action Unit) :=
  [.writecom () "Lock", .land 0, .land 0, .skip 0, .skip 0, .deliver, .exec 5, .exec 5, .exec 5]

theorem dispatches_injective_lockOnce :
    ∃ s, Transition.run (State.step doorconfig fun _ => "guest") State.init lockOnce = some s ∧
      DispatchedAt s 2 .Lock ∧
      ∃ f : Nat → Nat,
        (∀ i command, DispatchedAt s i command → f i < i ∧ WrittenAt s (f i) command) ∧
        (∀ i j command command', DispatchedAt s i command → DispatchedAt s j command' →
          f i = f j → i = j) := by
  obtain ⟨s, hrun, hdispatched⟩ : ∃ s,
      Transition.run (State.step doorconfig fun _ => "guest") State.init lockOnce = some s ∧
      s.trace[2]? = some (.dispatched .Lock 0) := ⟨_, rfl, rfl⟩
  exact ⟨s, hrun, ⟨0, hdispatched⟩, dispatches_injective hrun⟩

end SmartDoor.Online
