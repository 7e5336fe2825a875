-- SUMMARY: A value that is passed on in order over a channel with delays: how recent the copy at its end is.
import Mathlib.Algebra.Order.Monoid.Defs
import Mathlib.Data.List.Basic

/-!
# Relays

One party sends each new value of something over a channel, with the moment of
sending; the other keeps the last one it has received, and may skip to a later one.
A copy was current until the next one was sent, so the copy at the end of the
channel was current as late as the oldest message still on its way was sent.

Relays may follow each other: the value that one sends may be a copy that it has
received itself, and a value that was read a while ago. The delays add up.
-/

namespace Relay

variable {V T : Type*} {cur : T → V → Prop} {now now' : T} {v w : V} {u : T}
  {queue : List (V × T)} {i : Nat}

/-- The copy `v` was current until the first message of `queue` was sent, each message until
the next one was, and the last one is still. -/
def Until (cur : T → V → Prop) (now : T) : V → List (V × T) → Prop
  | v, [] => cur now v
  | v, (w, u) :: queue => cur u v ∧ Until cur now w queue

/-- The value at the sender, where `v` is the copy at the other end. -/
def newest : V → List (V × T) → V
  | v, [] => v
  | _, (w, _) :: queue => newest w queue

@[simp] theorem newest_concat : newest v (queue ++ [(w, u)]) = w := by
  induction queue generalizing v with
  | nil => rfl
  | cons m queue ih => exact ih

theorem newest_drop (h : queue[i]? = some (w, u)) :
    newest w (queue.drop (i + 1)) = newest v queue := by
  induction queue generalizing v i with
  | nil => simp at h
  | cons m queue ih =>
    cases i with
    | zero =>
      obtain rfl : m = (w, u) := by simpa using h
      rfl
    | succ i => exact ih (v := m.1) (by simpa using h)

namespace Until

/-- Where `cur` says nothing about the past, there is nothing to know of the channel. -/
theorem of_forall (hnow : ∀ v, cur now v) (hqueue : ∀ m ∈ queue, ∀ v, cur m.2 v) :
    Until cur now v queue := by
  induction queue generalizing v with
  | nil => exact hnow v
  | cons m queue ih =>
    obtain ⟨hm, hrest⟩ := List.forall_mem_cons.mp hqueue
    exact ⟨hm v, ih hrest⟩

theorem newest (h : Until cur now v queue) : cur now (newest v queue) := by
  induction queue generalizing v with
  | nil => exact h
  | cons m queue ih => exact ih h.2

/-- Time passes while the value at the sender is the current one. -/
theorem pass (h : Until cur now v queue) (hcur : cur now' (Relay.newest v queue)) :
    Until cur now' v queue := by
  induction queue generalizing v with
  | nil => exact hcur
  | cons m queue ih => exact ⟨h.1, ih h.2 hcur⟩

theorem send (h : Until cur now v queue) (hcur : cur now w) :
    Until cur now v (queue ++ [(w, now)]) := by
  induction queue generalizing v with
  | nil => exact ⟨h, hcur⟩
  | cons m queue ih => exact ⟨h.1, ih h.2⟩

/-- The receiver skips to the `i`th message. -/
theorem receive (h : Until cur now v queue) (hi : queue[i]? = some (w, u)) :
    Until cur now w (queue.drop (i + 1)) := by
  induction queue generalizing v i with
  | nil => simp at hi
  | cons m queue ih =>
    cases i with
    | zero =>
      obtain rfl : m = (w, u) := by simpa using hi
      exact h.2
    | succ i => exact ih h.2 (by simpa using hi)

/-- Where no message is on its way for longer than `delay`, the copy was current no longer
ago than that. -/
theorem recent [LE T] [Add T] {delay : T} (h : Until cur now v queue) (hnow : now ≤ now + delay)
    (hdelay : ∀ m ∈ queue, now ≤ m.2 + delay) : ∃ u, cur u v ∧ now ≤ u + delay := by
  cases queue with
  | nil => exact ⟨now, h, hnow⟩
  | cons m queue => exact ⟨m.2, h.1, hdelay m (List.mem_cons_self ..)⟩

end Until

/-! ## Receivers -/

/-- `queue` leads to a receiver that keeps the last message as its `copy`, and has been sent
all that the `value` at the sender has been since some message. -/
def Subscribed (cur : T → V → Prop) (now : T) (heard : Bool) (copy : V) (queue : List (V × T))
    (value : V) : Prop :=
  ∃ v, (heard = true → copy = v) ∧ Until cur now v queue ∧ newest v queue = value

namespace Subscribed

variable {heard : Bool} {copy value : V}

theorem start (hcur : cur now v) : Subscribed cur now false copy [(v, now)] v :=
  ⟨v, nofun, ⟨hcur, hcur⟩, rfl⟩

theorem pass (h : Subscribed cur now heard copy queue value) (hcur : cur now' value) :
    Subscribed cur now' heard copy queue value := by
  obtain ⟨v, hcopy, huntil, rfl⟩ := h
  exact ⟨v, hcopy, huntil.pass hcur, rfl⟩

theorem send (h : Subscribed cur now heard copy queue value) (hcur : cur now w) :
    Subscribed cur now heard copy (queue ++ [(w, now)]) w := by
  obtain ⟨v, hcopy, huntil, -⟩ := h
  exact ⟨v, hcopy, huntil.send hcur, newest_concat⟩

theorem receive (h : Subscribed cur now heard copy queue value) (hi : queue[i]? = some (w, u)) :
    Subscribed cur now true w (queue.drop (i + 1)) value := by
  obtain ⟨v, -, huntil, hvalue⟩ := h
  exact ⟨w, fun _ => rfl, huntil.receive hi, (newest_drop hi).trans hvalue⟩

theorem recent [LE T] [Add T] {delay : T} (h : Subscribed cur now true copy queue value)
    (hnow : now ≤ now + delay) (hdelay : ∀ m ∈ queue, now ≤ m.2 + delay) :
    ∃ u, cur u copy ∧ now ≤ u + delay := by
  obtain ⟨v, hcopy, huntil, -⟩ := h
  exact hcopy rfl ▸ huntil.recent hnow hdelay

end Subscribed

/-! ## Delays -/

/-- `v` was the value, as `P` says, at a moment that was not longer ago at `u` than `delay`. -/
def Within [LE T] [Add T] (P : T → V → Prop) (delay u : T) (v : V) : Prop :=
  ∃ w, P w v ∧ u ≤ w + delay

theorem Within.later [AddCommMonoid T] [PartialOrder T] [IsOrderedAddMonoid T] {P : T → V → Prop}
    {delay delay' : T} (h : Within P delay u v) (hle : now ≤ u + delay') :
    Within P (delay + delay') now v := by
  obtain ⟨w, hw, hu⟩ := h
  refine ⟨w, hw, ?_⟩
  calc now ≤ u + delay' := hle
    _ ≤ w + delay + delay' := add_le_add_left hu delay'
    _ = w + (delay + delay') := add_assoc ..

end Relay
