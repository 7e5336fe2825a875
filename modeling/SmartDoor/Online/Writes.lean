-- SUMMARY: What holds of the writes of the door node in every state: who writes todo, and that no two commands are the same write.
import SmartDoor.Online.Node
import Mathlib.Data.List.Pairwise

/-!
# The writes of the door node

Every write of `todo` is one that a client issued with `writecom`, or the "null"
of `online.js`. The stamp of a client's write is the place of its `writecom` in
the trace, so it tells the commands apart.
-/

namespace SmartDoor.Online

open Registers

variable {C : Type} {store store' : Store (Author C) Path Value} {events : List (Event C)}

/-- `w` is the write of `todo` of the call `writecom(command)` of client `c`. -/
structure Issued (events : List (Event C)) (w : Write (Author C) Path Value) (c : C)
    (command : String) : Prop where
  path : w.path = .todo
  author : w.author = .client c
  value : w.value = .text command
  wrote : events[w.stamp]? = some (.wrote c command)

/-- A write of `todo` by `online.js`. -/
structure Clears (w : Write (Author C) Path Value) : Prop where
  path : w.path = .todo
  author : w.author = .online
  value : w.value = .text "null"

/-- Two writes of `todo` by clients have different stamps. -/
def Distinct (u w : Write (Author C) Path Value) : Prop :=
  u.path = .todo → w.path = .todo → u.author ≠ .online → w.author ≠ .online → u.stamp ≠ w.stamp

theorem Distinct.symm {u w : Write (Author C) Path Value} (h : Distinct u w) : Distinct w u :=
  fun hw hu aw au heq => h hu hw au aw heq.symm

/-- What holds of the writes that have landed or are on their way. -/
structure Sound (store : Store (Author C) Path Value) (events : List (Event C)) : Prop where
  todo : ∀ w ∈ store.hist ++ store.flight, w.path = .todo →
    Clears w ∨ ∃ c command, Issued events w c command
  unique : (store.hist ++ store.flight).Pairwise Distinct
  stamp : ∀ w ∈ store.hist ++ store.flight, w.stamp ≤ events.length

theorem Issued.stamp_lt {w : Write (Author C) Path Value} {c : C} {command : String}
    (h : Issued events w c command) : w.stamp < events.length :=
  (List.getElem?_eq_some_iff.mp h.wrote).1

theorem Issued.extend {events' : List (Event C)} {w : Write (Author C) Path Value} {c : C}
    {command : String} (h : Issued events w c command) (hpre : events <+: events') :
    Issued events' w c command := by
  obtain ⟨rest, rfl⟩ := hpre
  exact { h with wrote := by rw [List.getElem?_append_left h.stamp_lt, h.wrote] }

theorem Issued.not_clears {w : Write (Author C) Path Value} {c : C} {command : String}
    (h : Issued events w c command) : w.author ≠ .online := by
  rw [h.author]
  exact fun heq => nomatch heq

namespace Sound

theorem init : Sound (C := C) { hist := [], flight := [] } [] where
  todo := by simp
  unique := by simp
  stamp := by simp

/-- A client's command stands in one place. -/
theorem eq_of_stamp (h : Sound store events) {k k' : Nat} {w w' : Write (Author C) Path Value}
    (hk : store.hist[k]? = some w) (hk' : store.hist[k']? = some w') (hw : w.path = .todo)
    (hw' : w'.path = .todo) (ha : w.author ≠ .online) (ha' : w'.author ≠ .online)
    (heq : w.stamp = w'.stamp) : k = k' := by
  have hpair : store.hist.Pairwise Distinct := (List.pairwise_append.mp h.unique).1
  obtain ⟨hlt, rfl⟩ := List.getElem?_eq_some_iff.mp hk
  obtain ⟨hlt', rfl⟩ := List.getElem?_eq_some_iff.mp hk'
  rw [List.pairwise_iff_getElem] at hpair
  rcases Nat.lt_trichotomy k k' with hkk | rfl | hkk
  · exact absurd heq (hpair k k' hlt hlt' hkk hw hw' ha ha')
  · rfl
  · exact absurd heq.symm (hpair k' k hlt' hlt hkk hw' hw ha' ha)

theorem extend {events' : List (Event C)} (h : Sound store events) (hpre : events <+: events') :
    Sound store events' where
  todo := fun w hw hp => (h.todo w hw hp).imp_right
    fun ⟨c, command, hc⟩ => ⟨c, command, hc.extend hpre⟩
  unique := h.unique
  stamp := fun w hw => Nat.le_trans (h.stamp w hw) hpre.length_le

theorem land [DecidableEq C] (h : Sound store events) {i : Nat} (hland : store.land i = some store') :
    Sound store' events where
  todo := fun w hw hp => h.todo w ((Store.perm_land hland).mem_iff.mp hw) hp
  unique := (Store.perm_land hland).symm.pairwise h.unique Distinct.symm
  stamp := fun w hw => h.stamp w ((Store.perm_land hland).mem_iff.mp hw)

/-- A new write keeps the stamps apart if it is no client's write of `todo`, or
if its stamp is newer than all others. -/
theorem issue (h : Sound store events) {w : Write (Author C) Path Value}
    (hstamp : w.stamp ≤ events.length)
    (hw : w.path = .todo → Clears w ∨ ∃ c command, Issued events w c command)
    (hnew : w.path = .todo → w.author ≠ .online →
      ∀ u ∈ store.hist ++ store.flight, u.path = .todo → u.author ≠ .online → u.stamp < w.stamp) :
    Sound (store.issue w) events := by
  have hmem : ∀ u, u ∈ (store.issue w).hist ++ (store.issue w).flight →
      u ∈ store.hist ++ store.flight ∨ u = w := by
    intro u hu
    simpa [Store.issue, or_assoc] using hu
  refine ⟨fun u hu hp => ?_, ?_, fun u hu => ?_⟩
  · rcases hmem u hu with hu | rfl
    · exact h.todo u hu hp
    · exact hw hp
  · simp only [Store.issue, ← List.append_assoc]
    refine List.pairwise_append.mpr ⟨h.unique, by simp, fun u hu v hv => ?_⟩
    obtain rfl : v = w := by simpa using hv
    exact fun hup hvp hua hva => Nat.ne_of_lt (hnew hvp hva u hu hup hua)
  · rcases hmem u hu with hu | rfl
    · exact h.stamp u hu
    · exact hstamp

/-- A write to another child keeps the writes sound. -/
theorem issue_of_ne (h : Sound store events) {w : Write (Author C) Path Value}
    (hstamp : w.stamp ≤ events.length) (hp : w.path ≠ .todo) : Sound (store.issue w) events :=
  h.issue hstamp (fun heq => absurd heq hp) fun heq => absurd heq hp

theorem issue_clears (h : Sound store events) {w : Write (Author C) Path Value}
    (hstamp : w.stamp ≤ events.length) (hw : Clears w) : Sound (store.issue w) events :=
  h.issue hstamp (fun _ => .inl hw) fun _ ha => absurd hw.author ha

/-- The stamps of clients' commands are places in the trace. -/
theorem stamp_lt (h : Sound store events) {u : Write (Author C) Path Value}
    (hu : u ∈ store.hist ++ store.flight) (hp : u.path = .todo) (ha : u.author ≠ .online) :
    u.stamp < events.length := by
  rcases h.todo u hu hp with hc | ⟨c, command, hc⟩
  · exact absurd hc.author ha
  · exact hc.stamp_lt

/-- The two writes of a `writecom`. -/
theorem writecom (h : Sound store events) {nameOf : C → String} {c : C} {command : String} :
    Sound ((store.issue ⟨.client c, .todo, .text command, events.length⟩).issue
      ⟨.client c, .todoName, .text (nameOf c), events.length⟩) (events ++ [.wrote c command]) := by
  have hext : Sound store (events ++ [.wrote c command]) := h.extend (List.prefix_append _ _)
  have hfirst : Sound (store.issue ⟨.client c, .todo, .text command, events.length⟩)
      (events ++ [.wrote c command]) := by
    refine hext.issue (by simp) (fun _ => .inr ⟨c, command, rfl, rfl, rfl, by simp⟩) ?_
    exact fun _ _ u hu hp ha => h.stamp_lt hu hp ha
  exact hfirst.issue_of_ne (by simp) (fun heq => nomatch heq)

end Sound

end SmartDoor.Online
