-- SUMMARY: The invariant of the door node: nested runs find todo cleared, and no write of todo is dispatched a second time.
import SmartDoor.Online.Writes

/-!
# The runs of the handler

A run first clears `todo`, and from then on `online.js` reads its own "null",
landed or not. So the runs that its further writes call find nothing to do, and
no snapshot it is handed later shows the same command: the "null" stands behind
it. A run that has just begun is the one state in which `todo` is not clean.
-/

namespace SmartDoor.Online

open Registers

/-- The stamp of the command that the event dispatches. -/
def Event.pick? {C : Type} : Event C → Option Nat
  | .dispatched _ stamp => some stamp
  | _ => none

/-- Effects that enter no branch and write neither `todo` nor `todo-name`. -/
structure Quiet (rest : List Effect) : Prop where
  dispatch : ∀ command, .dispatch command ∉ rest
  todo : ∀ value, .set .todo value ∉ rest
  todoName : ∀ value, .set .todoName value ∉ rest

theorem quiet_nil : Quiet [] := ⟨by simp, by simp, by simp⟩

theorem quiet_branch {cfg : DoorConfig} {snapshot : Snapshot} {command : Command} :
    Quiet (branch cfg snapshot command) where
  dispatch := fun c h => (of_mem_branch h).1 c rfl
  todo := fun value h => ((of_mem_branch h).2 value).1 rfl
  todoName := fun value h => ((of_mem_branch h).2 value).2 rfl

theorem Quiet.of_cons {e : Effect} {rest : List Effect} (h : Quiet (e :: rest)) : Quiet rest :=
  ⟨fun c hc => h.dispatch c (.tail e hc), fun v hv => h.todo v (.tail e hv),
    fun v hv => h.todoName v (.tail e hv)⟩

theorem Quiet.head {e : Effect} {rest : List Effect} (h : Quiet (e :: rest)) : Quiet [e] :=
  ⟨fun c hc => h.dispatch c (by simp [List.mem_singleton.mp hc]),
    fun v hv => h.todo v (by simp [List.mem_singleton.mp hv]),
    fun v hv => h.todoName v (by simp [List.mem_singleton.mp hv])⟩

variable {C : Type} [DecidableEq C]

/-! ## The invariant -/

/-- The command with the given stamp has landed, and a "null" of `online.js` is
behind it. -/
def Picked (s : State C) (stamp : Nat) (command : Command) : Prop :=
  ∃ (k : Nat) (w : Write (Author C) Path Value) (c : C), s.store.hist[k]? = some w ∧
    Issued s.trace w c command.text ∧ w.stamp = stamp ∧
    ∃ u ∈ s.store.hist.drop (k + 1) ++ s.store.flight, Clears u

def Undispatched (s : State C) (stamp : Nat) : Prop :=
  ∀ command, .dispatched command stamp ∉ s.trace

/-- A run in progress that has cleared `todo`: it is about to enter its branch,
or enters none any more. -/
inductive Going (s : State C) (stamp : Nat) : List Effect → Prop where
  | quiet {rest : List Effect} : Quiet rest → Going s stamp rest
  | ready {command : Command} {rest : List Effect} :
    Picked s stamp command → Undispatched s stamp → Quiet rest →
    Going s stamp (.dispatch command :: rest)

/-- All runs but the outermost have nothing to do. -/
def Settled (s : State C) : List Frame → Prop
  | [] => True
  | [f] => Going s f.stamp f.rest
  | f :: g :: stack => f.rest = [] ∧ Settled s (g :: stack)

/-- `online.js` reads its "null". -/
structure Calm (s : State C) : Prop where
  clean : ∀ n, s.seen = some n → (s.snapshot n).todo = some "null"
  frames : Settled s s.stack

/-- A run has begun and not yet cleared `todo`. -/
def Starting (cfg : DoorConfig) (s : State C) : Prop :=
  ∃ n, s.seen = some n ∧ s.stack = [s.run cfg n] ∧ (s.snapshot n).todo ≠ some "null" ∧
    ∀ w, s.read n .todo = some w → Undispatched s w.stamp

/-- What holds of the dispatches made so far: each has a landed command with a
"null" behind it, no two have the same, and each has been caused. -/
structure Dispatches (s : State C) : Prop where
  picked : ∀ command stamp, .dispatched command stamp ∈ s.trace → Picked s stamp command
  once : s.trace.Pairwise fun e e' => ∀ stamp, e.pick? = some stamp → e'.pick? ≠ some stamp
  caused : ∀ (i stamp : Nat) (command : Command), s.trace[i]? = some (.dispatched command stamp) →
    stamp < i ∧ ∃ c, s.trace[stamp]? = some (.wrote c command.text)

/-- The part of the invariant that does not look at the runs. -/
structure Core (s : State C) : Prop where
  sound : Sound s.store s.trace
  told : ∀ n, s.seen = some n ∨ n ∈ s.down → n ≤ s.store.hist.length
  dispatches : Dispatches s

structure Inv (cfg : DoorConfig) (s : State C) : Prop extends Core s where
  phase : Calm s ∨ Starting cfg s

omit [DecidableEq C] in
theorem pick?_eq_some {e : Event C} {stamp : Nat} :
    e.pick? = some stamp ↔ ∃ command, e = .dispatched command stamp := by
  cases e <;> simp [Event.pick?]

/-! ## Growth -/

omit [DecidableEq C] in
theorem Picked.mono {s s' : State C} {stamp : Nat} {command : Command}
    (h : Picked s stamp command) (hstore : s.store.Extends s'.store)
    (htrace : s.trace <+: s'.trace) : Picked s' stamp command := by
  obtain ⟨k, w, c, hk, hw, hstamp, u, hu, hclear⟩ := h
  have hlen : k + 1 ≤ s.store.hist.length := (List.getElem?_eq_some_iff.mp hk).1
  exact ⟨k, w, c, hstore.getElem? hk, hw.extend htrace, hstamp, u,
    hstore.later (k + 1) hlen u hu, hclear⟩

/-- `s'` has what `s` has, and has dispatched nothing more. -/
structure Grows (s s' : State C) : Prop where
  store : s.store.Extends s'.store
  trace : ∃ events, s'.trace = s.trace ++ events ∧ ∀ e ∈ events, Event.pick? e = none

namespace Grows

variable {s s' : State C} {stamp : Nat}

omit [DecidableEq C]

theorem past (h : Grows s s') : s.trace <+: s'.trace := by
  obtain ⟨events, htrace, -⟩ := h.trace
  exact ⟨events, htrace.symm⟩

theorem picked (h : Grows s s') {command : Command} (hp : Picked s stamp command) :
    Picked s' stamp command := hp.mono h.store h.past

theorem undispatched (h : Grows s s') (hu : Undispatched s stamp) : Undispatched s' stamp := by
  intro command hmem
  obtain ⟨events, htrace, hnone⟩ := h.trace
  rcases List.mem_append.mp (htrace ▸ hmem) with hold | hnew
  · exact hu command hold
  · simpa [Event.pick?] using hnone _ hnew

theorem going (h : Grows s s') {rest : List Effect} (hg : Going s stamp rest) :
    Going s' stamp rest := by
  cases hg with
  | quiet hq => exact .quiet hq
  | ready hp hu hq => exact .ready (h.picked hp) (h.undispatched hu) hq

theorem settled (h : Grows s s') {stack : List Frame} (hst : Settled s stack) :
    Settled s' stack := by
  induction stack with
  | nil => trivial
  | cons f stack ih =>
    cases stack with
    | nil => exact h.going hst
    | cons g stack => exact ⟨hst.1, ih hst.2⟩

theorem dispatches (h : Grows s s') (hd : Dispatches s) : Dispatches s' := by
  obtain ⟨events, htrace, hnone⟩ := h.trace
  have hno : ∀ {command : Command} {stamp : Nat}, .dispatched command stamp ∉ events :=
    fun hmem => by simpa [Event.pick?] using hnone _ hmem
  refine ⟨fun command stamp hmem => h.picked (hd.picked command stamp ?_), ?_, ?_⟩
  · exact (List.mem_append.mp (htrace ▸ hmem)).resolve_right hno
  · rw [htrace]
    refine List.pairwise_append.mpr ⟨hd.once, ?_, fun e _ e' he' => ?_⟩
    · exact List.pairwise_of_forall_mem_list fun e _ e' he' => by simp [hnone e' he']
    · simp [hnone e' he']
  · intro i stamp command hi
    rw [htrace, List.getElem?_append] at hi
    split at hi
    · obtain ⟨hlt, c, hc⟩ := hd.caused i stamp command hi
      have hstamp : stamp < s.trace.length := (List.getElem?_eq_some_iff.mp hc).1
      exact ⟨hlt, c, by rw [htrace, List.getElem?_append_left hstamp, hc]⟩
    · exact absurd (List.mem_of_getElem? hi) hno

/-- Whatever keeps the stack and what `online.js` reads of the two children keeps the phase. -/
theorem phase [DecidableEq C] {cfg : DoorConfig} (h : Grows s s') (hseen : s'.seen = s.seen)
    (hstack : s'.stack = s.stack)
    (hread : ∀ n path, s.seen = some n → s'.read n path = s.read n path)
    (hp : Calm s ∨ Starting cfg s) : Calm s' ∨ Starting cfg s' := by
  have hsnap : ∀ n, s.seen = some n → s'.snapshot n = s.snapshot n := by
    intro n hn
    simp only [State.snapshot, hread n _ hn]
  rcases hp with hcalm | ⟨n, hn, hst, hnull, hfresh⟩
  · refine .inl ⟨fun n hn => ?_, hstack ▸ h.settled hcalm.frames⟩
    rw [hseen] at hn
    rw [hsnap n hn]
    exact hcalm.clean n hn
  · have hrun : s'.run cfg n = s.run cfg n := by
      simp only [State.run, hsnap n hn, hread n _ hn]
    refine .inr ⟨n, hseen.trans hn, by rw [hstack, hst, hrun], by rwa [hsnap n hn], ?_⟩
    intro w hw
    rw [hread n _ hn] at hw
    exact h.undispatched (hfresh w hw)

end Grows

/-! ## Settled stacks -/

section Settled

variable {s : State C} {stamp : Nat} {e : Effect} {rest : List Effect} {f : Frame}
  {stack : List Frame}

omit [DecidableEq C]

theorem Settled.tail (h : Settled s (f :: stack)) : Settled s stack := by
  cases stack with
  | nil => trivial
  | cons g stack => exact h.2

/-- Only the outermost run has something to do. -/
theorem Settled.busy (h : Settled s (⟨stamp, e :: rest⟩ :: stack)) :
    stack = [] ∧ Going s stamp (e :: rest) := by
  cases stack with
  | nil => exact ⟨rfl, h⟩
  | cons g stack => exact absurd h.1 (List.cons_ne_nil e rest)

theorem Settled.push (h : Settled s stack) (hf : f.rest = []) : Settled s (f :: stack) := by
  cases stack with
  | nil =>
    change Going s f.stamp f.rest
    rw [hf]
    exact .quiet quiet_nil
  | cons g stack => exact ⟨hf, h⟩

end Settled

/-! ## Writes of `online.js` -/

section Set

variable {cfg : DoorConfig} {s : State C} {path : Path} {value : Value}

@[simp] theorem set_store :
    (s.set cfg path value).store = s.store.issue ⟨.online, path, value, s.trace.length⟩ := by
  simp only [State.set]
  split <;> rfl

@[simp] theorem set_trace : (s.set cfg path value).trace = s.trace := by
  simp only [State.set]
  split <;> rfl

@[simp] theorem set_seen : (s.set cfg path value).seen = s.seen := by
  simp only [State.set]
  split <;> rfl

@[simp] theorem set_down : (s.set cfg path value).down = s.down := by
  simp only [State.set]
  split <;> rfl

/-- Before the first value event no run is called. -/
theorem set_stack (cfg : DoorConfig) (s : State C) (path : Path) (value : Value) :
    (s.set cfg path value).stack = s.stack ∨
    ∃ f, (s.set cfg path value).stack = f :: s.stack := by
  simp only [State.set]
  split
  · exact .inl rfl
  · exact .inr ⟨_, rfl⟩

theorem grows_set : Grows s (s.set cfg path value) where
  store := by
    rw [set_store]
    exact .issue _ _
  trace := ⟨[], by simp, by simp⟩

theorem read_set_self {n : Nat} : (s.set cfg path value).read n path =
    some ⟨.online, path, value, s.trace.length⟩ := by
  rw [State.read, set_store]
  exact Store.read_issue_self rfl rfl

theorem read_set_of_ne {n : Nat} {path' : Path} (h : path ≠ path') :
    (s.set cfg path value).read n path' = s.read n path' := by
  rw [State.read, set_store]
  exact Store.read_issue_of_ne (.inr h)

/-- The run that a write calls has nothing to do while `todo` reads "null". -/
theorem settled_set (hclean : ∀ n, s.seen = some n →
    ((s.set cfg path value).snapshot n).todo = some "null")
    (h : Settled (s.set cfg path value) s.stack) :
    Settled (s.set cfg path value) (s.set cfg path value).stack := by
  cases hseen : s.seen with
  | none =>
    have hstack : (s.set cfg path value).stack = s.stack := by simp [State.set, hseen]
    rwa [hstack]
  | some n =>
    have hstack : (s.set cfg path value).stack = (s.set cfg path value).run cfg n :: s.stack := by
      simp [State.set, hseen, State.run, State.snapshot, State.read]
    rw [hstack]
    exact h.push (handler_of_null (hclean n hseen))

/-- Clearing `todo` makes `online.js` read its "null". -/
theorem calm_clear (h : Settled (s.set cfg .todo (.text "null")) s.stack) :
    Calm (s.set cfg .todo (.text "null")) := by
  have hclean : ∀ n, ((s.set cfg .todo (.text "null")).snapshot n).todo = some "null" := by
    intro n
    simp [State.snapshot, read_set_self, Value.text?]
  exact ⟨fun n _ => hclean n, settled_set (fun n _ => hclean n) h⟩

/-- A write to another child leaves what it reads of `todo`. -/
theorem Calm.set (h : Calm s) (hp : path ≠ .todo) : Calm (s.set cfg path value) := by
  have hclean : ∀ n, s.seen = some n →
      ((s.set cfg path value).snapshot n).todo = some "null" := by
    intro n hn
    rw [← h.clean n hn, State.snapshot, State.snapshot]
    simp only [read_set_of_ne hp]
  refine ⟨fun n hn => hclean n (by simpa using hn), settled_set hclean ?_⟩
  exact grows_set.settled h.frames

end Set

end SmartDoor.Online
