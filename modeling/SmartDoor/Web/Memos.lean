-- SUMMARY: The memos of a door on any number of pages: each page shows those it knows to be added less those it knows to be deleted, and at rest all show the same.
import SmartDoor.Base.Keyed
import SmartDoor.Base.Transition
import Mathlib.Logic.Function.Basic

/-!
# Memos

`WebInterface/src/memos.js`: the list of memos of one door, on the main page and in
its modal. `onSaveClick` pushes a memo under a new key, `deleteTask` removes one by
its key. A page is told of the server's arrivals in order, sees its own writes at
once, and shows a memo by its checkbox for as long as it is rendered: the list in the
modal may be an older one. Keys are numbers here, in the order of the clicks; no
two pushes of Firebase have the same.
-/

namespace SmartDoor.Web

open Registers

inductive Click (C : Type) where
  | added (c : C) (key : Nat) (task : String)
  | deleted (c : C) (key : Nat)
  deriving DecidableEq, Repr

/-- The click that has made the write. -/
def clickOf {C : Type} (w : Write C Nat (Option String)) : Click C :=
  match w.value with
  | some task => .added w.author w.path task
  | none => .deleted w.author w.path

/-- `told` is how many arrivals a page has been told of. -/
structure Memos (C : Type) where
  store : Store C Nat (Option String)
  told : C → Nat
  trace : List (Click C)

inductive MemosAction (C : Type) where
  | onSaveClick (c : C) (task : String)
  | deleteTask (c : C) (key : Nat)
  /-- The `i`th write on its way reaches the server. -/
  | land (i : Nat)
  /-- A snapshot with the first `n` arrivals is delivered to a page. -/
  | snapshot (c : C) (n : Nat)

variable {C : Type} [DecidableEq C]

namespace Memos

def init : Memos C where
  store := ⟨[], []⟩
  told := fun _ => 0
  trace := []

/-- The writes that a page has been told of or has made. -/
def known (s : Memos C) (c : C) : List (Write C Nat (Option String)) := s.store.view c (s.told c)

/-- The task under a key in the snapshot of a page. -/
def task (s : Memos C) (c : C) (key : Nat) : Option String :=
  (s.store.read c (s.told c) key).bind (·.value)

/-- `renderItems()`: the rows with their keys. -/
def renderItems (s : Memos C) (c : C) : List (Nat × String) :=
  (List.range s.trace.length).filterMap fun key => (s.task c key).map fun task => (key, task)

/-- A row with this key is, or has been, on the page. -/
def hasRow (s : Memos C) (c : C) (key : Nat) : Bool :=
  (s.known c).any fun w => w.path = key && w.value.isSome

def write (s : Memos C) (w : Write C Nat (Option String)) : Memos C :=
  { s with store := s.store.issue w, trace := s.trace ++ [clickOf w] }

def step (s : Memos C) : MemosAction C → Option (Memos C)
  | .onSaveClick c task =>
    some (s.write ⟨c, s.trace.length, some task, s.trace.length⟩)
  | .deleteTask c key =>
    if s.hasRow c key then some (s.write ⟨c, key, none, s.trace.length⟩) else none
  | .land i => (s.store.land i).map fun store => { s with store := store }
  | .snapshot c n =>
    if s.told c ≤ n ∧ n ≤ s.store.hist.length then
      some { s with told := Function.update s.told c n }
    else none

/-- Every write has landed, and every page has been told of it. -/
def Settled (s : Memos C) : Prop := s.store.flight = [] ∧ ∀ c, s.told c = s.store.hist.length

end Memos

/-! ## The invariant -/

variable {s s' : Memos C}

/-- The writes are those of the clicks. -/
structure Memos.Inv (s : Memos C) : Prop where
  orderly : Orderly s.store
  fresh : ∀ w ∈ s.store.hist ++ s.store.flight, w.path < s.trace.length
  clicks : ((s.store.hist ++ s.store.flight).map clickOf).Perm s.trace

omit [DecidableEq C] in
theorem Memos.Inv.init : (Memos.init : Memos C).Inv where
  orderly := orderly_empty
  fresh := by simp [Memos.init]
  clicks := List.Perm.refl _

omit [DecidableEq C] in
theorem Memos.Inv.write (h : s.Inv) {w : Write C Nat (Option String)}
    (horderly : Orderly (s.store.issue w)) (hw : w.path ≤ s.trace.length) : (s.write w).Inv := by
  refine ⟨horderly, fun u hu => ?_, ?_⟩
  · simp only [Memos.write, issue_append, List.length_append, List.length_singleton] at hu ⊢
    rcases List.mem_append.mp hu with hu | hu
    · exact Nat.lt_succ_of_lt (h.fresh u hu)
    · rw [List.mem_singleton.mp hu]
      exact Nat.lt_succ_of_le hw
  · rw [Memos.write, issue_append, List.map_append]
    exact h.clicks.append_right _

theorem Memos.Inv.step {a : MemosAction C} (h : s.Inv) (hstep : s.step a = some s') : s'.Inv := by
  cases a with
  | onSaveClick c task =>
    obtain rfl : _ = s' := Option.some.inj hstep
    refine h.write (h.orderly.add (fun u hu => ?_) (by simp [Write.Adds])) (Nat.le_refl _)
    exact Nat.ne_of_lt (h.fresh u hu)
  | deleteTask c key =>
    simp only [Memos.step] at hstep
    split at hstep
    · next hrow =>
      obtain rfl : _ = s' := Option.some.inj hstep
      -- the row comes from a write that the page knows of
      obtain ⟨u, hu, hpath, hvalue⟩ : ∃ u ∈ s.known c, u.path = key ∧ u.value.isSome := by
        simpa [Memos.hasRow] using hrow
      have hadds : u.Adds := by simpa [Write.Adds, Option.isSome_iff_ne_none] using hvalue
      refine h.write (h.orderly.remove (by simp [Write.Adds]) ⟨u, hu, hpath, hadds⟩) ?_
      exact Nat.le_of_lt (hpath ▸ h.fresh u (view_sublist.subset hu))
    · cases hstep
  | land i =>
    obtain ⟨store, hland, rfl⟩ := Option.map_eq_some_iff.mp hstep
    have hperm := Store.perm_land hland
    refine ⟨h.orderly.land hland, fun w hw => h.fresh w (hperm.mem_iff.mp hw), ?_⟩
    exact (hperm.map clickOf).trans h.clicks
  | snapshot c n =>
    simp only [Memos.step] at hstep
    split at hstep
    · obtain rfl : _ = s' := Option.some.inj hstep
      exact ⟨h.orderly, h.fresh, h.clicks⟩
    · cases hstep

/-! ## What the pages show -/

theorem Memos.Inv.mem_renderItems (h : s.Inv) {c : C} {key : Nat} {task : String} :
    (key, task) ∈ s.renderItems c ↔ s.task c key = some task := by
  simp only [Memos.renderItems, List.mem_filterMap, List.mem_range, Option.map_eq_some_iff,
    Prod.mk.injEq]
  constructor
  · rintro ⟨k, -, t, ht, rfl, rfl⟩
    exact ht
  · intro ht
    refine ⟨key, ?_, task, ht, rfl, rfl⟩
    obtain ⟨w, hw, -⟩ := Option.bind_eq_some_iff.mp ht
    obtain ⟨hmem, hpath⟩ := Store.mem_of_read hw
    exact hpath ▸ h.fresh w hmem

/-- In every reachable state each page shows the memos that were added by the writes it knows
of and deleted by none of them, in the order of their keys. When every write has landed and
every page has been told, these are the memos that somebody has added and nobody deleted, on
every page the same. -/
theorem memos_shown {as : List (MemosAction C)}
    (hrun : Transition.run Memos.step .init as = some s) :
    (∀ c key task, (key, task) ∈ s.renderItems c ↔
      (∃ w ∈ s.known c, w.path = key ∧ w.value = some task) ∧
        ∀ w ∈ s.known c, w.path = key → w.value ≠ none) ∧
    (s.Settled → ∀ c key task, (key, task) ∈ s.renderItems c ↔
      (∃ d, .added d key task ∈ s.trace) ∧ ∀ d, .deleted d key ∉ s.trace) := by
  have hinv : s.Inv := Transition.run_invariant (fun _ _ _ h hstep => h.step hstep) .init hrun
  have hshown : ∀ c key task, (key, task) ∈ s.renderItems c ↔
      (∃ w ∈ s.known c, w.path = key ∧ w.value = some task) ∧
        ∀ w ∈ s.known c, w.path = key → w.value ≠ none := by
    intro c key task
    rw [hinv.mem_renderItems]
    exact Option.bind_eq_some_iff.trans hinv.orderly.read_eq_some_iff
  refine ⟨hshown, fun hsettled c key task => (hshown c key task).trans ?_⟩
  have hknown : s.known c = s.store.hist ++ s.store.flight := by
    simp [Memos.known, Store.view, Store.pending, hsettled.1, hsettled.2 c]
  have hclick : ∀ x, x ∈ s.trace ↔ ∃ w ∈ s.known c, clickOf w = x := by
    intro x
    rw [hknown, ← hinv.clicks.mem_iff, List.mem_map]
  refine and_congr ?_ ?_
  · simp only [hclick]
    constructor
    · rintro ⟨w, hw, rfl, hvalue⟩
      exact ⟨w.author, w, hw, by simp [clickOf, hvalue]⟩
    · rintro ⟨d, w, hw, hx⟩
      unfold clickOf at hx
      split at hx
      · next t hvalue =>
        obtain ⟨-, rfl, rfl⟩ : w.author = d ∧ w.path = key ∧ t = task := by simpa using hx
        exact ⟨w, hw, rfl, hvalue⟩
      · cases hx
  · simp only [hclick, not_exists, not_and]
    constructor
    · intro hall d w hw hx
      unfold clickOf at hx
      split at hx
      · cases hx
      · next hvalue =>
        obtain ⟨-, rfl⟩ : w.author = d ∧ w.path = key := by simpa using hx
        exact hall w hw rfl hvalue
    · intro hnone w hw hpath hvalue
      exact hnone w.author w hw (by simp [clickOf, hvalue, hpath])

/-- Two pages add a memo each; the second one deletes the first memo when it has seen it. -/
def twoMemos : List (MemosAction Bool) :=
  [.onSaveClick true "keys", .onSaveClick false "milk", .land 1, .land 0, .snapshot false 2,
    .deleteTask false 0, .land 0, .snapshot true 3, .snapshot false 3]

theorem memos_shown_twoMemos :
    ∃ s, Transition.run Memos.step .init twoMemos = some s ∧ s.Settled ∧
      s.renderItems true = [(1, "milk")] ∧ s.renderItems false = [(1, "milk")] ∧
      ((1, "milk") ∈ s.renderItems true ↔
        (∃ d, .added d 1 "milk" ∈ s.trace) ∧ ∀ d, .deleted d 1 ∉ s.trace) := by
  obtain ⟨s, hrun, hflight, htold, htold', hrows, hrows'⟩ :
      ∃ s, Transition.run Memos.step .init twoMemos = some s ∧ s.store.flight = [] ∧
        s.told true = s.store.hist.length ∧ s.told false = s.store.hist.length ∧
        s.renderItems true = [(1, "milk")] ∧ s.renderItems false = [(1, "milk")] :=
    ⟨_, rfl, rfl, rfl, rfl, rfl, rfl⟩
  have hsettled : s.Settled := ⟨hflight, fun c => by cases c <;> assumption⟩
  exact ⟨s, hrun, hsettled, hrows, hrows', (memos_shown hrun).2 hsettled true 1 "milk"⟩

end SmartDoor.Web
