-- SUMMARY: Exactly when every log entry of online.js carries the name of the client whose command it reports.
import SmartDoor.Online.Steps

/-!
# The audit log

A command and its author are two writes to two children that all clients share.
The entry of the log takes the name from the snapshot that shows the command, so
it is right exactly if the newest `todo-name` there was written under that name.
-/

namespace SmartDoor.Online

open Registers

variable {C : Type}

/-- The entry names the client that called `writecom` at the given place of the trace. -/
def Right (nameOf : C → String) (events : List (Event C)) (name todo : Option String)
    (stamp : Nat) : Prop :=
  ∃ c command, events[stamp]? = some (.wrote c command) ∧ todo = some command ∧
    name = some (nameOf c)

/-- Every entry of the log names the client of the command it was pushed for. -/
def LogRight (nameOf : C → String) (s : State C) : Prop :=
  ∀ name todo stamp, .logged name todo stamp ∈ s.trace → Right nameOf s.trace name todo stamp

variable [DecidableEq C]

/-- If `online.js` is handed a snapshot that shows a client's Lock, Unlock or
Emergency, then the newest `todo-name` in it is by a client of the same name. -/
def Attributed (nameOf : C → String) (s : State C) (a : Action C) : Prop :=
  a = .deliver → s.stack = [] → ∀ n, s.down.head? = some n →
    ∀ w c (command : Command), s.read n .todo = some w → w.author = .client c →
      w.value = .text command.text → command.Logged →
      ∃ w' d, s.read n .todoName = some w' ∧ w'.author = .client d ∧ nameOf d = nameOf c

variable {cfg : DoorConfig} {nameOf : C → String} {s s' : State C}

/-! ## The names in the node -/

/-- Every write of `todo-name` is a client's, with its name. -/
def Named (nameOf : C → String) (s : State C) : Prop :=
  ∀ w ∈ s.store.hist ++ s.store.flight, w.path = .todoName →
    ∃ d, w.author = .client d ∧ w.value = .text (nameOf d)

omit [DecidableEq C] in
theorem Named.issue (h : Named nameOf s) {s' : State C} {w : Write (Author C) Path Value}
    (hstore : s'.store = s.store.issue w)
    (hw : w.path = .todoName → ∃ d, w.author = .client d ∧ w.value = .text (nameOf d)) :
    Named nameOf s' := by
  intro u hu hp
  rw [hstore, Store.issue, ← List.append_assoc] at hu
  rcases List.mem_append.mp hu with hu | hu
  · exact h u hu hp
  · obtain rfl := List.mem_singleton.mp hu
    exact hw hp

theorem Named.step {a : Action C} (h : Named nameOf s) (hinv : Inv cfg s)
    (hstep : s.step cfg nameOf a = some s') : Named nameOf s' := by
  cases moves_of_step hinv hstep with
  | writecom c command =>
    have hfirst : Named nameOf
        { s with store := s.store.issue ⟨.client c, .todo, .text command, s.trace.length⟩ } :=
      h.issue rfl fun heq => nomatch heq
    exact hfirst.issue rfl fun _ => ⟨c, rfl, rfl⟩
  | service name value htodo hname => exact h.issue rfl fun heq => absurd heq hname
  | land hland => exact fun w hw => h w ((Store.perm_land hland).mem_iff.mp hw)
  | skip hi => exact h
  | deliver hstack hdown => exact h
  | finish hf hstack => exact h
  | perform hp =>
    intro u hu hpath
    rw [hp.hist] at hu
    rcases List.mem_append.mp hu with hu | hu
    · exact h u (List.mem_append_left _ hu) hpath
    · rcases hp.flight u hu with hu | hnew
      · exact h u (List.mem_append_right _ hu) hpath
      · exact absurd hpath (hnew (hinv.effect_ne hp.before))
  | timer ha hstack hq hlog => exact h

/-! ## Entries that are pushed or about to be -/

/-- The entry has been pushed, or a run in progress will push it. -/
def Entry (s : State C) (name todo : Option String) (stamp : Nat) : Prop :=
  Due s stamp (.storeLog name todo)

/-- Only a value event makes new entries. -/
theorem entry_of_step {a : Action C} (hinv : Inv cfg s)
    (hstep : s.step cfg nameOf a = some s') {name todo : Option String} {stamp : Nat} :
    Entry s' name todo stamp ↔ Entry s name todo stamp ∨
      a = .deliver ∧ s.stack = [] ∧ ∃ n, s.down.head? = some n ∧ (s.run cfg n).stamp = stamp ∧
        .storeLog name todo ∈ handler cfg (s.snapshot n) :=
  due_of_step (e := .storeLog name todo) hinv hstep trivial

omit [DecidableEq C] in
/-- Once the place of the `writecom` is in the trace, what comes later does not matter. -/
theorem right_append_iff {events rest : List (Event C)} {name todo : Option String} {stamp : Nat}
    (hlt : stamp < events.length) :
    Right nameOf (events ++ rest) name todo stamp ↔ Right nameOf events name todo stamp := by
  simp only [Right, List.getElem?_append_left hlt]

/-! ## One value event -/

/-- Whether a snapshot that shows a command is logged right depends on the two
newest writes in it alone. -/
theorem right_iff_attributed (hinv : Inv cfg s) (hnamed : Named nameOf s) {n : Nat} :
    (∀ name todo, .storeLog name todo ∈ handler cfg (s.snapshot n) →
      Right nameOf s.trace name todo (s.run cfg n).stamp) ↔
    ∀ w c (command : Command), s.read n .todo = some w → w.author = .client c →
      w.value = .text command.text → command.Logged →
      ∃ w' d, s.read n .todoName = some w' ∧ w'.author = .client d ∧ nameOf d = nameOf c := by
  constructor
  · intro h w c command hread hauthor hvalue hlogged
    have htodo : (s.snapshot n).todo = some command.text := by
      simp [State.snapshot, hread, hvalue, Value.text?]
    obtain ⟨w₀, c₀, hread₀, hissued, hstamp⟩ := hinv.command_of_snapshot htodo
    obtain rfl : w = w₀ := Option.some.inj (hread.symm.trans hread₀)
    obtain rfl : c = c₀ := by simpa [hauthor] using hissued.author
    obtain ⟨c', text, hwrote, -, hname⟩ :=
      h _ _ (storeLog_mem_handler.mpr ⟨command, htodo, hlogged, rfl, rfl⟩)
    obtain ⟨rfl, -⟩ : c' = c ∧ text = command.text := by
      simpa [hstamp, hissued.wrote, eq_comm] using hwrote
    -- the name was read in some write of `todo-name`
    obtain ⟨w', hread', htext⟩ := Option.bind_eq_some_iff.mp hname
    obtain ⟨hmem, hpath⟩ := Store.mem_of_read hread'
    obtain ⟨d, hd, hvalue'⟩ := hnamed w' hmem hpath
    exact ⟨w', d, hread', hd, by simpa [hvalue', Value.text?] using htext⟩
  · intro h name todo hmem
    obtain ⟨command, htodo, hlogged, rfl, rfl⟩ := storeLog_mem_handler.mp hmem
    obtain ⟨w, c, hread, hissued, hstamp⟩ := hinv.command_of_snapshot htodo
    obtain ⟨w', d, hread', hd, heq⟩ :=
      h w c command hread hissued.author hissued.value hlogged
    obtain ⟨hmem', hpath⟩ := Store.mem_of_read hread'
    obtain ⟨d', hd', hvalue'⟩ := hnamed w' hmem' hpath
    obtain rfl : d = d' := by simpa [hd] using hd'
    refine ⟨c, command.text, by rw [hstamp, hissued.wrote], htodo, ?_⟩
    simp only [State.snapshot, hread', Option.bind_some, hvalue', Value.text?, heq]

/-- The commands that a value event shows have been written. -/
theorem stamp_lt_of_storeLog (hinv : Inv cfg s) {n : Nat} {name todo : Option String}
    (hmem : .storeLog name todo ∈ handler cfg (s.snapshot n)) :
    (s.run cfg n).stamp < s.trace.length := by
  obtain ⟨command, htodo, -⟩ := storeLog_mem_handler.mp hmem
  obtain ⟨w, c, -, hissued, hstamp⟩ := hinv.command_of_snapshot htodo
  exact hstamp ▸ hissued.stamp_lt

/-! ## Every run -/

/-- All entries, pushed or about to be, are right. -/
def EntriesRight (nameOf : C → String) (s : State C) : Prop :=
  ∀ name todo stamp, Entry s name todo stamp →
    stamp < s.trace.length ∧ Right nameOf s.trace name todo stamp

theorem entriesRight_of_step {a : Action C} (h : EntriesRight nameOf s) (hinv : Inv cfg s)
    (hnamed : Named nameOf s) (hg : Attributed nameOf s a)
    (hstep : s.step cfg nameOf a = some s') : EntriesRight nameOf s' := by
  intro name todo stamp hentry
  obtain ⟨rest, hrest⟩ := trace_prefix_of_step hinv hstep
  have hold : stamp < s.trace.length ∧ Right nameOf s.trace name todo stamp := by
    rcases (entry_of_step hinv hstep).mp hentry with hold | ⟨rfl, hstack, n, hn, rfl, hmem⟩
    · exact h name todo stamp hold
    · exact ⟨stamp_lt_of_storeLog hinv hmem,
        (right_iff_attributed hinv hnamed).mpr (hg rfl hstack n hn) name todo hmem⟩
  rw [← hrest, right_append_iff hold.1]
  exact ⟨Nat.lt_of_lt_of_le hold.1 (by simp), hold.2⟩

omit [DecidableEq C] in
theorem named_init : Named nameOf (State.init : State C) := by simp [Named, State.init]

theorem named_of_run {as : List (Action C)}
    (hrun : Transition.run (State.step cfg nameOf) State.init as = some s) : Named nameOf s :=
  Inv.init.run_invariant named_init (fun _ _ _ hinv h hstep => h.step hinv hstep) hrun

/-- What a value event adds to the log stays to the end. -/
theorem attributed_of_run {as : List (Action C)}
    (hrun : Transition.run (State.step cfg nameOf) State.init as = some s) (hstack : s.stack = [])
    (hright : LogRight nameOf s) :
    Transition.Meets (State.step cfg nameOf) (Attributed nameOf) State.init as := by
  refine Transition.meets_of_run hrun fun pre a post t t' _ hpre hstep hrest ha hst n hn => ?_
  have hinv : Inv cfg t := inv_of_run hpre
  have hinv' : Inv cfg t' := hinv.step hstep
  refine (right_iff_attributed hinv (named_of_run hpre)).mp fun name todo hmem => ?_
  have hentry : Entry t' name todo (t.run cfg n).stamp :=
    (entry_of_step hinv hstep).mpr (.inr ⟨ha, hst, n, hn, rfl, hmem⟩)
  have hlast : Entry s name todo (t.run cfg n).stamp :=
    hinv'.run_invariant hentry
      (fun _ _ _ hi he hs => (entry_of_step hi hs).mpr (.inl he)) hrest
  have hlogged : .logged name todo (t.run cfg n).stamp ∈ s.trace := by
    simpa [Entry, Due, Effect.event?, hstack] using hlast
  obtain ⟨events, htrace⟩ :=
    (trace_prefix_of_step hinv hstep).trans (trace_prefix_of_run hinv' hrest)
  have hlt := stamp_lt_of_storeLog hinv hmem
  exact (right_append_iff hlt).mp (htrace ▸ hright name todo _ hlogged)

/-- While every snapshot with a command is attributed, all entries of the log are
right; and once all runs have ended, that is the only way. -/
theorem logRight_iff_attributed {as : List (Action C)}
    (hrun : Transition.run (State.step cfg nameOf) State.init as = some s) :
    (Transition.Meets (State.step cfg nameOf) (Attributed nameOf) State.init as →
      LogRight nameOf s) ∧
    (s.stack = [] → LogRight nameOf s →
      Transition.Meets (State.step cfg nameOf) (Attributed nameOf) State.init as) := by
  constructor
  · intro hg
    have hall : Inv cfg s ∧ Named nameOf s ∧ EntriesRight nameOf s := by
      refine Transition.run_invariant_of_meets
        (I := fun t => Inv cfg t ∧ Named nameOf t ∧ EntriesRight nameOf t) ?_ ?_ hg hrun
      · rintro t a t' ⟨hi, hn, he⟩ hga hstep
        exact ⟨hi.step hstep, hn.step hi hstep, entriesRight_of_step he hi hn hga hstep⟩
      · exact ⟨.init, named_init, by simp [EntriesRight, Entry, Due, State.init]⟩
    exact fun name todo stamp hmem => (hall.2.2 name todo stamp (.inl ⟨_, hmem, rfl⟩)).2
  · exact attributed_of_run hrun

def ownerOrGuest : Bool → String
  | true => "owner"
  | false => "guest"

/-- The owner locks the door, and both writes have landed when it is handled. -/
def ownerLocks : List (Action Bool) :=
  [.writecom true "Lock", .land 0, .land 0, .skip 0, .skip 0, .deliver] ++
    List.replicate 7 (.exec 5)

theorem logRight_iff_attributed_ownerLocks :
    ∃ s, Transition.run (State.step doorconfig ownerOrGuest) State.init ownerLocks = some s ∧
      LogRight ownerOrGuest s ∧
      Transition.Meets (State.step doorconfig ownerOrGuest) (Attributed ownerOrGuest) State.init
        ownerLocks := by
  obtain ⟨s, hrun, hstack, htrace⟩ : ∃ s,
      Transition.run (State.step doorconfig ownerOrGuest) State.init ownerLocks = some s ∧
      s.stack = [] ∧ s.trace = [.wrote true "Lock", .handed 2, .dispatched .Lock 0,
        .logged (some "owner") (some "Lock") 0, .applied .Motor "Close" false] :=
    ⟨_, rfl, rfl, rfl⟩
  have hright : LogRight ownerOrGuest s := by
    intro name todo stamp hmem
    obtain ⟨rfl, rfl, rfl⟩ : name = some "owner" ∧ todo = some "Lock" ∧ stamp = 0 := by
      simpa [htrace] using hmem
    exact ⟨true, "Lock", by simp [htrace], rfl, rfl⟩
  exact ⟨s, hrun, hright, (logRight_iff_attributed hrun).2 hstack hright⟩

/-- Then a guest's unlock is handled before the second half of its `writecom`
has landed. -/
def guestHalfLanded : List (Action Bool) :=
  ownerLocks ++ [.writecom false "Unlock", .land 0, .land 0, .land 0, .skip 0, .skip 0, .deliver] ++
    List.replicate 7 (.exec 9)

/-- The log reports the guest's unlock under the name of the owner. -/
theorem unlock_logged_under_wrong_name :
    ¬ ∀ (as : List (Action Bool)) (s : State Bool),
      Transition.run (State.step doorconfig ownerOrGuest) State.init as = some s →
      LogRight ownerOrGuest s := by
  intro h
  obtain ⟨s, hrun, hwrote, hlogged⟩ : ∃ s,
      Transition.run (State.step doorconfig ownerOrGuest) State.init guestHalfLanded = some s ∧
      s.trace[5]? = some (.wrote false "Unlock") ∧
      .logged (some "owner") (some "Unlock") 5 ∈ s.trace := ⟨_, rfl, rfl, by decide⟩
  obtain ⟨c, command, hc, -, hname⟩ := h _ s hrun _ _ _ hlogged
  obtain ⟨rfl, -⟩ : c = false ∧ "Unlock" = command := by
    simpa using hwrote.symm.trans hc
  revert hname
  decide

end SmartDoor.Online
