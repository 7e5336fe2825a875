-- SUMMARY: Which commands the door node can lose, and that all others have been dispatched once nothing is in flight.
import SmartDoor.Online.Steps

/-!
# Lost commands

`todo` is one cell for all clients, and the handler clears it without looking at
what it holds by then. A command is lost only if another write of `todo` replaced
it that had been issued before `online.js` was first handed a snapshot with the
command in it.
-/

namespace SmartDoor.Online

open Registers

variable {C : Type} [DecidableEq C] {cfg : DoorConfig} {nameOf : C → String} {s s' : State C}

/-- No write and no snapshot is in flight, and no run is in progress. -/
structure AtRest (s : State C) : Prop where
  flight : s.store.flight = []
  down : s.down = []
  stack : s.stack = []

/-- A write of `todo` stands behind the `k`th arrival that had been issued before
`online.js` was first handed that arrival. -/
def Overwritten (s : State C) (k : Nat) : Prop :=
  ∃ u ∈ s.store.hist.drop (k + 1) ++ s.store.flight, u.path = .todo ∧
    ∀ q n, s.trace[q]? = some (.handed n) → k < n → u.stamp ≤ q

/-! ## What `online.js` is told -/

/-- The newest arrival is the last that `online.js` has been or will be told of. -/
structure Heard (s : State C) : Prop where
  newest : (s.seen.toList ++ s.down).getLast? = some s.store.hist.length
  seen : ∀ n, s.seen = some n → .handed n ∈ s.trace
  handed : ∀ n, .handed n ∈ s.trace → n ≤ s.store.hist.length

theorem Heard.step {a : Action C} (h : Heard s) (hinv : Inv cfg s)
    (hstep : s.step cfg nameOf a = some s') : Heard s' := by
  cases moves_of_step hinv hstep with
  | writecom c command =>
    exact ⟨h.newest, fun n hn => List.mem_append_left _ (h.seen n hn), fun n hn =>
      h.handed n (by simpa [State.writecom] using hn)⟩
  | service name value htodo hname => exact ⟨h.newest, h.seen, h.handed⟩
  | land hland =>
    have hlen := Store.told_land hland
    refine ⟨by simp [← List.append_assoc], h.seen, fun n hn => ?_⟩
    exact Nat.le_trans (h.handed n hn) (by simp [hlen])
  | skip hi =>
    refine ⟨?_, h.seen, h.handed⟩
    rw [← h.newest, List.getLast?_append, List.getLast?_append, Lists.getLast?_eraseIdx hi]
  | @deliver n down hstack hdown =>
    refine ⟨?_, fun m hm => ?_, fun m hm => ?_⟩
    · rw [← h.newest, hdown, List.getLast?_append (l := s.seen.toList)]
      cases hlast : (n :: down).getLast? with
      | none => simp at hlast
      | some m => simpa using hlast
    · obtain rfl : n = m := Option.some.inj hm
      simp
    · rcases List.mem_append.mp hm with hold | hnew
      · exact h.handed m hold
      · obtain rfl : m = n := by simpa using hnew
        exact hinv.told m (.inr (by simp [hdown]))
  | finish hf hstack => exact ⟨h.newest, h.seen, h.handed⟩
  | perform hp =>
    refine ⟨by rw [hp.seen, hp.down, hp.hist, h.newest], fun n hn => ?_, fun n hn => ?_⟩
    · rw [hp.trace]
      exact List.mem_append_left _ (h.seen n (hp.seen ▸ hn))
    · rw [hp.trace] at hn
      rw [hp.hist]
      refine h.handed n ((List.mem_append.mp hn).resolve_right fun hnew => ?_)
      exact (event?_ne _ _).2 n (Option.mem_toList.mp hnew)
  | timer ha hstack hq hlog => exact ⟨h.newest, h.seen, h.handed⟩

/-! ## What every command comes to -/

/-- The writes of `todo` that clients have issued have landed or are on their way. -/
def Sent (s : State C) : Prop :=
  ∀ (i : Nat) (c : C) (command : String), s.trace[i]? = some (.wrote c command) →
    ∃ w ∈ s.store.hist ++ s.store.flight, w.stamp = i ∧ Issued s.trace w c command

/-- `online.js` has not been handed the command, or its dispatch is due, or it
has been overwritten. -/
def Accounted (s : State C) : Prop :=
  ∀ (k : Nat) (w : Write (Author C) Path Value) (c : C) (command : Command),
    s.store.hist[k]? = some w → Issued s.trace w c command.text →
    (∀ n, .handed n ∈ s.trace → n ≤ k) ∨ Due s w.stamp (.dispatch command) ∨ Overwritten s k

theorem extends_of_step {a : Action C} (hinv : Inv cfg s)
    (hstep : s.step cfg nameOf a = some s') : s.store.Extends s'.store := by
  cases moves_of_step hinv hstep with
  | writecom c command => exact (Store.Extends.issue _ _).trans (.issue _ _)
  | service name value htodo hname => exact .issue _ _
  | land hland => exact Store.extends_land hland
  | perform hp => exact hp.extends_store
  | skip | deliver | finish | timer => exact .refl _

/-- A value event is the only step that hands anything over. -/
theorem handed_of_step {a : Action C} (hinv : Inv cfg s)
    (hstep : s.step cfg nameOf a = some s') {q n : Nat} (hq : s'.trace[q]? = some (.handed n)) :
    s.trace[q]? = some (.handed n) ∨
      a = .deliver ∧ s.stack = [] ∧ s.down.head? = some n ∧ q = s.trace.length := by
  rcases event_of_step hinv hstep hq with hold | ⟨hlen, ⟨c, command, -, heq⟩ | hnew | ⟨e, st, he⟩⟩
  · exact .inl hold
  · cases heq
  · obtain ⟨m, ha, hstack, hm, heq⟩ := hnew
    obtain rfl : n = m := by simpa using heq
    exact .inr ⟨ha, hstack, hm, hlen⟩
  · exact absurd he ((event?_ne e st).2 n)

theorem Sent.step {a : Action C} (h : Sent s) (hinv : Inv cfg s)
    (hstep : s.step cfg nameOf a = some s') : Sent s' := by
  intro i c command hi
  rcases event_of_step hinv hstep hi with hold | ⟨hlen, ⟨c', command', rfl, heq⟩ | hnew | ⟨e, st, he⟩⟩
  · obtain ⟨w, hw, hstamp, hissued⟩ := h i c command hold
    have hw' := (extends_of_step hinv hstep).later 0 (Nat.zero_le _) w (by simpa using hw)
    exact ⟨w, by simpa using hw', hstamp, hissued.extend (trace_prefix_of_step hinv hstep)⟩
  · obtain ⟨rfl, rfl⟩ : c = c' ∧ command = command' := by simpa using heq
    obtain rfl : s.writecom nameOf c command = s' := Option.some.inj hstep
    exact ⟨⟨.client c, .todo, .text command, s.trace.length⟩,
      by simp [State.writecom, Store.issue], hlen.symm, rfl, rfl, rfl, by simp [State.writecom]⟩
  · obtain ⟨n, -, -, -, heq⟩ := hnew
    cases heq
  · exact absurd he ((event?_ne e st).1 c command)

/-- A later write of `todo` stays behind the command. -/
theorem Overwritten.step {a : Action C} {k : Nat} (h : Overwritten s k)
    (hk : k < s.store.hist.length) (hinv : Inv cfg s) (hstep : s.step cfg nameOf a = some s') :
    Overwritten s' k := by
  obtain ⟨u, hu, hp, hearly⟩ := h
  refine ⟨u, (extends_of_step hinv hstep).later (k + 1) hk u hu, hp, fun q n hq hkn => ?_⟩
  rcases handed_of_step hinv hstep hq with hold | ⟨-, -, -, rfl⟩
  · exact hearly q n hold hkn
  · exact hinv.sound.stamp u (Lists.mem_append_of_mem_drop_append hu)

/-- What becomes of a command that has not been handed over before the step. -/
theorem accounted_of_unheard {a : Action C} (hinv : Inv cfg s)
    (hstep : s.step cfg nameOf a = some s') {k : Nat} {w : Write (Author C) Path Value} {c : C}
    {command : Command} (hk : s.store.hist[k]? = some w) (hw : Issued s.trace w c command.text)
    (hnone : ∀ n, .handed n ∈ s.trace → n ≤ k) :
    (∀ n, .handed n ∈ s'.trace → n ≤ k) ∨ Due s' w.stamp (.dispatch command) ∨
      Overwritten s' k := by
  by_cases hnow : ∃ n, a = .deliver ∧ s.stack = [] ∧ s.down.head? = some n ∧ k < n
  · -- the first value event with the command in it
    obtain ⟨n, rfl, hstack, hhead, hkn⟩ := hnow
    right
    rcases Store.read_or_newer (a := .online) hk hkn hw.path with hread | ⟨u, hu, hp⟩
    · left
      have hread' : s.read n .todo = some w := hread
      have htodo : (s.snapshot n).todo = some command.text := by
        simp [State.snapshot, hread', hw.value, Value.text?]
      refine (due_of_step (e := .dispatch command) hinv hstep trivial).mpr
        (.inr ⟨rfl, hstack, n, hhead, by simp [State.run, hread'], ?_⟩)
      simp [handler_of_command htodo]
    · right
      have hlater := (List.getElem?_eq_some_iff.mp hk).1
      refine ⟨u, (extends_of_step hinv hstep).later (k + 1) hlater u hu, hp, fun q m hq hkm => ?_⟩
      rcases handed_of_step hinv hstep hq with hold | ⟨-, -, -, rfl⟩
      · exact absurd (hnone m (List.mem_of_getElem? hold)) (Nat.not_le_of_lt hkm)
      · exact hinv.sound.stamp u (Lists.mem_append_of_mem_drop_append hu)
  · left
    intro n hn
    obtain ⟨q, hq⟩ := List.mem_iff_getElem?.mp hn
    rcases handed_of_step hinv hstep hq with hold | ⟨ha, hstack, hhead, -⟩
    · exact hnone n (List.mem_of_getElem? hold)
    · by_contra hlt
      exact hnow ⟨n, ha, hstack, hhead, Nat.lt_of_not_le hlt⟩

theorem Accounted.step {a : Action C} (h : Accounted s) (hheard : Heard s) (hinv : Inv cfg s)
    (hstep : s.step cfg nameOf a = some s') : Accounted s' := by
  intro k w c command hk hw
  by_cases hlt : k < s.store.hist.length
  · -- an arrival of before
    have hk' : s.store.hist[k]? = some w := by
      rw [← hk, List.getElem?_eq_getElem hlt,
        (extends_of_step hinv hstep).getElem? (List.getElem?_eq_getElem hlt)]
    have hw' : Issued s.trace w c command.text := by
      have hmem := List.mem_append_left s.store.flight (List.mem_of_getElem? hk')
      obtain ⟨c', text, hold⟩ := (hinv.sound.todo w hmem hw.path).resolve_left
        fun hclears => hw.not_clears hclears.author
      obtain ⟨rfl, rfl⟩ : c = c' ∧ command.text = text :=
        ⟨by simpa [hw.author] using hold.author, by simpa [hw.value] using hold.value⟩
      exact hold
    rcases h k w c command hk' hw' with hnone | hdue | hover
    · exact accounted_of_unheard hinv hstep hk' hw' hnone
    · exact .inr (.inl ((due_of_step (e := .dispatch command) hinv hstep trivial).mpr (.inl hdue)))
    · exact .inr (.inr (hover.step hlt hinv hstep))
  · -- it has just landed
    left
    intro n hn
    refine Nat.le_trans ?_ (Nat.le_of_not_lt hlt)
    obtain ⟨q, hq⟩ := List.mem_iff_getElem?.mp hn
    rcases handed_of_step hinv hstep hq with hold | ⟨-, -, hhead, -⟩
    · exact hheard.handed n (List.mem_of_getElem? hold)
    · exact hinv.told n (.inr (List.mem_of_head? hhead))

/-! ## At rest -/

/-- What the counts of commands rest on. -/
structure Counted (s : State C) : Prop where
  heard : Heard s
  sent : Sent s
  accounted : Accounted s

theorem counted_of_run {as : List (Action C)}
    (hrun : Transition.run (State.step cfg nameOf) State.init as = some s) : Counted s :=
  Inv.init.run_invariant (I := Counted)
    { heard := ⟨rfl, by simp [State.init], by simp [State.init]⟩
      sent := by simp [Sent, State.init]
      accounted := by simp [Accounted, State.init] }
    (fun _ _ _ hinv h hstep => ⟨h.heard.step hinv hstep, h.sent.step hinv hstep,
      h.accounted.step h.heard hinv hstep⟩) hrun

omit [DecidableEq C] in
/-- At rest `online.js` has been handed everything. -/
theorem seen_of_atRest (h : Counted s) (hrest : AtRest s) :
    s.seen = some s.store.hist.length := by
  have hnewest := h.heard.newest
  rw [hrest.down, List.append_nil] at hnewest
  cases hseen : s.seen <;> simp [hseen] at hnewest ⊢
  exact hnewest

theorem todo_null_of_atRest (hinv : Inv cfg s) (h : Counted s) (hrest : AtRest s) :
    ∃ w, latest .todo s.store.hist = some w ∧ w.value = .text "null" := by
  have hclean := (hinv.calm_of_stack_nil hrest.stack).clean _ (seen_of_atRest h hrest)
  obtain ⟨w, hread, hvalue, -⟩ := Inv.read_of_snapshot cfg hclean
  refine ⟨w, ?_, hvalue⟩
  simpa [State.read, Store.read, Store.view, Store.pending, hrest.flight] using hread

/-- In every state at rest, `todo` holds "null", and every command that a client
wrote has been dispatched, unless another write of `todo` replaced it that had
been issued before `online.js` was first handed the command. -/
theorem dispatched_or_overwritten {as : List (Action C)}
    (hrun : Transition.run (State.step cfg nameOf) State.init as = some s) (hrest : AtRest s) :
    (∃ w, latest .todo s.store.hist = some w ∧ w.value = .text "null") ∧
    ∀ (i : Nat) (c : C) (command : Command), s.trace[i]? = some (.wrote c command.text) →
      .dispatched command i ∈ s.trace ∨
      ∃ k w, s.store.hist[k]? = some w ∧ w.stamp = i ∧ Issued s.trace w c command.text ∧
        Overwritten s k := by
  have hinv : Inv cfg s := inv_of_run hrun
  have hcounted : Counted s := counted_of_run hrun
  refine ⟨todo_null_of_atRest hinv hcounted hrest, fun i c command hi => ?_⟩
  obtain ⟨w, hw, rfl, hissued⟩ := hcounted.sent i c command.text hi
  rw [hrest.flight, List.append_nil] at hw
  obtain ⟨k, hk⟩ := List.mem_iff_getElem?.mp hw
  rcases hcounted.accounted k w c command hk hissued with hnone | hdue | hover
  · -- everything has been handed over
    have hlast := hnone _ (hcounted.heard.seen _ (seen_of_atRest hcounted hrest))
    exact absurd (List.getElem?_eq_some_iff.mp hk).1 (Nat.not_lt_of_le hlast)
  · left
    simpa [Due, Effect.event?, hrest.stack] using hdue
  · exact .inr ⟨k, w, hk, rfl, hissued, hover⟩

/-- One client locks the door, and everything arrives. -/
def lockToRest : List (Action Bool) :=
  [.writecom true "Lock", .land 0, .land 0, .skip 0, .skip 0, .deliver] ++
    List.replicate 7 (.exec 5) ++ [.land 0, .land 0, .skip 0, .deliver, .exec 9]

theorem dispatched_or_overwritten_lockToRest :
    ∃ s, Transition.run (State.step doorconfig fun _ => "guest") State.init lockToRest = some s ∧
      s.trace[0]? = some (.wrote true Command.Lock.text) ∧
      (.dispatched .Lock 0 ∈ s.trace ∨
        ∃ k w, s.store.hist[k]? = some w ∧ w.stamp = 0 ∧
          Issued s.trace w true Command.Lock.text ∧ Overwritten s k) := by
  obtain ⟨s, hrun, hflight, hdown, hstack, hwrote⟩ : ∃ s,
      Transition.run (State.step doorconfig fun _ => "guest") State.init lockToRest = some s ∧
      s.store.flight = [] ∧ s.down = [] ∧ s.stack = [] ∧
      s.trace[0]? = some (.wrote true Command.Lock.text) := ⟨_, rfl, rfl, rfl, rfl, rfl⟩
  exact ⟨s, hrun, hwrote,
    (dispatched_or_overwritten hrun ⟨hflight, hdown, hstack⟩).2 0 true .Lock hwrote⟩

/-- Two clients write their commands, and the handler sees the second one only. -/
def lockThenUnlock : List (Action Bool) :=
  [.writecom true "Lock", .writecom false "Unlock", .land 0, .land 0, .land 0, .land 0,
    .skip 0, .skip 0, .skip 0, .skip 0, .deliver] ++
    List.replicate 7 (.exec 5) ++ [.land 0, .land 0, .skip 0, .deliver, .exec 9]

/-- The Lock is never dispatched. -/
theorem lock_lost :
    ¬ ∀ (as : List (Action Bool)) (s : State Bool),
      Transition.run (State.step doorconfig fun _ => "guest") State.init as = some s →
      AtRest s → (latest .todo s.store.hist).map (·.value) = some (.text "null") →
      ∀ (i : Nat) (c : Bool) (command : Command), s.trace[i]? = some (.wrote c command.text) →
        ∃ stamp, .dispatched command stamp ∈ s.trace := by
  intro h
  obtain ⟨s, hrun, hflight, hdown, hstack, hnull, htrace⟩ : ∃ s,
      Transition.run (State.step doorconfig fun _ => "guest") State.init lockThenUnlock = some s ∧
      s.store.flight = [] ∧ s.down = [] ∧ s.stack = [] ∧
      (latest .todo s.store.hist).map (·.value) = some (.text "null") ∧
      s.trace = [.wrote true "Lock", .wrote false "Unlock", .handed 4, .dispatched .Unlock 1,
        .logged (some "guest") (some "Unlock") 1, .applied .Motor "Open" false, .handed 6] :=
    ⟨_, rfl, rfl, rfl, rfl, rfl, rfl⟩
  obtain ⟨stamp, hmem⟩ :=
    h _ s hrun ⟨hflight, hdown, hstack⟩ hnull 0 true .Lock (by rw [htrace]; rfl)
  simp [htrace] at hmem

/-- The second command is written while the handler's "null" is on its way. -/
def unlockBeforeNull : List (Action Bool) :=
  [.writecom true "Lock", .land 0, .land 0, .skip 0, .skip 0, .deliver] ++
    List.replicate 7 (.exec 5) ++
    [.writecom false "Unlock", .land 2, .land 2, .skip 0, .deliver, .exec 5,
      .land 0, .land 0, .skip 0, .deliver, .exec 9]

/-- The "null" on its way hides the Unlock from the handler, and then replaces it. -/
example : ∃ s,
    Transition.run (State.step doorconfig fun _ => "guest") State.init unlockBeforeNull = some s ∧
      AtRest s ∧
      (s.store.hist.filter (·.path = .todo)).map (fun w => (w.author, w.value)) =
        [(.client true, .text "Lock"), (.client false, .text "Unlock"), (.online, .text "null")] ∧
      s.trace = [.wrote true "Lock", .handed 2, .dispatched .Lock 0,
        .logged (some "guest") (some "Lock") 0, .applied .Motor "Close" false,
        .wrote false "Unlock", .handed 4, .handed 6] :=
  ⟨_, rfl, ⟨rfl, rfl, rfl⟩, rfl, rfl⟩

end SmartDoor.Online
