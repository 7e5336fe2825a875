-- SUMMARY: Every step of the door node keeps its invariant.
import SmartDoor.Online.Runs

/-!
# The steps of the door node

One lemma for each kind of action. Landing writes and writes of other parties do
not change what `online.js` reads; a value event begins a run; the effects of a
run keep `todo` clean.
-/

namespace SmartDoor.Online

open Registers

variable {C : Type} [DecidableEq C] {cfg : DoorConfig} {nameOf : C → String} {s s' : State C}

/-! ## The part that does not look at the runs -/

omit [DecidableEq C] in
theorem Grows.of_eq (hstore : s'.store = s.store) (htrace : s'.trace = s.trace) : Grows s s' :=
  ⟨hstore ▸ .refl _, [], by simp [htrace], by simp⟩

omit [DecidableEq C] in
theorem grows_record {event : Event C} (h : event.pick? = none) : Grows s (s.record event) :=
  ⟨.refl _, [event], rfl, by simpa using h⟩

namespace Core

omit [DecidableEq C] in
theorem of_grows (h : Core s) (hg : Grows s s') (hsound : Sound s'.store s'.trace)
    (htold : ∀ n, s'.seen = some n ∨ n ∈ s'.down → n ≤ s'.store.hist.length) : Core s' :=
  ⟨hsound, htold, hg.dispatches h.dispatches⟩

omit [DecidableEq C] in
theorem with_stack (h : Core s) (stack : List Frame) : Core { s with stack := stack } :=
  h.of_grows (.of_eq rfl rfl) h.sound h.told

omit [DecidableEq C] in
theorem record (h : Core s) {event : Event C} (hpick : event.pick? = none) :
    Core (s.record event) :=
  h.of_grows (grows_record hpick) (h.sound.extend (List.prefix_append _ _)) h.told

theorem set (h : Core s) {path : Path} {value : Value} (hp : path ≠ .todo) :
    Core (s.set cfg path value) := by
  refine h.of_grows grows_set ?_ (by simpa [Store.issue] using h.told)
  rw [set_store, set_trace]
  exact h.sound.issue_of_ne (Nat.le_refl _) hp

theorem clear (h : Core s) : Core (s.set cfg .todo (.text "null")) := by
  refine h.of_grows grows_set ?_ (by simpa [Store.issue] using h.told)
  rw [set_store, set_trace]
  exact h.sound.issue_clears (Nat.le_refl _) ⟨rfl, rfl, rfl⟩

end Core

/-! ## Other parties and the network -/

namespace Inv

theorem writecom (h : Inv cfg s) (c : C) (command : String) :
    Inv cfg (s.writecom nameOf c command) := by
  have hg : Grows s (s.writecom nameOf c command) :=
    ⟨(Store.Extends.issue _ _).trans (.issue _ _), [.wrote c command], rfl, by simp [Event.pick?]⟩
  refine ⟨h.toCore.of_grows hg h.sound.writecom h.told,
    hg.phase rfl rfl (fun n path _ => ?_) h.phase⟩
  have hne : Author.client c ≠ .online := by simp
  simp only [State.read, State.writecom]
  rw [Store.read_issue_of_ne (.inl hne), Store.read_issue_of_ne (.inl hne)]

theorem service (h : Inv cfg s) {name : String} {path : Path} {value : Value}
    (hp : path ≠ .todo) :
    Inv cfg { s with store := s.store.issue ⟨.service name, path, value, s.trace.length⟩ } := by
  have hg : Grows s
      { s with store := s.store.issue ⟨.service name, path, value, s.trace.length⟩ } :=
    ⟨.issue _ _, [], by simp, by simp⟩
  refine ⟨h.toCore.of_grows hg (h.sound.issue_of_ne (Nat.le_refl _) hp) h.told,
    hg.phase rfl rfl (fun n path _ => ?_) h.phase⟩
  exact Store.read_issue_of_ne (.inl (fun heq => nomatch heq))

theorem land (h : Inv cfg s) {i : Nat} {store : Store (Author C) Path Value}
    (hland : s.store.land i = some store) :
    Inv cfg { s with store := store, down := s.down ++ [store.hist.length] } := by
  have hlen := Store.told_land hland
  have hg : Grows s { s with store := store, down := s.down ++ [store.hist.length] } :=
    ⟨Store.extends_land hland, [], by simp, by simp⟩
  refine ⟨h.toCore.of_grows hg (h.sound.land hland) fun n hn => ?_,
    hg.phase rfl rfl (fun n path hn => ?_) h.phase⟩
  · rcases hn with hn | hn
    · exact Nat.le_trans (h.told n (.inl hn)) (by simp [hlen])
    · rcases List.mem_append.mp hn with hn | hn
      · exact Nat.le_trans (h.told n (.inr hn)) (by simp [hlen])
      · simp [List.mem_singleton.mp hn]
  · exact Store.read_land hland (h.told n (.inl hn))

theorem skip (h : Inv cfg s) (i : Nat) : Inv cfg { s with down := s.down.eraseIdx i } := by
  have hg : Grows s { s with down := s.down.eraseIdx i } := .of_eq rfl rfl
  refine ⟨h.toCore.of_grows hg h.sound fun n hn => ?_, hg.phase rfl rfl (fun _ _ _ => rfl) h.phase⟩
  exact h.told n (hn.imp_right (List.mem_of_mem_eraseIdx))

/-! ## A run begins -/

/-- With nothing in progress, `todo` is clean. -/
theorem calm_of_stack_nil (h : Inv cfg s) (hstack : s.stack = []) : Calm s := by
  rcases h.phase with hcalm | ⟨n, -, hst, -⟩
  · exact hcalm
  · simp [hstack] at hst

/-- What the handler finds in `todo` is what some write put there. -/
theorem read_of_snapshot (cfg : DoorConfig) {n : Nat} {text : String}
    (h : (s.snapshot n).todo = some text) :
    ∃ w, s.read n .todo = some w ∧ w.value = .text text ∧ (s.run cfg n).stamp = w.stamp := by
  obtain ⟨w, hw, htext⟩ := Option.bind_eq_some_iff.mp h
  refine ⟨w, hw, ?_, by simp [State.run, hw]⟩
  cases hv : w.value <;> simp [hv, Value.text?] at htext
  rw [htext]

/-- A write other than a "null" that is read in `todo` is a client's command. -/
theorem issued_of_read (h : Inv cfg s) {n : Nat} {w : Write (Author C) Path Value}
    (hread : s.read n .todo = some w) (hnull : (s.snapshot n).todo ≠ some "null") :
    ∃ c command, Issued s.trace w c command := by
  obtain ⟨hmem, hp⟩ := Store.mem_of_read hread
  refine (h.sound.todo w hmem hp).resolve_left fun hclears => hnull ?_
  simp [State.snapshot, hread, hclears.value, Value.text?]

/-- A command that the handler finds is one that a client wrote. -/
theorem command_of_snapshot (h : Inv cfg s) {n : Nat} {command : Command}
    (htodo : (s.snapshot n).todo = some command.text) :
    ∃ w c, s.read n .todo = some w ∧ Issued s.trace w c command.text ∧
      (s.run cfg n).stamp = w.stamp := by
  obtain ⟨w, hread, hvalue, hstamp⟩ := read_of_snapshot cfg htodo
  have hnull : (s.snapshot n).todo ≠ some "null" := by simp [htodo, command.text_ne_null]
  obtain ⟨c, text, hissued⟩ := h.issued_of_read hread hnull
  obtain rfl : text = command.text := by simpa [hissued.value] using hvalue
  exact ⟨w, c, hread, hissued, hstamp⟩

/-- A command that is read in `todo` has landed, without a "null" behind it. -/
theorem uncleared_of_read {n : Nat} {w : Write (Author C) Path Value}
    (hread : s.read n .todo = some w) (ha : w.author ≠ .online) :
    ∃ k, k < n ∧ s.store.hist[k]? = some w ∧
      ∀ u ∈ s.store.hist.drop (k + 1) ++ s.store.flight, ¬ Clears u := by
  obtain ⟨k, hkn, hk, hrest⟩ := Store.read_of_author_ne hread ha
  exact ⟨k, hkn, hk, fun u hu hclears => hrest u hu hclears.author hclears.path⟩

/-- What is read in `todo` has not been dispatched. -/
theorem undispatched_of_read (h : Inv cfg s) {n : Nat} {w : Write (Author C) Path Value}
    (hread : s.read n .todo = some w) (hnull : (s.snapshot n).todo ≠ some "null") :
    Undispatched s w.stamp := by
  intro command hmem
  obtain ⟨c, text, hw⟩ := h.issued_of_read hread hnull
  obtain ⟨k, -, hk, hrest⟩ := uncleared_of_read hread hw.not_clears
  obtain ⟨k', w', c', hk', hw', hstamp, u, hu, hclears⟩ := h.dispatches.picked command _ hmem
  -- the dispatched command is the same write, so a "null" is behind it
  obtain rfl : k = k' :=
    h.sound.eq_of_stamp hk hk' hw.path hw'.path hw.not_clears hw'.not_clears hstamp.symm
  exact hrest u hu hclears

theorem deliver (h : Inv cfg s) {n : Nat} {down : List Nat} (hdown : s.down = n :: down) :
    Inv cfg
      { s with
        down := down, seen := some n, stack := [s.run cfg n]
        trace := s.trace ++ [.handed n] } := by
  have hg : Grows s
      { s with
        down := down, seen := some n, stack := [s.run cfg n]
        trace := s.trace ++ [.handed n] } :=
    ⟨.refl _, [.handed n], rfl, by simp [Event.pick?]⟩
  refine ⟨h.toCore.of_grows hg (h.sound.extend (List.prefix_append _ _)) fun m hm => ?_, ?_⟩
  · simp only [Option.some.injEq] at hm
    refine h.told m (.inr ?_)
    rw [hdown]
    exact hm.elim (fun heq => heq ▸ .head _) (.tail _)
  · by_cases hnull : (s.snapshot n).todo = some "null"
    · refine .inl ⟨fun m hm => ?_, ?_⟩
      · obtain rfl : n = m := Option.some.inj hm
        exact hnull
      · change Going _ _ (handler cfg (s.snapshot n))
        rw [handler_of_null hnull]
        exact .quiet quiet_nil
    · exact .inr ⟨n, rfl, rfl, hnull,
        fun w hw => hg.undispatched (h.undispatched_of_read hw hnull)⟩

/-- A timer, whose effects are quiet, begins. -/
theorem timer (h : Inv cfg s) (hstack : s.stack = []) {rest : List Effect} (hq : Quiet rest) :
    Inv cfg { s with stack := [⟨0, rest⟩] } :=
  ⟨h.toCore.with_stack _, .inl ⟨(h.calm_of_stack_nil hstack).clean, .quiet hq⟩⟩

/-! ## A run goes on -/

/-- A quiet effect. -/
theorem perform_quiet {now : Int} {stamp : Nat} {e : Effect} (h : Core s) (hc : Calm s)
    (hq : Quiet [e]) : Inv cfg (s.perform cfg now stamp e) := by
  have hrecord : ∀ {event : Event C}, event.pick? = none → Calm (s.record event) := fun hpick =>
    ⟨hc.clean, (grows_record hpick).settled hc.frames⟩
  cases e with
  | set path value =>
    have hp : path ≠ .todo := fun heq => hq.todo value (by simp [heq])
    exact ⟨h.set hp, .inl (hc.set hp)⟩
  | storeLog name todo =>
    exact ⟨(h.record rfl).set (by simp), .inl ((hrecord rfl).set (by simp))⟩
  | dispatch command => exact absurd (List.mem_singleton_self _) (hq.dispatch command)
  | applyService service mode emergency => exact ⟨h.record rfl, .inl (hrecord rfl)⟩
  | sendnotification title msg => exact ⟨h.record rfl, .inl (hrecord rfl)⟩

/-- A run enters its branch. -/
theorem perform_dispatch {stamp : Nat} {command : Command} {rest : List Effect} (h : Core s)
    (hc : Calm s) (hstack : s.stack = [⟨stamp, rest⟩]) (hq : Quiet rest)
    (hp : Picked s stamp command) (hu : Undispatched s stamp) :
    Inv cfg (s.record (.dispatched command stamp)) := by
  have hpast : s.trace <+: (s.record (.dispatched command stamp)).trace := List.prefix_append _ _
  have hpicked : ∀ {stamp' command'}, Picked s stamp' command' →
      Picked (s.record (.dispatched command stamp)) stamp' command' :=
    fun h' => h'.mono (.refl _) hpast
  refine ⟨⟨h.sound.extend hpast, h.told, ⟨fun c' st hmem => ?_, ?_, fun i st c' hi => ?_⟩⟩,
    .inl ⟨hc.clean, ?_⟩⟩
  · rcases List.mem_append.mp hmem with hold | hnew
    · exact hpicked (h.dispatches.picked c' st hold)
    · obtain ⟨rfl, rfl⟩ : c' = command ∧ st = stamp := by simpa using hnew
      exact hpicked hp
  · refine List.pairwise_append.mpr ⟨h.dispatches.once, by simp, fun e he e' he' st hst => ?_⟩
    obtain rfl : e' = .dispatched command stamp := by simpa using he'
    obtain ⟨c', rfl⟩ := pick?_eq_some.mp hst
    rintro ⟨⟩
    exact hu c' he
  · simp only [State.record, List.getElem?_append] at hi ⊢
    split at hi
    · obtain ⟨hlt, c, hwrote⟩ := h.dispatches.caused i st c' hi
      have hst : st < s.trace.length := (List.getElem?_eq_some_iff.mp hwrote).1
      exact ⟨hlt, c, by rw [if_pos hst, hwrote]⟩
    · next hge =>
      obtain ⟨rfl, rfl⟩ : c' = command ∧ st = stamp := by
        simpa using (List.mem_of_getElem? hi)
      obtain ⟨k, w, c, -, hw, rfl, -⟩ := hp
      exact ⟨Nat.lt_of_lt_of_le hw.stamp_lt (Nat.le_of_not_lt hge), c,
        by rw [if_pos hw.stamp_lt, hw.wrote]⟩
  · change Settled _ s.stack
    rw [hstack]
    exact .quiet hq

/-- A run clears `todo`. If it was called on a command, it is then about to enter its branch. -/
theorem perform_clear {n : Nat} {stamp : Nat} {rest : List Effect} (h : Inv cfg s)
    (hrun : ⟨stamp, .set .todo (.text "null") :: rest⟩ = s.run cfg n)
    (hnull : (s.snapshot n).todo ≠ some "null")
    (hfresh : ∀ w, s.read n .todo = some w → Undispatched s w.stamp) :
    Inv cfg (State.set cfg .todo (.text "null") { s with stack := [⟨stamp, rest⟩] }) := by
  have hcore : Core { s with stack := [⟨stamp, rest⟩] } := h.toCore.with_stack _
  have hg : Grows { s with stack := [⟨stamp, rest⟩] }
      (State.set cfg .todo (.text "null") { s with stack := [⟨stamp, rest⟩] }) := grows_set
  refine ⟨hcore.clear, .inl (calm_clear ?_)⟩
  change Going _ stamp rest
  simp only [State.run, Frame.mk.injEq] at hrun
  obtain ⟨hstamp, hrest⟩ := hrun
  obtain ⟨rest', hhandler, hcases⟩ := handler_cases cfg hnull
  obtain rfl : rest = rest' := by simpa [hhandler] using hrest
  rcases hcases with rfl | ⟨command, htodo, rfl⟩
  · exact .quiet quiet_nil
  · obtain ⟨w, c, hread, hissued, -⟩ := h.command_of_snapshot htodo
    obtain ⟨k, -, hk, -⟩ := uncleared_of_read hread hissued.not_clears
    obtain rfl : stamp = w.stamp := by simpa [hread] using hstamp
    refine .ready ⟨k, w, c, by rw [set_store]; exact hk, by rw [set_trace]; exact hissued, rfl,
      ⟨.online, .todo, .text "null", s.trace.length⟩, by simp [Store.issue], ⟨rfl, rfl, rfl⟩⟩
      ?_ quiet_branch
    intro command' hmem
    rw [set_trace] at hmem
    exact hfresh w hread command' hmem

theorem exec {now : Int} (h : Inv cfg s) (hstep : s.step cfg nameOf (.exec now) = some s') :
    Inv cfg s' := by
  simp only [State.step] at hstep
  split at hstep
  · cases hstep
  · next st stack hstack =>
    obtain rfl : _ = s' := Option.some.inj hstep
    refine ⟨h.toCore.with_stack _, .inl ?_⟩
    rcases h.phase with hcalm | ⟨n, hn, hst, hnull, -⟩
    · refine ⟨hcalm.clean, ?_⟩
      have hset : Settled s (⟨st, []⟩ :: stack) := hstack ▸ hcalm.frames
      have hg : Grows s { s with stack := stack } := .of_eq rfl rfl
      exact hg.settled hset.tail
    · -- a run that has just begun has `todo` to clear
      obtain ⟨rest, hhandler, -⟩ := handler_cases cfg hnull
      simp [hstack, State.run, hhandler] at hst
  · next stamp e rest stack hstack =>
    obtain rfl : _ = s' := Option.some.inj hstep
    rcases h.phase with hcalm | ⟨n, hn, hst, hnull, hfresh⟩
    · have hset : Settled s (⟨stamp, e :: rest⟩ :: stack) := hstack ▸ hcalm.frames
      obtain ⟨rfl, hgoing⟩ := hset.busy
      have hcore : Core { s with stack := [⟨stamp, rest⟩] } := h.toCore.with_stack _
      have hg : Grows s { s with stack := [⟨stamp, rest⟩] } := .of_eq rfl rfl
      cases hgoing with
      | quiet hq => exact perform_quiet hcore ⟨hcalm.clean, .quiet hq.of_cons⟩ hq.head
      | ready hp hu hq =>
        exact perform_dispatch hcore ⟨hcalm.clean, .quiet hq⟩ rfl hq (hg.picked hp)
          (hg.undispatched hu)
    · rw [hstack] at hst
      obtain ⟨hrun, rfl⟩ : ⟨stamp, e :: rest⟩ = s.run cfg n ∧ stack = [] := by simpa using hst
      obtain rfl : e = .set .todo (.text "null") := by
        obtain ⟨rest', hhandler, -⟩ := handler_cases cfg hnull
        simp only [State.run, hhandler, Frame.mk.injEq, List.cons.injEq] at hrun
        exact hrun.2.1
      exact h.perform_clear hrun hnull hfresh

theorem init : Inv cfg (State.init : State C) where
  sound := .init
  told := by simp [State.init]
  dispatches := ⟨by simp [State.init], by simp [State.init], by simp [State.init]⟩
  phase := .inl ⟨by simp [State.init], trivial⟩

end Inv

/-! ## What a step of a run does -/

/-- The event that the effect leaves in the trace. -/
def Effect.event? (stamp : Nat) : Effect → Option (Event C)
  | .set _ _ => none
  | .storeLog name todo => some (.logged name todo stamp)
  | .dispatch command => some (.dispatched command stamp)
  | .applyService service mode emergency => some (.applied service mode emergency)
  | .sendnotification title msg => some (.notified title msg)

/-- `s'` comes from `s` by the effect `e` of the only run in progress. -/
structure Performs (s s' : State C) (stamp : Nat) (e : Effect) (rest : List Effect) : Prop where
  before : s.stack = [⟨stamp, e :: rest⟩]
  mem : ⟨stamp, rest⟩ ∈ s'.stack
  after : ∀ f ∈ s'.stack, f = ⟨stamp, rest⟩ ∨ f.rest = []
  hist : s'.store.hist = s.store.hist
  extends_store : s.store.Extends s'.store
  flight : ∀ u ∈ s'.store.flight, u ∈ s.store.flight ∨
    ((∀ value, e ≠ .set .todoName value) → u.path ≠ .todoName)
  seen : s'.seen = s.seen
  down : s'.down = s.down
  trace : s'.trace = s.trace ++ (e.event? stamp).toList

/-- A run that another one stands below has nothing to do. -/
theorem Inv.nested (h : Inv cfg s) {f g : Frame} {stack : List Frame}
    (hstack : s.stack = f :: g :: stack) : f.rest = [] := by
  rcases h.phase with hcalm | ⟨n, -, hst, -⟩
  · have hset : Settled s (f :: g :: stack) := hstack ▸ hcalm.frames
    exact hset.1
  · simp [hstack] at hst

/-- A run with something to do is the only one. -/
theorem Inv.alone (h : Inv cfg s) {stamp : Nat} {e : Effect} {rest : List Effect}
    {stack : List Frame} (hstack : s.stack = ⟨stamp, e :: rest⟩ :: stack) : stack = [] := by
  cases stack with
  | nil => rfl
  | cons g stack => exact absurd (h.nested hstack) (List.cons_ne_nil e rest)

/-- No run writes `todo-name`. -/
theorem Inv.effect_ne (h : Inv cfg s) {stamp : Nat} {e : Effect} {rest : List Effect}
    (hstack : s.stack = [⟨stamp, e :: rest⟩]) (value : Value) : e ≠ .set .todoName value := by
  rintro rfl
  rcases h.phase with hcalm | ⟨n, -, hst, hnull, -⟩
  · have hset : Settled s [⟨stamp, .set .todoName value :: rest⟩] := hstack ▸ hcalm.frames
    cases hset with
    | quiet hq => exact hq.todoName value (.head _)
  · obtain ⟨rest', hhandler, -⟩ := handler_cases cfg hnull
    simp [hstack, State.run, hhandler] at hst

omit [DecidableEq C] in
/-- An effect that only leaves an event. -/
theorem performs_record {stamp : Nat} {e : Effect} {rest : List Effect} {event : Event C}
    (hstack : s.stack = [⟨stamp, e :: rest⟩]) (he : e.event? stamp = some event) :
    Performs s (State.record event { s with stack := [⟨stamp, rest⟩] }) stamp e rest where
  before := hstack
  mem := List.mem_singleton_self _
  after := fun f hf => .inl (List.mem_singleton.mp hf)
  hist := rfl
  extends_store := .refl _
  flight := fun u hu => .inl hu
  seen := rfl
  down := rfl
  trace := by simp [State.record, he]

/-- A write of `online.js`, after the event it leaves. -/
theorem performs_set {t : State C} {stamp : Nat} {e : Effect} {rest : List Effect}
    {path : Path} {value : Value} (hstack : s.stack = [⟨stamp, e :: rest⟩])
    (ht : t = { s with stack := [⟨stamp, rest⟩], trace := s.trace ++ (e.event? stamp).toList })
    (hpath : (∀ value, e ≠ .set .todoName value) → path ≠ .todoName)
    (hinv : Inv cfg (t.set cfg path value)) :
    Performs s (t.set cfg path value) stamp e rest := by
  have htstack : t.stack = [⟨stamp, rest⟩] := by rw [ht]
  have hafter : ⟨stamp, rest⟩ ∈ (t.set cfg path value).stack ∧
      ∀ f ∈ (t.set cfg path value).stack, f = ⟨stamp, rest⟩ ∨ f.rest = [] := by
    rcases set_stack cfg t path value with hst | ⟨g, hst⟩
    · simp [hst, htstack]
    · rw [htstack] at hst
      simp [hst, hinv.nested hst]
  refine ⟨hstack, hafter.1, hafter.2, by simp [ht, Store.issue], ?_, fun u hu => ?_,
    by simp [ht], by simp [ht], by simp [ht]⟩
  · rw [set_store, ht]
    exact .issue _ _
  · rw [set_store, Store.issue] at hu
    rcases List.mem_append.mp hu with hu | hu
    · exact .inl (by simpa [ht] using hu)
    · obtain rfl := List.mem_singleton.mp hu
      exact .inr hpath

/-- An innermost run without anything left ends, or the only run goes on. -/
theorem exec_cases {now : Int} (h : Inv cfg s) (hstep : s.step cfg nameOf (.exec now) = some s') :
    (∃ f, f.rest = [] ∧ s.stack = f :: s'.stack ∧ s' = { s with stack := s'.stack }) ∨
    ∃ stamp e rest, Performs s s' stamp e rest := by
  have hinv : Inv cfg s' := h.exec hstep
  simp only [State.step] at hstep
  split at hstep
  · cases hstep
  · next st stack hstack =>
    obtain rfl : _ = s' := Option.some.inj hstep
    exact .inl ⟨⟨st, []⟩, rfl, hstack, rfl⟩
  · next stamp e rest stack hstack =>
    obtain rfl : _ = s' := Option.some.inj hstep
    obtain rfl : stack = [] := h.alone hstack
    refine .inr ⟨stamp, e, rest, ?_⟩
    cases e with
    | set path value =>
      exact performs_set hstack (by simp [Effect.event?])
        (fun h heq => h value (by rw [heq])) hinv
    | storeLog name todo => exact performs_set hstack rfl (fun _ => by simp) hinv
    | dispatch command => exact performs_record hstack rfl
    | applyService service mode emergency => exact performs_record hstack rfl
    | sendnotification title msg => exact performs_record hstack rfl

/-- Everything that a step from a reachable state can do. -/
inductive Moves (cfg : DoorConfig) (nameOf : C → String) (s : State C) : Action C → State C → Prop
  | writecom (c : C) (command : String) :
    Moves cfg nameOf s (.writecom c command) (s.writecom nameOf c command)
  | service (name : String) {path : Path} (value : Value) (htodo : path ≠ .todo)
    (hname : path ≠ .todoName) :
    Moves cfg nameOf s (.service name path value)
      { s with store := s.store.issue ⟨.service name, path, value, s.trace.length⟩ }
  | land {i : Nat} {store : Store (Author C) Path Value} (hland : s.store.land i = some store) :
    Moves cfg nameOf s (.land i)
      { s with store := store, down := s.down ++ [store.hist.length] }
  | skip {i : Nat} (hi : i + 1 < s.down.length) :
    Moves cfg nameOf s (.skip i) { s with down := s.down.eraseIdx i }
  | deliver {n : Nat} {down : List Nat} (hstack : s.stack = []) (hdown : s.down = n :: down) :
    Moves cfg nameOf s .deliver
      { s with
        down := down, seen := some n, stack := [s.run cfg n]
        trace := s.trace ++ [.handed n] }
  | finish {now : Int} {f : Frame} {stack : List Frame} (hf : f.rest = [])
    (hstack : s.stack = f :: stack) : Moves cfg nameOf s (.exec now) { s with stack := stack }
  | perform {now : Int} {s' : State C} {stamp : Nat} {e : Effect} {rest : List Effect}
    (h : Performs s s' stamp e rest) : Moves cfg nameOf s (.exec now) s'
  | timer {a : Action C} {rest : List Effect} (ha : a ≠ .deliver) (hstack : s.stack = [])
    (hq : Quiet rest) (hlog : ∀ name todo, .storeLog name todo ∉ rest) :
    Moves cfg nameOf s a { s with stack := [⟨0, rest⟩] }

theorem moves_of_step {a : Action C} (h : Inv cfg s) (hstep : s.step cfg nameOf a = some s') :
    Moves cfg nameOf s a s' := by
  cases a with
  | writecom c command =>
    obtain rfl : _ = s' := Option.some.inj hstep
    exact .writecom c command
  | service name path value =>
    simp only [State.step] at hstep
    split at hstep
    · cases hstep
    · next hp =>
      obtain rfl : _ = s' := Option.some.inj hstep
      exact .service name value (fun heq => hp (.inl heq)) fun heq => hp (.inr heq)
  | land i =>
    simp only [State.step] at hstep
    split at hstep
    · cases hstep
    · next store hland =>
      obtain rfl : _ = s' := Option.some.inj hstep
      exact .land hland
  | skip i =>
    simp only [State.step] at hstep
    split at hstep
    · next hi =>
      obtain rfl : _ = s' := Option.some.inj hstep
      exact .skip hi
    · cases hstep
  | deliver =>
    simp only [State.step] at hstep
    split at hstep
    · next n down hstack hdown =>
      obtain rfl : _ = s' := Option.some.inj hstep
      exact .deliver hstack hdown
    · cases hstep
  | exec now =>
    rcases exec_cases h hstep with ⟨f, hf, hstack, heq⟩ | ⟨stamp, e, rest, hp⟩
    · rw [heq]
      exact .finish hf hstack
    · exact .perform hp
  | beat now =>
    simp only [State.step] at hstep
    split at hstep
    · next hstack =>
      obtain rfl : _ = s' := Option.some.inj hstep
      exact .timer (by simp) hstack ⟨by simp, by simp, by simp⟩ (by simp)
    · cases hstep
  | lanip data =>
    simp only [State.step] at hstep
    split at hstep
    · next hstack =>
      obtain rfl : _ = s' := Option.some.inj hstep
      exact .timer (by simp) hstack ⟨by simp, by simp, by simp⟩ (by simp)
    · cases hstep

/-! ## Every run -/

theorem Inv.step {a : Action C} (h : Inv cfg s) (hstep : s.step cfg nameOf a = some s') :
    Inv cfg s' := by
  cases moves_of_step h hstep with
  | writecom c command => exact h.writecom c command
  | service name value htodo hname => exact h.service htodo
  | land hland => exact h.land hland
  | @skip i hi => exact h.skip i
  | deliver hstack hdown => exact h.deliver hdown
  | finish hf hstack => exact h.exec hstep
  | perform hp => exact h.exec hstep
  | timer ha hstack hq hlog => exact h.timer hstack hq

/-- A property that every step from a reachable state keeps holds after every run. -/
theorem Inv.run_invariant {I : State C → Prop} {as : List (Action C)} (h : Inv cfg s) (hs : I s)
    (hkeep : ∀ s a s', Inv cfg s → I s → s.step cfg nameOf a = some s' → I s')
    (hrun : Transition.run (State.step cfg nameOf) s as = some s') : I s' := by
  have hboth : Inv cfg s' ∧ I s' := by
    refine Transition.run_invariant (I := fun t => Inv cfg t ∧ I t) ?_ ⟨h, hs⟩ hrun
    exact fun t a t' ht hstep => ⟨ht.1.step hstep, hkeep t a t' ht.1 ht.2 hstep⟩
  exact hboth.2

/-- The invariant holds in every reachable state. -/
theorem inv_of_run {as : List (Action C)}
    (h : Transition.run (State.step cfg nameOf) State.init as = some s) : Inv cfg s :=
  Transition.run_invariant (fun _ _ _ hinv hstep => hinv.step hstep) .init h

/-- The trace only grows. -/
theorem trace_prefix_of_step {a : Action C} (h : Inv cfg s)
    (hstep : s.step cfg nameOf a = some s') : s.trace <+: s'.trace := by
  cases moves_of_step h hstep with
  | writecom c command => exact List.prefix_append _ _
  | deliver hstack hdown => exact List.prefix_append _ _
  | perform hp => exact ⟨_, hp.trace.symm⟩
  | service | land | skip | finish | timer => exact List.prefix_refl _

theorem trace_prefix_of_run {as : List (Action C)} (h : Inv cfg s)
    (hrun : Transition.run (State.step cfg nameOf) s as = some s') : s.trace <+: s'.trace :=
  h.run_invariant (I := fun t => s.trace <+: t.trace) (List.prefix_refl _)
    (fun _ _ _ hinv hpre hstep => hpre.trans (trace_prefix_of_step hinv hstep)) hrun

/-- A step adds at most one event, at the end of the trace. -/
theorem event_of_step {a : Action C} (hinv : Inv cfg s) (hstep : s.step cfg nameOf a = some s')
    {q : Nat} {event : Event C} (hq : s'.trace[q]? = some event) :
    s.trace[q]? = some event ∨ q = s.trace.length ∧
      ((∃ c command, a = .writecom c command ∧ event = .wrote c command) ∨
        (∃ n, a = .deliver ∧ s.stack = [] ∧ s.down.head? = some n ∧ event = .handed n) ∨
        ∃ e stamp, Effect.event? stamp e = some event) := by
  cases moves_of_step hinv hstep with
  | writecom c command =>
    rcases Lists.getElem?_concat_eq_some hq with hold | ⟨hlen, rfl⟩
    · exact .inl hold
    · exact .inr ⟨hlen, .inl ⟨c, command, rfl, rfl⟩⟩
  | @deliver n down hstack hdown =>
    rcases Lists.getElem?_concat_eq_some hq with hold | ⟨hlen, rfl⟩
    · exact .inl hold
    · exact .inr ⟨hlen, .inr (.inl ⟨n, rfl, hstack, by simp [hdown], rfl⟩)⟩
  | @perform _ _ stamp e rest hp =>
    rw [hp.trace] at hq
    cases he : Effect.event? (C := C) stamp e with
    | none => exact .inl (by simpa [he] using hq)
    | some event' =>
      rw [he] at hq
      rcases Lists.getElem?_concat_eq_some hq with hold | ⟨hlen, rfl⟩
      · exact .inl hold
      · exact .inr ⟨hlen, .inr (.inr ⟨e, stamp, he⟩)⟩
  | service | land | skip | finish | timer => exact .inl hq

omit [DecidableEq C] in
/-- An effect neither calls `writecom` nor hands anything over. -/
theorem event?_ne (e : Effect) (stamp : Nat) :
    (∀ (c : C) (command : String), e.event? stamp ≠ some (.wrote c command)) ∧
    ∀ n, e.event? (C := C) stamp ≠ some (.handed n) := by
  cases e <;> simp [Effect.event?]

/-! ## Effects that are due -/

/-- The effects whose event tells the effect and the run. -/
def Effect.Traced : Effect → Prop
  | .storeLog _ _ => True
  | .dispatch _ => True
  | _ => False

/-- A run for the command with the given stamp has done the effect, or a run in
progress will do it. -/
def Due (s : State C) (stamp : Nat) (e : Effect) : Prop :=
  (∃ event ∈ s.trace, e.event? stamp = some event) ∨
    ∃ f ∈ s.stack, f.stamp = stamp ∧ e ∈ f.rest

omit [DecidableEq C] in
theorem event?_eq_iff {e e' : Effect} {stamp stamp' : Nat} (he : e.Traced) :
    e'.event? (C := C) stamp' = e.event? stamp ↔ stamp' = stamp ∧ e' = e := by
  cases e <;> cases e' <;> simp [Effect.event?, Effect.Traced] at he ⊢ <;> grind

omit [DecidableEq C] in
/-- An effect is done, and what is left of its run is done later. -/
theorem due_of_performs {st stamp : Nat} {e e' : Effect} {rest : List Effect}
    (h : Performs s s' st e rest) (he : e'.Traced) : Due s' stamp e' ↔ Due s stamp e' := by
  have hafter : (∃ f ∈ s'.stack, f.stamp = stamp ∧ e' ∈ f.rest) ↔ st = stamp ∧ e' ∈ rest := by
    constructor
    · rintro ⟨f, hf, hstamp, hmem⟩
      rcases h.after f hf with rfl | hnil
      · exact ⟨hstamp, hmem⟩
      · simp [hnil] at hmem
    · exact fun hmem => ⟨_, h.mem, hmem⟩
  have hbefore : (∃ f ∈ s.stack, f.stamp = stamp ∧ e' ∈ f.rest) ↔
      st = stamp ∧ (e' = e ∨ e' ∈ rest) := by
    simp [h.before]
  have hevent : (∃ event ∈ (e.event? (C := C) st).toList, e'.event? stamp = some event) ↔
      st = stamp ∧ e' = e := by
    rw [@eq_comm _ e', ← event?_eq_iff (C := C) he]
    cases e.event? (C := C) st with
    | none => cases e' <;> simp [Effect.event?, Effect.Traced] at he ⊢
    | some event => simp [eq_comm]
  simp only [Due, hafter, hbefore, h.trace, List.mem_append, or_and_right, exists_or, hevent,
    and_or_left, or_assoc]

/-- Only a value event makes further effects due. -/
theorem due_of_step {a : Action C} (hinv : Inv cfg s) (hstep : s.step cfg nameOf a = some s')
    {stamp : Nat} {e : Effect} (he : e.Traced) :
    Due s' stamp e ↔ Due s stamp e ∨
      a = .deliver ∧ s.stack = [] ∧ ∃ n, s.down.head? = some n ∧ (s.run cfg n).stamp = stamp ∧
        e ∈ handler cfg (s.snapshot n) := by
  obtain ⟨hwrote, hhanded⟩ := event?_ne (C := C) e stamp
  cases moves_of_step hinv hstep with
  | writecom c command => simp [Due, State.writecom, or_and_right, exists_or, hwrote]
  | service name value htodo hname => simp [Due]
  | land hland => simp [Due]
  | skip hi => simp [Due]
  | deliver hstack hdown =>
    simp [Due, hstack, hdown, State.run, or_and_right, exists_or, hhanded]
  | finish hf hstack => simp [Due, hstack, hf]
  | perform hp => simp [due_of_performs hp he]
  | @timer _ rest ha hstack hq hlog =>
    have hrest : e ∉ rest := by
      cases e with
      | storeLog name todo => exact hlog name todo
      | dispatch command => exact hq.dispatch command
      | _ => exact absurd he id
    simp [Due, hstack, hrest, ha]

end SmartDoor.Online
