-- SUMMARY: The time that online.js keeps writing, as a web page sees it: when a page shows the door as offline.
import SmartDoor.Base.Relay
import SmartDoor.Base.Transition
import SmartDoor.Web.Main

/-!
# The heartbeat of the door

`online.js` writes its time to the door node at every interval, and a page shows the
door as offline while the time that it has read is more than twenty seconds old. The
writes take a while to reach the database, and so do the snapshots of the database
to reach the page; the clocks of the two machines differ by `skew`. Moments are
those of the page's clock.
-/

namespace SmartDoor.Web

/-- The door, the database and one page. `up` are the times on their way to the database,
`down` the snapshots on their way to the page. -/
structure Heartbeat (M : Type) where
  now : Int
  /-- When `online.js` has had its last interval. -/
  beat : Int
  up : List (Int × Int)
  node : Status M
  down : List (Status M × Int)
  page : Main M
  /-- Whether the page has received a snapshot since it was mounted. -/
  heard : Bool

inductive HeartbeatAction (M : Type) where
  | pass (ms : Nat)
  /-- The interval of `online.js`. -/
  | interval
  /-- `online.js` stops, and only the first `k` of its writes get through. -/
  | crash (k : Nat)
  /-- The oldest write of a time reaches the database. -/
  | land
  /-- Another child of the door node is written. -/
  | edit (status : Status M)
  /-- The page skips to the `i`th snapshot. -/
  | snapshot (i : Nat)
  /-- The timer of the page. -/
  | timer
  | mount

namespace Heartbeat

variable {M : Type}

/-- A page has just been mounted. The node has a `time` from an earlier interval. -/
def start (skew now : Int) (time : Nat) (node : Status M) : Heartbeat M where
  now := now
  beat := time - skew
  up := []
  node := { node with time := some time }
  down := [({ node with time := some time }, now)]
  page := .init
  heard := false

/-- The listeners are told of the new state of the node. -/
def publish (s : Heartbeat M) (node : Status M) : Heartbeat M :=
  { s with node := node, down := s.down ++ [(node, s.now)] }

def step (skew : Int) (s : Heartbeat M) : HeartbeatAction M → Option (Heartbeat M)
  | .pass ms => some { s with now := s.now + ms }
  | .interval => some { s with beat := s.now, up := s.up ++ [(s.now + skew, s.now)] }
  | .crash k => some { s with up := s.up.take k }
  | .land =>
    match s.up with
    | [] => none
    | (time, _) :: up => some ({ s with up := up }.publish { s.node with time := some time })
  | .edit status => some (s.publish { status with time := s.node.time })
  | .snapshot i => s.down[i]?.map fun m =>
    { s with down := s.down.drop (i + 1), page := s.page.onStatus m.1, heard := true }
  | .timer => some { s with page := s.page.tick s.now }
  | .mount => some { s with page := .init, down := [(s.node, s.now)], heard := false }

end Heartbeat

/-! ## What a tick shows -/

theorem Main.tick_status (now : Int) {M : Type} (p : Main M) : (p.tick now).status = p.status := rfl

theorem Main.tick_online (now : Int) {M : Type} {p : Main M} {x : Int}
    (h : p.status.time = some x) :
    (p.tick now).online = if now - x > 20000 then "offline" else "online" := by
  simp [Main.tick, h, above, elapsed]

/-! ## A silent door -/

namespace Heartbeat

variable {M : Type}

@[simp] theorem publish_now (s : Heartbeat M) (node : Status M) :
    (s.publish node).now = s.now := rfl

/-- No time is newer than the last interval, and no message than the moment. -/
structure Aged (skew : Int) (s : Heartbeat M) : Prop where
  beat : 0 ≤ s.beat + skew ∧ s.beat ≤ s.now
  up : ∀ m ∈ s.up, m.1 ≤ s.beat + skew ∧ m.2 ≤ s.now
  node : ∃ x, s.node.time = some x ∧ x ≤ s.beat + skew
  down : ∀ m ∈ s.down, (∃ x, m.1.time = some x ∧ x ≤ s.beat + skew) ∧ m.2 ≤ s.now
  page : ∃ x, s.page.status.time = some x ∧ x ≤ s.beat + skew

variable {skew : Int} {s s' : Heartbeat M} {a : HeartbeatAction M}

theorem land_eq_some (h : s.step skew .land = some s') :
    ∃ time u up, s.up = (time, u) :: up ∧
      s' = { s with up := up }.publish { s.node with time := some time } := by
  simp only [step] at h
  split at h
  · cases h
  · next time u up hs => exact ⟨time, u, up, hs, (Option.some.inj h).symm⟩

theorem aged_start {now : Int} {time : Nat} {node : Status M} (h : time ≤ now + skew) :
    Aged skew (.start skew now time node) where
  beat := by simp only [start]; omega
  up := by simp [start]
  node := ⟨time, rfl, by simp [start]⟩
  down := by simp [start]
  page := ⟨0, rfl, by simp [start]⟩

theorem Aged.publish (h : Aged skew s) {node : Status M}
    (hnode : ∃ x, node.time = some x ∧ x ≤ s.beat + skew) : Aged skew (s.publish node) where
  beat := h.beat
  up := h.up
  node := hnode
  down := List.forall_mem_append.mpr
    ⟨h.down, List.forall_mem_singleton.mpr ⟨hnode, Int.le_refl _⟩⟩
  page := h.page

/-- The clock of the door does not go back. -/
theorem Aged.later (h : Aged skew s) {beat now : Int} (hbeat : s.beat ≤ beat) (hnow : s.now ≤ now)
    (hle : beat ≤ now) : Aged skew { s with beat := beat, now := now } where
  beat := ⟨by have := h.beat.1; simp only; omega, hle⟩
  up := fun m hm => by have := h.up m hm; simp only; omega
  node := h.node.imp fun x hx => ⟨hx.1, by simp only; omega⟩
  down := fun m hm => ⟨(h.down m hm).1.imp fun x hx => ⟨hx.1, by simp only; omega⟩,
    Int.le_trans (h.down m hm).2 hnow⟩
  page := h.page.imp fun x hx => ⟨hx.1, by simp only; omega⟩

theorem Aged.step (h : Aged skew s) (hstep : s.step skew a = some s') : Aged skew s' := by
  have ⟨hbeat, hup, hnode, hdown, hpage⟩ := h
  cases a with
  | pass ms =>
    obtain rfl : _ = s' := Option.some.inj hstep
    exact h.later (Int.le_refl _) (by omega) (by omega)
  | interval =>
    obtain rfl : _ = s' := Option.some.inj hstep
    have hlater := h.later hbeat.2 (Int.le_refl _) (Int.le_refl _)
    exact { hlater with up := List.forall_mem_append.mpr ⟨hlater.up, by simp⟩ }
  | crash k =>
    obtain rfl : _ = s' := Option.some.inj hstep
    exact { h with up := fun m hm => hup m (List.mem_of_mem_take hm) }
  | land =>
    obtain ⟨time, u, up, hs, rfl⟩ := land_eq_some hstep
    rw [hs] at hup
    obtain ⟨htime, hrest⟩ := List.forall_mem_cons.mp hup
    exact Aged.publish (s := { s with up := up }) { h with up := hrest } ⟨time, rfl, htime.1⟩
  | edit status =>
    obtain rfl : _ = s' := Option.some.inj hstep
    exact h.publish hnode
  | snapshot i =>
    obtain ⟨m, hm, rfl⟩ := Option.map_eq_some_iff.mp hstep
    exact ⟨hbeat, hup, hnode, fun m hm => hdown m (List.mem_of_mem_drop hm),
      (hdown m (List.mem_of_getElem? hm)).1⟩
  | timer =>
    obtain rfl : _ = s' := Option.some.inj hstep
    exact ⟨hbeat, hup, hnode, hdown, hpage⟩
  | mount =>
    obtain rfl : _ = s' := Option.some.inj hstep
    exact ⟨hbeat, hup, hnode, by simpa using hnode, ⟨0, rfl, hbeat.1⟩⟩

/-- Twenty seconds after the last interval the page knows. -/
theorem Aged.offline (h : Aged skew s) (hold : s.beat + skew + 20000 < s.now) :
    (s.page.tick s.now).online = "offline" := by
  obtain ⟨x, hx, hle⟩ := h.page
  rw [Main.tick_online _ hx, if_pos (by omega)]

/-! ## What the page follows -/

/-- The page has been sent all that the node has been; `cur` says what is known of it. -/
def Follows (cur : Int → Status M → Prop) (s : Heartbeat M) : Prop :=
  ∃ status, (s.heard = true → s.page.status = status) ∧
    Relay.Until cur s.now status s.down ∧ Relay.newest status s.down = s.node

variable {cur : Int → Status M → Prop}

theorem Follows.publish (h : Follows cur s) {node : Status M} (hnode : cur s.now node) :
    Follows cur (s.publish node) :=
  Relay.Subscribed.send h hnode

theorem Follows.step (h : Follows cur s) (hstep : s.step skew a = some s')
    (hnode : cur s'.now s'.node) : Follows cur s' := by
  cases a with
  | pass ms =>
    obtain rfl : _ = s' := Option.some.inj hstep
    exact Relay.Subscribed.pass h hnode
  | interval | crash k | timer =>
    obtain rfl : _ = s' := Option.some.inj hstep
    exact h
  | land =>
    obtain ⟨time, u, up, -, rfl⟩ := land_eq_some hstep
    exact Follows.publish (s := { s with up := up }) h hnode
  | edit status =>
    obtain rfl : _ = s' := Option.some.inj hstep
    exact h.publish hnode
  | snapshot i =>
    obtain ⟨m, hm, rfl⟩ := Option.map_eq_some_iff.mp hstep
    exact Relay.Subscribed.receive h hm
  | mount =>
    obtain rfl : _ = s' := Option.some.inj hstep
    exact Relay.Subscribed.start hnode

end Heartbeat

/-! ## A door that keeps writing -/

/-- The intervals come at least every `period`, and nothing is on its way to the database
for longer than `up`, or from there to the page for longer than `down`. -/
structure Delays where
  period : Nat
  up : Nat
  down : Nat
  deriving DecidableEq, Repr

/-- No time passes that breaks the bounds, and `online.js` does not stop. -/
def Delays.Kept {M : Type} (d : Delays) (s : Heartbeat M) : HeartbeatAction M → Prop
  | .pass ms => s.now + ms ≤ s.beat + d.period ∧ (∀ m ∈ s.up, s.now + ms ≤ m.2 + d.up) ∧
    ∀ m ∈ s.down, s.now + ms ≤ m.2 + d.down
  | .crash _ => False
  | _ => True

instance {M : Type} (d : Delays) (s : Heartbeat M) : ∀ a, Decidable (d.Kept s a)
  | .pass _ => inferInstanceAs (Decidable (_ ∧ _ ∧ _))
  | .crash _ => isFalse id
  | .interval | .land | .edit _ | .snapshot _ | .timer | .mount => isTrue trivial

/-- Since the moment `since`, a time has been current at `online.js` for at most a period. -/
def Delays.Ticking (d : Delays) (skew since u x : Int) : Prop :=
  since < u → u ≤ x - skew + d.period

/-- From `up` later on, so has the one in the database, up to what it takes to get there. -/
def Delays.Current {M : Type} (d : Delays) (skew since u : Int) (status : Status M) : Prop :=
  since + d.up < u → ∃ x, status.time = some x ∧ u ≤ x - skew + d.period + d.up

namespace Heartbeat

variable {M : Type} {skew since : Int} {d : Delays} {s s' : Heartbeat M} {a : HeartbeatAction M}

/-- What is known since the moment `since`, while the bounds are kept. -/
structure Alive (skew : Int) (d : Delays) (since : Int) (s : Heartbeat M) : Prop where
  upAge : since < s.now → ∀ m ∈ s.up, s.now ≤ m.2 + d.up
  downAge : since < s.now → ∀ m ∈ s.down, s.now ≤ m.2 + d.down
  up : ∃ x, s.node.time = some x ∧ Relay.Until (d.Ticking skew since) s.now x s.up ∧
    Relay.newest x s.up = s.beat + skew
  follows : Follows (d.Current skew since) s

/-- The time in the database is as late as the delay on the way there lets it be. -/
theorem current_of {x : Int} (hx : s.node.time = some x)
    (huntil : Relay.Until (d.Ticking skew since) s.now x s.up)
    (hage : since < s.now → ∀ m ∈ s.up, s.now ≤ m.2 + d.up) :
    d.Current skew since s.now s.node := by
  intro hlate
  obtain ⟨u, hu, hle⟩ := huntil.recent (by omega) (hage (by omega))
  have := hu (by omega)
  exact ⟨x, hx, by omega⟩

/-- What is known of the messages and of the node, without the page. -/
theorem Alive.step_node (h : Alive skew d since s) (hkept : d.Kept s a)
    (hstep : s.step skew a = some s') :
    (since < s'.now → ∀ m ∈ s'.up, s'.now ≤ m.2 + d.up) ∧
    (since < s'.now → ∀ m ∈ s'.down, s'.now ≤ m.2 + d.down) ∧
    ∃ x, s'.node.time = some x ∧ Relay.Until (d.Ticking skew since) s'.now x s'.up ∧
      Relay.newest x s'.up = s'.beat + skew := by
  obtain ⟨hup, hdown, ⟨x, hx, huntil, hnewest⟩, -⟩ := h
  have hself : ∀ n : Nat, s.now ≤ s.now + n := fun n => by omega
  cases a with
  | pass ms =>
    obtain ⟨hbeat, hupAge, hdownAge⟩ := hkept
    obtain rfl : _ = s' := Option.some.inj hstep
    have huntil' : Relay.Until (d.Ticking skew since) (s.now + ms) x s.up :=
      huntil.pass fun _ => by omega
    exact ⟨fun _ => hupAge, fun _ => hdownAge, x, hx, huntil', hnewest⟩
  | interval =>
    obtain rfl : _ = s' := Option.some.inj hstep
    exact ⟨fun hlate => List.forall_mem_append.mpr ⟨hup hlate, by simp [hself]⟩, hdown,
      x, hx, huntil.send fun _ => by omega, Relay.newest_concat⟩
  | crash k => exact hkept.elim
  | land =>
    obtain ⟨time, u, up, hs, rfl⟩ := land_eq_some hstep
    rw [hs] at huntil hnewest hup
    exact ⟨fun hlate => (List.forall_mem_cons.mp (hup hlate)).2,
      fun hlate => List.forall_mem_append.mpr ⟨hdown hlate, by simp [hself]⟩,
      time, rfl, huntil.2, hnewest⟩
  | edit status =>
    obtain rfl : _ = s' := Option.some.inj hstep
    exact ⟨hup, fun hlate => List.forall_mem_append.mpr ⟨hdown hlate, by simp [hself]⟩,
      x, hx, huntil, hnewest⟩
  | snapshot i =>
    obtain ⟨m, hm, rfl⟩ := Option.map_eq_some_iff.mp hstep
    exact ⟨hup, fun hlate m hm => hdown hlate m (List.mem_of_mem_drop hm), x, hx, huntil, hnewest⟩
  | timer =>
    obtain rfl : _ = s' := Option.some.inj hstep
    exact ⟨hup, hdown, x, hx, huntil, hnewest⟩
  | mount =>
    obtain rfl : _ = s' := Option.some.inj hstep
    exact ⟨hup, fun _ => by simp [hself], x, hx, huntil, hnewest⟩

theorem Alive.step (h : Alive skew d since s) (hkept : d.Kept s a)
    (hstep : s.step skew a = some s') : Alive skew d since s' := by
  obtain ⟨hup, hdown, x, hx, huntil, hnewest⟩ := h.step_node hkept hstep
  exact ⟨hup, hdown, ⟨x, hx, huntil, hnewest⟩, h.follows.step hstep (current_of hx huntil hup)⟩

/-- A page that has heard of the node knows of an interval that is not long ago. -/
theorem Alive.online (h : Alive skew d since s) (hheard : s.heard = true)
    (hlate : since + d.up + d.down < s.now) (hbound : d.period + d.up + d.down ≤ 20000 + skew) :
    (s.page.tick s.now).online = "online" := by
  obtain ⟨status, hpage, huntil, -⟩ := h.follows
  obtain ⟨u, hu, hle⟩ := huntil.recent (by omega) (h.downAge (by omega))
  obtain ⟨x, hx, hrecent⟩ := hu (by omega)
  rw [Main.tick_online _ (by rw [hpage hheard, hx]), if_neg (by omega)]

variable {now : Int} {time : Nat} {node : Status M} {as : List (HeartbeatAction M)}

theorem aged_of_run (hstart : time ≤ now + skew)
    (hrun : Transition.run (step skew) (.start skew now time node) as = some s) : Aged skew s :=
  Transition.run_invariant (fun _ _ _ h hstep => h.step hstep) (aged_start hstart) hrun

theorem follows_of_run
    (hrun : Transition.run (step skew) (.start skew now time node) as = some s) :
    Follows (fun _ _ => True) s := by
  refine Transition.run_invariant (fun _ _ _ h hstep => h.step hstep trivial) ?_ hrun
  exact ⟨node, nofun, ⟨trivial, trivial⟩, rfl⟩

/-- From an interval on nothing is known of older messages, and nothing needs to be. -/
theorem alive_of_interval (haged : Aged skew s) (hfollows : Follows (fun _ _ => True) s)
    (hstep : s.step skew .interval = some s') : Alive skew d s.now s' := by
  obtain rfl : _ = s' := Option.some.inj hstep
  obtain ⟨x, hx, -⟩ := haged.node
  obtain ⟨status, hpage, -, hnewest⟩ := hfollows
  have hup : Relay.Until (d.Ticking skew s.now) s.now x s.up :=
    .of_forall (fun _ h => by omega) fun m hm _ h => by have := (haged.up m hm).2; omega
  have hdown : Relay.Until (d.Current skew s.now) s.now status s.down :=
    .of_forall (fun _ h => by omega) fun m hm _ h => by have := (haged.down m hm).2; omega
  exact ⟨fun h => absurd h (Int.lt_irrefl _), fun h => absurd h (Int.lt_irrefl _),
    ⟨x, hx, hup.send fun h => by omega, Relay.newest_concat⟩, status, hpage, hdown, hnewest⟩

/-- In every reachable state: the timer of a page shows the door as offline when its last
interval was more than twenty seconds ago, by the clock of the door. And whatever has
happened before, once `online.js` has an interval and the bounds on its period and on the
two delays are kept, a page that has heard of the node shows the door as online as soon as
both delays are over, where the bounds together leave the twenty seconds. -/
theorem online_shown (hstart : time ≤ now + skew)
    (hrun : Transition.run (step skew) (.start skew now time node) as = some s) :
    (s.beat + skew + 20000 < s.now → (s.page.tick s.now).online = "offline") ∧
    ∀ (d : Delays) (bs : List (HeartbeatAction M)) (t : Heartbeat M),
      Transition.Meets (step skew) d.Kept s (.interval :: bs) →
      Transition.run (step skew) s (.interval :: bs) = some t →
      t.heard = true → s.now + d.up + d.down < t.now →
      d.period + d.up + d.down ≤ 20000 + skew → (t.page.tick t.now).online = "online" := by
  have haged := aged_of_run hstart hrun
  refine ⟨haged.offline, fun d bs t hmeets hbs hheard hlate hbound => ?_⟩
  obtain ⟨s', hstep, hrest⟩ := Transition.run_cons_eq_some.mp hbs
  have halive := alive_of_interval (d := d) haged (follows_of_run hrun) hstep
  exact (Transition.run_invariant_of_meets (fun _ _ _ h hkept hstep => h.step hkept hstep) halive
    (hmeets.2 s' hstep) hrest).online hheard hlate hbound

/-- The service stops for half a minute, and its last writes are lost. -/
def halfAMinute : List (HeartbeatAction Unit) := [.snapshot 0, .interval, .crash 0, .pass 30000]

/-- It is back: the second of its writes is on its way for a while. -/
def backAgain : List (HeartbeatAction Unit) :=
  [.interval, .land, .snapshot 0, .pass 400, .interval, .pass 250, .land]

def quick : Delays := ⟨600, 300, 50⟩

theorem online_shown_backAgain :
    ∃ s t, Transition.run (step 100)
        (.start 100 50000 50050 (Main.init : Main Unit).status) halfAMinute = some s ∧
      (s.page.tick s.now).online = "offline" ∧
      Transition.run (step 100) s backAgain = some t ∧ (t.page.tick t.now).online = "online" := by
  obtain ⟨s, t, hs, hbeat, hmeets, ht, hheard, hlate⟩ : ∃ s t, Transition.run (step 100)
        (.start 100 50000 50050 (Main.init : Main Unit).status) halfAMinute = some s ∧
      s.beat + 100 + 20000 < s.now ∧ Transition.Meets (step 100) quick.Kept s backAgain ∧
      Transition.run (step 100) s backAgain = some t ∧ t.heard = true ∧
      s.now + 300 + 50 < t.now := ⟨_, _, rfl, by decide, by decide, rfl, rfl, by decide⟩
  obtain ⟨hoffline, honline⟩ := online_shown (by decide) hs
  exact ⟨s, t, hs, hoffline hbeat, ht, honline quick _ t hmeets ht hheard hlate (by decide)⟩

end Heartbeat

end SmartDoor.Web
