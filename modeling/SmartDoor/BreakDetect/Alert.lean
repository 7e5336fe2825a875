-- SUMMARY: When a motor-driven movement raises a thief alert: the two processes agree whenever the system is settled.
import SmartDoor.BreakDetect.Watch

/-!
# Thief alerts raised by the motor

The lock moves only with the motor, so whenever no handler is running the last
`doorneedtobe` written is the position the sensor shows. A callback that runs in
a settled state therefore agrees and resets the count. Mismatches with "Close"
fall into the stretch from the pulse that takes the lock off the closed position
to the arrival of the new `doorneedtobe`, and two of them without an agreeing
callback in between raise the alert.
-/

namespace SmartDoor.BreakDetect

open Motor

variable {K : Type} {cfg : DoorConfig}

/-! ## The motor server's side -/

/-- The flag is clear, and the last `doorneedtobe` is the position of the lock. -/
def Agreed (cfg : DoorConfig) (b : Board K) : Prop :=
  b.inOperation = 0 ∧
    (history b).getLast? = some (cfg.motorStatus 1 b.potentiometer)

theorem startup_agreed {reading : Int} (hclosed : cfg.motorStatus 1 reading = .Close) :
    Prog.wp (Board.act .driven) (startup cfg) (fun _ b => Agreed (K := K) cfg b)
      ⟨reading, 0, []⟩ := by
  simp only [startup, motorStatus, perform, Prog.wp_bind, Prog.wp_perform, Prog.wp_pure]
  intro i _
  refine ⟨rfl, ?_⟩
  simp [history, Board.act, Sensor.driven, hclosed, List.filterMap_cons, Event.doorneedtobe?]

theorem onData_agreed {b : Board K} {socket : K} {data : String} (hb : Agreed cfg b) :
    Prog.wp (Board.act .driven) (onData cfg socket data) (fun _ b' => Agreed cfg b')
      (b.record (.data socket data)) := by
  by_cases hdata : IsCommand data
  · refine wp_onData_of_isCommand cfg (by simpa using hb.1) hdata fun b' i _ => ⟨rfl, ?_⟩
    rw [history, List.getLast?_cons]
    simp [Board.publish, List.findSome?_cons, Event.doorneedtobe?]
  · refine wp_onData_of_not_isCommand cfg (by simpa using hb.1) hdata ⟨hb.1, ?_⟩
    simpa [history, List.filterMap_cons, Event.doorneedtobe?] using hb.2

theorem history_prefix {b b' : Board K} (h : b.log <+: b'.log) : history b <+: history b' := by
  obtain ⟨evs, hevs⟩ := h
  exact ⟨evs.filterMap Event.doorneedtobe?, by simp [history, ← hevs]⟩

/-! ## The invariant -/

/-- What BreakDetect knows is the last value it has received. -/
structure InStep (b : Board K) (w : Watch) : Prop where
  received : w.received ≤ (history b).length
  value : ∀ v, w.value = some v → 0 < w.received ∧ (history b)[w.received - 1]? = some v

theorem InStep.mono {b b' : Board K} {w : Watch} (h : InStep b w) (hb : b.log <+: b'.log) :
    InStep b' w := by
  have hpre := history_prefix hb
  refine ⟨Nat.le_trans h.received hpre.length_le, fun v hv => ?_⟩
  obtain ⟨hpos, hget⟩ := h.value v hv
  obtain ⟨later, hlater⟩ := hpre
  refine ⟨hpos, ?_⟩
  rw [← hlater, List.getElem?_append_left (List.getElem?_eq_some_iff.mp hget).1]
  exact hget

/-- Nothing has been raised. -/
def Watch.Silent (w : Watch) : Prop := w.notifications = [] ∧ w.sent = []

structure Inv (cfg : DoorConfig) (s : System K) : Prop where
  server : s.server.Upholds .driven (Agreed cfg)
  inStep : InStep s.server.board s.watch
  silent : s.watch.Silent

/-- In a settled state BreakDetect's value is the position of the lock. -/
theorem Inv.settled {s : System K} (h : Inv cfg s) (hs : s.Settled) {v : Position}
    (hv : s.watch.value = some v) : cfg.motorStatus 1 s.server.board.potentiometer = v := by
  obtain ⟨hidle, hreceived⟩ := hs
  have hagreed : Agreed cfg s.server.board := by
    simpa only [Server.Upholds, hidle] using h.server
  obtain ⟨-, hget⟩ := h.inStep.value v hv
  rw [hreceived, ← List.getLast?_eq_getElem?, hagreed.2] at hget
  exact Option.some.inj hget

/-! ## The condition -/

/-- If a callback is about to run with "Close" in an unsettled state, with the
lock off the closed position, then no earlier mismatch is counted. -/
def Spaced (cfg : DoorConfig) (s : System K) (a : Action K) : Prop :=
  ∀ now, a = .callback now → s.watch.value = some .Close → ¬ s.Settled →
    cfg.motorStatus 1 s.server.board.potentiometer ≠ .Close → s.watch.alretCount = 0

/-- A callback stays silent unless it is the second mismatch with "Close". -/
theorem onDoorneedtobe_silent {reading now : Int} {v : Position} {w : Watch} (hw : w.Silent)
    (h : v = .Close → cfg.motorStatus 1 reading ≠ .Close → w.alretCount = 0) :
    (onDoorneedtobe cfg reading now v w).Silent := by
  unfold onDoorneedtobe
  split
  case isFalse => exact hw
  case isTrue hne =>
    split
    case isFalse => exact hw
    case isTrue hv =>
      subst hv
      simp only [h rfl hne]
      exact hw

theorem onDoorneedtobe_inStep {reading now : Int} {v : Position} {w : Watch} {b : Board K}
    (h : InStep b w) : InStep b (onDoorneedtobe cfg reading now v w) := by
  unfold onDoorneedtobe
  split
  case isFalse => exact ⟨h.received, h.value⟩
  case isTrue =>
    split
    case isFalse => exact h
    case isTrue =>
      dsimp only
      split
      · exact ⟨h.received, h.value⟩
      · exact ⟨h.received, h.value⟩

theorem inv_init {reading : Int} (hclosed : cfg.motorStatus 1 reading = .Close) :
    Inv cfg (System.init (K := K) cfg reading) where
  server := startup_agreed hclosed
  inStep := ⟨Nat.zero_le _, nofun⟩
  silent := ⟨rfl, rfl⟩

variable [DecidableEq K]

/-! ## What a step of the system can do -/

theorem System.step_cases {s s' : System K} {a : Action K} (h : s.step cfg a = some s') :
    (∃ b server, a = .motor b ∧ s.server.step cfg .driven b = some server ∧
      s' = { s with server := server }) ∨
    (∃ listeners pending, a = .tick ∧ s' = { s with watch := { s.watch with
      listeners := listeners, pending := pending } }) ∨
    (∃ n v pending, a = .deliver n ∧ 0 < n ∧
      (history s.server.board)[s.watch.received + n - 1]? = some v ∧
      s' = { s with watch := { s.watch with
        received := s.watch.received + n, value := some v, pending := pending } }) ∨
    (∃ now v, a = .callback now ∧ s.watch.value = some v ∧
      s' = { s with
        watch := onDoorneedtobe cfg s.server.board.potentiometer now v
          { s.watch with pending := s.watch.pending - 1 } }) := by
  cases a with
  | motor b =>
    obtain ⟨server, hserver, heq⟩ := Option.map_eq_some_iff.mp h
    exact .inl ⟨b, server, rfl, hserver, heq.symm⟩
  | tick =>
    simp only [System.step] at h
    split at h
    case isFalse => cases h
    case isTrue => exact .inr (.inl ⟨_, _, rfl, (Option.some.inj h).symm⟩)
  | deliver n =>
    simp only [System.step] at h
    split at h
    case h_1 => cases h
    case h_2 v hget =>
      split at h
      case isFalse => cases h
      case isTrue hc =>
        exact .inr (.inr (.inl ⟨n, v, _, rfl, hc.2.2, hget, (Option.some.inj h).symm⟩))
  | callback now =>
    simp only [System.step] at h
    split at h
    case h_1 => cases h
    case h_2 v hv =>
      split at h
      case isFalse => cases h
      case isTrue => exact .inr (.inr (.inr ⟨now, v, rfl, hv, (Option.some.inj h).symm⟩))

/-! ## Preservation -/

theorem inv_step {s s' : System K} {a : Action K} (hs : Inv cfg s) (hg : Spaced cfg s a)
    (h : s.step cfg a = some s') : Inv cfg s' := by
  obtain ⟨b, server, rfl, hserver, rfl⟩ | ⟨_, _, rfl, rfl⟩ | ⟨n, v, _, rfl, hn, hget, rfl⟩ |
    ⟨now, v, rfl, hv, rfl⟩ := System.step_cases h
  · exact ⟨hs.server.step (fun b socket text => onData_agreed) hserver,
      hs.inStep.mono (Server.step_log_prefix hserver), hs.silent⟩
  · exact ⟨hs.server, ⟨hs.inStep.received, hs.inStep.value⟩, hs.silent⟩
  · have hlt := (List.getElem?_eq_some_iff.mp hget).1
    refine ⟨hs.server, ⟨by dsimp only; omega, fun v' hv' => ?_⟩, hs.silent⟩
    obtain rfl : v = v' := Option.some.inj hv'
    exact ⟨by dsimp only; omega, hget⟩
  · refine ⟨hs.server, onDoorneedtobe_inStep ⟨hs.inStep.received, hs.inStep.value⟩,
      onDoorneedtobe_silent hs.silent ?_⟩
    rintro rfl hopen
    -- in a settled state the lock would be at "Close"
    exact hg now rfl hv (fun hset => hopen (hs.settled hset hv)) hopen

/-! ## Alerts stay -/

theorem onDoorneedtobe_notifications {reading now : Int} {v : Position} (w : Watch) :
    w.notifications <+: (onDoorneedtobe cfg reading now v w).notifications := by
  unfold onDoorneedtobe
  split
  case isFalse => exact List.prefix_rfl
  case isTrue =>
    split
    case isFalse => exact List.prefix_rfl
    case isTrue =>
      dsimp only
      split
      · exact List.prefix_append _ _
      · exact List.prefix_rfl

theorem step_notifications {s s' : System K} {a : Action K} (h : s.step cfg a = some s') :
    s.watch.notifications <+: s'.watch.notifications := by
  obtain ⟨_, _, -, -, rfl⟩ | ⟨_, _, -, rfl⟩ | ⟨_, _, _, -, -, -, rfl⟩ | ⟨now, v, -, -, rfl⟩ :=
    System.step_cases h
  · exact List.prefix_rfl
  · exact List.prefix_rfl
  · exact List.prefix_rfl
  · exact onDoorneedtobe_notifications { s.watch with pending := s.watch.pending - 1 }

theorem run_notifications {s t : System K} {as : List (Action K)}
    (h : Transition.run (System.step cfg) s as = some t) :
    s.watch.notifications <+: t.watch.notifications := by
  refine Transition.run_invariant (I := fun t => s.watch.notifications <+: t.watch.notifications)
    (fun _ _ _ hpre hstep => hpre.trans (step_notifications hstep)) List.prefix_rfl h

/-- A callback taken against the condition raises the alert. -/
theorem alert_of_not_spaced {s s' : System K} {a : Action K} (hg : ¬ Spaced cfg s a)
    (h : s.step cfg a = some s') : s'.watch.notifications ≠ [] := by
  simp only [Spaced, not_forall] at hg
  obtain ⟨now, rfl, hv, -, hopen, hcount⟩ := hg
  simp only [System.step, hv] at h
  split at h
  case isFalse => cases h
  case isTrue =>
    obtain rfl := Option.some.inj h
    have h2 : 2 ≤ s.watch.alretCount + 1 := by omega
    simp [onDoorneedtobe, hopen, Watch.alert, h2]

theorem spaced_of_run {s t : System K} {as : List (Action K)}
    (hrun : Transition.run (System.step cfg) s as = some t) (ht : t.watch.notifications = []) :
    Transition.Meets (System.step cfg) (Spaced cfg) s as := by
  refine Transition.meets_of_run hrun fun _ a _ u u' _ _ hstep hrest => ?_
  by_contra hg
  have hpre := run_notifications hrest
  rw [ht, List.prefix_nil] at hpre
  exact alert_of_not_spaced hg hstep hpre

/-! ## Every run -/

/-- From a closed lock, in which the reading changes only with the motor's
pulses, BreakDetect raises no alert exactly if every callback that runs with
"Close", while the lock is off the closed position and the new `doorneedtobe`
has not arrived, finds no earlier mismatch counted. -/
theorem silent_iff_spaced {reading : Int} {as : List (Action K)} {s : System K}
    (hclosed : cfg.motorStatus 1 reading = .Close)
    (hrun : Transition.run (System.step cfg) (System.init cfg reading) as = some s) :
    s.watch.Silent ↔ Transition.Meets (System.step cfg) (Spaced cfg) (System.init cfg reading) as :=
  ⟨fun h => spaced_of_run hrun h.1, fun h =>
    (Transition.run_invariant_of_meets (fun _ _ _ => inv_step) (inv_init hclosed) h hrun).silent⟩

/-- An accepted unlock is at its first pulse, the lock has left the closed
position, and two ticks fall into the movement. -/
def pollsDuringOpening : List (Action Unit) :=
  [.motor (.exec 0), .motor (.exec 0), .motor (.exec 0), .tick, .deliver 1, .callback 0,
    .motor (.arrive () "Open"), .motor (.data () 1)] ++
    [0, 0, 0, 0, 0, 0, 800].map (fun i => .motor (.exec i)) ++
    [.tick, .callback 3000, .tick, .callback 6000]

theorem silent_iff_spaced_pollsDuringOpening :
    ∃ s, Transition.run (System.step doorconfig) (System.init doorconfig 700) pollsDuringOpening
        = some s ∧
      (s.watch.Silent ↔ Transition.Meets (System.step doorconfig) (Spaced doorconfig)
        (System.init doorconfig 700) pollsDuringOpening) := by
  have hobs : (Transition.run (System.step doorconfig) (System.init doorconfig 700)
      pollsDuringOpening).isSome = true := rfl
  obtain ⟨s, hrun⟩ := Option.isSome_iff_exists.mp hobs
  exact ⟨s, hrun, silent_iff_spaced (by decide) hrun⟩

/-- The motor's own unlock is reported as a break-in. -/
theorem thief_alert_during_opening :
    doorconfig.motorStatus 1 700 = .Close ∧
    ∃ s, Transition.run (System.step doorconfig) (System.init doorconfig 700) pollsDuringOpening
        = some s ∧ ¬ s.watch.Silent ∧ Notification.thiefAlert 6000 ∈ s.watch.notifications := by
  have hobs : (Transition.run (System.step doorconfig) (System.init doorconfig 700)
      pollsDuringOpening).map (fun s => s.watch.notifications) =
      some [.thiefAlert 6000, { Notification.thiefAlert 6000 with popup := "false" }] := rfl
  obtain ⟨s, hrun, hs⟩ := Option.map_eq_some_iff.mp hobs
  exact ⟨by decide, s, hrun, fun h => by simp [h.1] at hs, by simp [hs]⟩

end SmartDoor.BreakDetect
