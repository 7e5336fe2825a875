-- SUMMARY: The motor server in closed loop with the lock: it brings the lock where the last command wants it, and never drives it further.
import SmartDoor.Base.Replay
import SmartDoor.Motor.Hysteresis

/-!
# The lock in the loop

So far the potentiometer could return anything. Here it sits on the lock's axis,
which the motor turns: by one step at a rising edge of the step pin while the relay
is on, counterclockwise (the reading grows) where the direction pin is 0 and
clockwise where it is 1. How far a step turns it is only known within bounds.
-/

namespace SmartDoor.Motor

variable {K : Type}

/-! ## The axis -/

/-- The bounds of one step, in units of the reading. -/
structure Gear where
  lo : Int
  hi : Int
  deriving DecidableEq, Repr

/-- A step may turn the axis from `r` to `r'`. -/
def Gear.Turns (g : Gear) (direction r r' : Int) : Prop :=
  if direction = 0 then r + g.lo ≤ r' ∧ r' ≤ r + g.hi else r - g.hi ≤ r' ∧ r' ≤ r - g.lo

/-- The axis, and the levels of the pins that drive it. -/
structure Lock where
  reading : Int
  relay : Int
  direction : Int
  step : Int
  deriving DecidableEq, Repr

/-- What an entry of the log does to the lock, or says about it. -/
def Lock.Moves (g : Gear) (a : Lock) : Event K → Lock → Prop
  | .read value, b => value = a.reading ∧ b = a
  | .did (.writePin7 level), b => b = { a with relay := level }
  | .did (.writeDirectionPin level), b => b = { a with direction := level }
  | .did (.writeStepPin level), b =>
    if a.step = 0 ∧ level = 1 ∧ a.relay = 1 then
      ∃ r, g.Turns a.direction a.reading r ∧ b = { a with reading := r, step := level }
    else b = { a with step := level }
  | _, b => b = a

/-- The reading is at most one step beyond the end positions. -/
def Gear.Within (g : Gear) (cfg : DoorConfig) (r : Int) : Prop :=
  cfg.potentionmeterLowThreshold - g.hi ≤ r ∧ r ≤ cfg.potentionmeterHighThreshold + g.hi

/-- The configuration suits the gear: the end positions are apart, and the iterations of one
command, less the one that the step pin may still be high for, are enough for the whole way. -/
structure Gear.Fits (g : Gear) (cfg : DoorConfig) : Prop where
  direction : cfg.motorDirectionToClose = 0 ∨ cfg.motorDirectionToClose = 1
  precision : 0 ≤ cfg.motorStatusPrecisionMul
  apart : Apart cfg
  forward : 0 < g.lo ∧ g.lo ≤ g.hi
  budget : cfg.potentionmeterHighThreshold - cfg.potentionmeterLowThreshold + g.hi <
    g.lo * (cfg.motorThreshold - 1)

/-! ## How far there is to go -/

/-- How far the reading `r` is from the position `p`. -/
def gap (cfg : DoorConfig) (p : Position) (r : Int) : Int :=
  if directionLevel cfg p = 0 then cfg.potentionmeterHighThreshold - r
  else r - cfg.potentionmeterLowThreshold

variable {cfg : DoorConfig} {g : Gear} {p : Position} {a b : Lock} {r r' : Int} {n : Nat}
  {log evs l : List (Event K)} {socket : K} {data : String}

theorem gap_neg_iff (hg : g.Fits cfg) (hp : p ≠ .Middle) :
    cfg.motorStatus 0 r = p ↔ gap cfg p r < 0 := by
  have hapart := hg.apart
  have hmul := hg.precision
  unfold Apart at hapart
  unfold DoorConfig.motorStatus gap directionLevel DoorConfig.motorDirectionToOpen
  rcases hg.direction with hd | hd <;> cases p <;> simp only [hd] <;> simp at hp ⊢ <;>
    split_ifs <;> simp <;> omega

/-- The coarse test reports a position that the fine one has reported. -/
theorem motorStatus_one_of_gap_neg (hg : g.Fits cfg) (hp : p ≠ .Middle) (h : gap cfg p r < 0) :
    cfg.motorStatus 1 r = p := by
  refine motorStatus_near hg.apart hp ((gap_neg_iff hg hp).mpr h) ?_
  have hmul := hg.precision
  unfold Near
  omega

theorem within_iff (cfg : DoorConfig) (p : Position) :
    g.Within cfg r ↔ -g.hi ≤ gap cfg p r ∧ gap cfg p r ≤
      cfg.potentionmeterHighThreshold - cfg.potentionmeterLowThreshold + g.hi := by
  unfold Gear.Within gap
  split <;> omega

/-- A step in the direction of the command brings the axis nearer. -/
theorem gap_of_turns (h : g.Turns (directionLevel cfg p) r r') :
    gap cfg p r - g.hi ≤ gap cfg p r' ∧ gap cfg p r' ≤ gap cfg p r - g.lo := by
  unfold Gear.Turns at h
  unfold gap
  split at h <;> simp_all <;> omega

/-! ## Replaying the entries -/

/-- The lock goes through the entries within its range, and `Q` holds at the end. -/
abbrev Gear.Drives (g : Gear) (cfg : DoorConfig) (Q : Lock → Prop) (a : Lock)
    (l : List (Event K)) : Prop :=
  Replay.Along (Lock.Moves g) (fun b => g.Within cfg b.reading) Q a l

variable {Q : Lock → Prop}

theorem drives_read {value : Int} (ha : g.Within cfg a.reading)
    (h : value = a.reading → g.Drives cfg Q a l) : g.Drives cfg Q a (.read value :: l) := by
  refine ⟨ha, fun c hc => ?_⟩
  obtain ⟨hvalue, rfl⟩ := hc
  exact h hvalue

/-- A rising edge. -/
theorem drives_turn (ha : g.Within cfg a.reading) (hstep : a.step = 0) (hrelay : a.relay = 1)
    (h : ∀ r, g.Turns a.direction a.reading r →
      g.Drives cfg Q { a with reading := r, step := 1 } l) :
    g.Drives cfg Q a (.did (.writeStepPin 1) :: l) := by
  refine ⟨ha, fun c hc => ?_⟩
  simp only [Lock.Moves] at hc
  rw [if_pos ⟨hstep, trivial, hrelay⟩] at hc
  obtain ⟨r, hr, rfl⟩ := hc
  exact h r hr

/-- A write to the step pin that is no rising edge. -/
theorem drives_hold {level : Int} (ha : g.Within cfg a.reading) (hno : level = 0 ∨ a.step = 1)
    (h : g.Drives cfg Q { a with step := level } l) :
    g.Drives cfg Q a (.did (.writeStepPin level) :: l) := by
  refine ⟨ha, fun c hc => ?_⟩
  simp only [Lock.Moves] at hc
  rw [if_neg (by omega)] at hc
  obtain rfl := hc
  exact h

/-- Entries that do not concern the lock. -/
theorem drives_of_forall (ha : g.Within cfg a.reading) (hQ : Q a)
    (h : ∀ e ∈ evs, ∀ b, Lock.Moves g a e b → b = a) : g.Drives cfg Q a evs := by
  induction evs with
  | nil => exact ⟨ha, hQ⟩
  | cons e evs ih =>
    refine ⟨ha, fun c hc => ?_⟩
    obtain rfl := h e (by simp) c hc
    exact ih fun e he => h e (by simp [he])

/-! ## The loop of StepMotor -/

/-- `StepMotor` drives the lock towards `p`. -/
structure Lock.Towards (cfg : DoorConfig) (p : Position) (a : Lock) : Prop where
  relay : a.relay = 1
  direction : a.direction = directionLevel cfg p
  step : a.step = 0 ∨ a.step = 1

/-- The first half of an iteration turns the axis, unless the pin was high already. -/
theorem drives_high (ha : g.Within cfg a.reading) (htowards : a.Towards cfg p)
    (hfar : 0 ≤ gap cfg p a.reading) (hg : g.Fits cfg)
    (h : ∀ r, g.Within cfg r → gap cfg p r ≤ gap cfg p a.reading - g.lo * (1 - a.step) →
      g.Drives cfg Q { a with reading := r, step := 1 } l) :
    g.Drives cfg Q a (.did (.writeStepPin 1) :: l) := by
  obtain ⟨hrelay, hdirection, hstep | hstep⟩ := htowards
  · refine drives_turn ha hstep hrelay fun r hr => ?_
    have hlo := hg.forward
    have hrange := (within_iff cfg p).mp ha
    obtain ⟨hle, hge⟩ := gap_of_turns (hdirection ▸ hr)
    refine h r ((within_iff cfg p).mpr (by omega)) ?_
    rw [hstep]
    omega
  · refine drives_hold ha (.inr hstep) (h a.reading ha ?_)
    rw [hstep]
    omega

theorem Pulses.drives (hg : g.Fits cfg) (hp : p ≠ .Middle) (h : Pulses cfg p n evs)
    (htowards : a.Towards cfg p) (ha : g.Within cfg a.reading)
    (hfar : 0 ≤ gap cfg p a.reading) (hbudget : gap cfg p a.reading < g.lo * (n - a.step)) :
    g.Drives cfg (fun b => gap cfg p b.reading < 0 ∧ b.Towards cfg p) a evs := by
  induction h generalizing a with
  | spent =>
    exfalso
    have hlo := hg.forward
    rcases htowards.step with hstep | hstep <;> rw [hstep] at hbudget <;> simp at hbudget <;> omega
  | high printed r hr =>
    refine drives_high ha htowards hfar hg fun r' hr' _ => ?_
    refine drives_read hr' fun _ => drives_read hr' fun hread => ?_
    obtain rfl : r = r' := hread
    exact ⟨hr', (gap_neg_iff hg hp).mp hr, htowards.relay, htowards.direction, .inr rfl⟩
  | low printed r₁ r₂ hr₁ hr₂ =>
    refine drives_high ha htowards hfar hg fun r' hr' _ => ?_
    refine drives_read hr' fun _ => drives_read hr' fun hread₁ => ?_
    refine drives_hold hr' (.inl rfl) (drives_read hr' fun hread₂ => ?_)
    -- nothing has turned the axis between the two tests
    exact absurd hr₂ (hread₂.trans hread₁.symm ▸ hr₁)
  | @next n evs printed r₁ r₂ hr₁ hr₂ h ih =>
    refine drives_high ha htowards hfar hg fun r' hr' hgap => ?_
    refine drives_read hr' fun _ => drives_read hr' fun hread => ?_
    obtain rfl : r₁ = r' := hread
    refine drives_hold hr' (.inl rfl) (drives_read hr' fun _ => ?_)
    refine ih ⟨htowards.relay, htowards.direction, .inl rfl⟩ hr' ?_ ?_
    · exact Int.not_lt.mp fun hneg => hr₁ ((gap_neg_iff hg hp).mpr hneg)
    · have hsplit : g.lo * ((n + 1 : Nat) - a.step) = g.lo * (1 - a.step) + g.lo * n := by
        rw [← Int.mul_add]
        congr 1
        omega
      simp only [Int.sub_zero]
      omega

/-! ## One message -/

theorem Moved.drives (hg : g.Fits cfg) (hp : p ≠ .Middle) (h : Moved cfg p evs)
    (hstep : a.step = 0 ∨ a.step = 1) (ha : g.Within cfg a.reading)
    (hfar : 0 ≤ gap cfg p a.reading) :
    g.Drives cfg (fun b => gap cfg p b.reading < 0 ∧ (b.step = 0 ∨ b.step = 1)) a evs := by
  obtain ⟨hpulses⟩ := h
  refine ⟨ha, fun b hb => ?_⟩
  obtain rfl := hb
  refine ⟨ha, fun c hc => ?_⟩
  obtain rfl := hc
  have hbudget : gap cfg p a.reading < g.lo * (cfg.motorThreshold - a.step) := by
    have hrange := (within_iff cfg p).mp ha
    have hlo := hg.forward
    have hway := hg.budget
    rcases hstep with hstep | hstep
    · rw [hstep]
      have hsplit : g.lo * (cfg.motorThreshold - 0) = g.lo * (cfg.motorThreshold - 1) + g.lo := by
        rw [Int.mul_sub, Int.mul_sub]
        omega
      omega
    · rw [hstep]
      omega
  have htowards : Lock.Towards cfg p { a with relay := 1, direction := directionLevel cfg p } :=
    ⟨rfl, rfl, hstep⟩
  refine Replay.Along.append ?_
  refine (hpulses.drives hg hp htowards ha hfar hbudget).mono fun b hb hreached => ?_
  refine ⟨hb, fun c hc => ?_⟩
  obtain rfl := hc
  exact ⟨hb, hreached.1, hreached.2.step⟩

theorem Commanded.drives (hg : g.Fits cfg) (hp : p ≠ .Middle) (h : Commanded cfg p evs)
    (hstep : a.step = 0 ∨ a.step = 1) (ha : g.Within cfg a.reading) :
    g.Drives cfg (fun b => cfg.motorStatus 1 b.reading = p ∧ (b.step = 0 ∨ b.step = 1)) a evs := by
  cases h with
  | already first hfirst =>
    refine drives_read ha fun hread => ?_
    obtain rfl := hread
    exact drives_of_forall ha ⟨hfirst, hstep⟩ (by simp [Lock.Moves])
  | moved first final hfirst hmoved =>
    refine drives_read ha fun hread => ?_
    obtain rfl := hread
    refine ⟨ha, fun b hb => ?_⟩
    obtain rfl : a = b := hb.symm
    have hfar : 0 ≤ gap cfg p a.reading :=
      Int.not_lt.mp fun hneg => hfirst (motorStatus_one_of_gap_neg hg hp hneg)
    refine Replay.Along.append ((hmoved.drives hg hp hstep ha hfar).mono fun b hb hreached => ?_)
    refine drives_read hb fun _ => ?_
    exact drives_of_forall hb ⟨motorStatus_one_of_gap_neg hg hp hreached.1, hreached.2⟩
      (by simp [Lock.Moves])

/-! ## Every run -/

/-- The last command that was taken from a connection. -/
def lastCommand (log : List (Event K)) : Option String :=
  ((log.filterMap Event.data?).filter fun m => IsCommand m.2).getLast?.map (·.2)

/-- The lock and the database are as the last command wants them. -/
def Obeys (cfg : DoorConfig) (log : List (Event K)) (b : Lock) : Prop :=
  ∀ p : Position, lastCommand log = some p.text → cfg.motorStatus 1 b.reading = p ∧
    (log.filterMap Event.doorstatus?).getLast? = some (.known p) ∧
    (log.filterMap Event.doorneedtobe?).getLast? = some p

theorem lastCommand_of_forall (h : ∀ e ∈ evs, e.data? = none) :
    lastCommand (log ++ evs) = lastCommand log := by
  simp [lastCommand, List.filterMap_eq_nil_iff.mpr h]

theorem lastCommand_data (hdata : IsCommand data) :
    lastCommand (log ++ [.data socket data]) = some data := by
  simp [lastCommand, Event.data?, hdata]

theorem lastCommand_other (hdata : ¬ IsCommand data) :
    lastCommand (log ++ [.data socket data]) = lastCommand log := by
  simp [lastCommand, Event.data?, hdata]

theorem published_own {value : Int} : ∀ e ∈ published cfg socket value, e.data? = none := by
  simp [published, Event.data?]

/-- A command is obeyed once it has been published. -/
theorem obeys_published (hp : p ≠ .Middle) (hown : ∀ e ∈ evs, e.data? = none)
    (hb : cfg.motorStatus 1 b.reading = p) :
    Obeys cfg (log ++ .data socket p.text :: (evs ++ published cfg socket b.reading)) b := by
  intro q hq
  have hlast : lastCommand (log ++ .data socket p.text :: (evs ++ published cfg socket b.reading))
      = some p.text := by
    rw [List.append_cons, lastCommand_of_forall, lastCommand_data (isCommand_iff.mpr ⟨p, hp, rfl⟩)]
    intro e he
    rcases List.mem_append.mp he with he | he
    · exact hown e he
    · exact published_own e he
  obtain rfl : p = q := Position.text_injective (Option.some.inj (hlast.symm.trans hq))
  simp [published, hb, Event.doorstatus?, Event.doorneedtobe?, List.filterMap_cons,
    List.getLast?_append]

theorem Handling.drives (hg : g.Fits cfg) (h : Handling cfg socket data evs)
    (hobeys : Obeys cfg log a) (hstep : a.step = 0 ∨ a.step = 1) (ha : g.Within cfg a.reading) :
    g.Drives cfg (fun b => Obeys cfg (log ++ .data socket data :: evs) b ∧
      (b.step = 0 ∨ b.step = 1)) a evs := by
  cases h with
  | @command p evs value hp hcommanded =>
    refine Replay.Along.append ?_
    refine (hcommanded.drives hg hp hstep ha).mono fun b hb hreached => ?_
    refine drives_read hb fun hread => ?_
    obtain rfl := hread
    refine drives_of_forall hb ⟨obeys_published hp hcommanded.own hreached.1, hreached.2⟩ ?_
    simp [Lock.Moves]
  | rejected hdata =>
    refine drives_of_forall ha ⟨fun p hlast => ?_, hstep⟩ (by simp [Lock.Moves])
    rw [List.append_cons, lastCommand_of_forall (by simp [Event.data?]),
      lastCommand_other hdata] at hlast
    simpa [List.filterMap_append, Event.doorstatus?, Event.doorneedtobe?, List.filterMap_cons]
      using hobeys p hlast

theorem History.drives (hg : g.Fits cfg) (h : History cfg log) (hstep : a.step = 0 ∨ a.step = 1)
    (ha : g.Within cfg a.reading) :
    g.Drives cfg (fun b => Obeys cfg log b ∧ (b.step = 0 ∨ b.step = 1)) a log := by
  induction h with
  | start value =>
    refine drives_read ha fun _ => drives_of_forall ha ⟨fun p hlast => ?_, hstep⟩ ?_
    · simp [lastCommand, List.filterMap_cons, Event.data?] at hlast
    · simp [Lock.Moves]
  | handled hlog hhandling ih =>
    refine Replay.Along.append (ih.mono fun b hb hidle => ?_)
    refine ⟨hb, fun c hc => ?_⟩
    obtain rfl : b = c := hc.symm
    exact hhandling.drives hg hidle.1 hidle.2 hb

/-- However requests interleave and however far each step turns the axis within the bounds
of the gear: the motor never drives the lock more than a step beyond its end positions,
and whenever no handler is running, the lock is where the last command wanted it, and the
database says so. -/
theorem lock_obeys [DecidableEq K] {sensor : Sensor} {reading : Int} {as : List (Action K)}
    {s : Server K} (hg : g.Fits cfg) (hstep : a.step = 0 ∨ a.step = 1)
    (ha : g.Within cfg a.reading)
    (hrun : Transition.run (Server.step cfg sensor) (Server.init cfg reading) as = some s)
    (hlock : Replay.Accepts (Lock.Moves g) a s.board.log b) :
    g.Within cfg b.reading ∧ (s.running = none → Obeys cfg s.board.log b) := by
  obtain ⟨⟨rest, hrest⟩, hidle⟩ := history_of_run hrun
  exact ⟨(hrest.drives hg hstep ha).of_accepts_append hlock,
    fun h => (((hidle h).drives hg hstep ha).of_accepts hlock).1⟩

/-- Two steps of eighty unlock the door. -/
def unlockOnce : List (Action Unit) :=
  [.exec 800, .exec 0, .exec 0, .arrive () "Open", .data () 1] ++
    [0, 0, 800, 0, 0, 0, 0, 880, 880, 0, 880, 0, 960, 960, 0, 960, 0, 960, 0, 0, 0, 0, 0].map .exec

/-- What it leaves in the log. -/
def unlockOnceLog : List (Event Unit) :=
  [.read 800, .did (.setDoorstatus (.known .Middle)), .data () "Open", .read 800,
    .did (.setDoorstatus .Unlocking), .did (.writePin7 1), .did (.writeDirectionPin 0),
    .did (.writeStepPin 1), .read 880, .read 880, .did (.writeStepPin 0), .read 880,
    .did (.writeStepPin 1), .read 960, .read 960, .did (.writePin7 0), .read 960,
    .did (.setDoormsg "Door Open sucessfully!"), .read 960, .did (.setDoorstatus (.known .Open)),
    .did (.setDoorneedtobe .Open), .did (.write () "Door Open")]

theorem lock_obeys_unlockOnce :
    ∃ s b, Transition.run (Server.step doorconfig .free) (Server.init doorconfig 800) unlockOnce
        = some s ∧ Replay.Accepts (Lock.Moves ⟨80, 80⟩) ⟨800, 0, 0, 0⟩ s.board.log b ∧
      b.reading = 960 ∧ Obeys doorconfig s.board.log b := by
  have hobs : (Transition.run (Server.step doorconfig .free) (Server.init doorconfig 800)
      unlockOnce).map (fun s => (s.running.isNone, s.board.log)) = some (true, unlockOnceLog) := rfl
  obtain ⟨s, hrun, hs⟩ := Option.map_eq_some_iff.mp hobs
  obtain ⟨hidle, hlog⟩ := Prod.mk.inj hs
  have hg : Gear.Fits ⟨80, 80⟩ doorconfig :=
    ⟨.inr rfl, by decide, by unfold Apart; decide, by decide, by decide⟩
  have hlock : Replay.Accepts (Lock.Moves ⟨80, 80⟩) ⟨800, 0, 0, 0⟩ s.board.log
      ⟨960, 0, 0, 1⟩ := by
    rw [hlog]
    simp [unlockOnceLog, Replay.Accepts, Lock.Moves, Gear.Turns]
  exact ⟨s, _, hrun, hlock, rfl,
    (lock_obeys hg (.inl rfl) (by unfold Gear.Within; decide) hrun hlock).2 (by simpa using hidle)⟩

end SmartDoor.Motor
