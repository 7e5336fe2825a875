-- SUMMARY: The exact shape of the motor server's log: the start-up, then for each message one of three kinds of handling.
import SmartDoor.Base.Traces
import SmartDoor.Motor.Guard

/-!
# The motor server's log

What the handlers leave in the log is read off their traces once: `Pulses` for
the loop of `StepMotor`, `Moved` for a command that energised the motor, and
`Handling` for a whole message. `History` is the log of a server in which no
handler is running; the log of any reachable state is the first part of one
(`history_of_run`).
-/

namespace SmartDoor.Motor

variable {K : Type} (cfg : DoorConfig)

/-! ## What an effect logs -/

/-- The entries that an effect with the given answer adds to the board's log. -/
def Effect.logged : (e : Effect K) → e.Answer → List (Event K)
  | .readPotentiometer, value => [.read value]
  | .getInOperation, _ => []
  | .setInOperation _, _ => []
  | .writePin7 l, _ => [.did (.writePin7 l)]
  | .writeDirectionPin l, _ => [.did (.writeDirectionPin l)]
  | .writeStepPin l, _ => [.did (.writeStepPin l)]
  | .setDoorstatus status, _ => [.did (.setDoorstatus status)]
  | .setDoorneedtobe p, _ => [.did (.setDoorneedtobe p)]
  | .setDoormsg msg, _ => [.did (.setDoormsg msg)]
  | .write socket msg, _ => [.did (.write socket msg)]

theorem Board.act_log {sensor : Sensor} (i : Int) (b : Board K) (e : Effect K) :
    (b.act sensor i e).2.log = b.log ++ e.logged (b.act sensor i e).1 := by
  cases e <;> simp [Board.act, Effect.logged]

/-- The traces of a program of the motor server. -/
abbrev Leaves {α : Type} (p : Program K α) (evs : List (Event K)) (a : α) : Prop :=
  p.Traces Effect.logged evs a

theorem leaves_motorStatus {precision : Int} {evs : List (Event K)} {p : Position} :
    Leaves (motorStatus cfg precision) evs p ↔
      ∃ r, evs = [.read r] ∧ p = cfg.motorStatus precision r := by
  simp only [motorStatus, perform, Prog.traces_bind, Prog.traces_perform, Prog.traces_pure]
  constructor
  · rintro ⟨r, _, _, rfl, ⟨rfl, rfl⟩, rfl⟩
    exact ⟨r, rfl, rfl⟩
  · rintro ⟨r, rfl, rfl⟩
    exact ⟨r, _, _, rfl, ⟨rfl, rfl⟩, rfl⟩

/-! ## The loop of StepMotor -/

/-- The position a command asks for. -/
theorem isCommand_iff {data : String} :
    IsCommand data ↔ ∃ p : Position, p ≠ .Middle ∧ data = p.text := by
  constructor
  · rintro (rfl | rfl)
    · exact ⟨.Open, by decide, rfl⟩
    · exact ⟨.Close, by decide, rfl⟩
  · rintro ⟨p, hp, rfl⟩
    cases p
    · exact .inl rfl
    · exact .inr rfl
    · exact absurd rfl hp

theorem Position.text_injective {p q : Position} (h : p.text = q.text) : p = q := by
  cases p <;> cases q <;> first | rfl | exact absurd h (by decide)

/-- The two tests together read the sensor once. -/
theorem leaves_shouldBreak {p : Position} {evs : List (Event K)} {stop : Bool}
    (hp : p ≠ .Middle) (h : Leaves (shouldBreak cfg p.text) evs stop) :
    ∃ r, evs = [.read r] ∧ stop = decide (cfg.motorStatus 0 r = p) := by
  simp only [shouldBreak, Prog.traces_bind] at h
  obtain ⟨opened, evs₁, evs₂, h₁, h₂, rfl⟩ := h
  cases p with
  | Middle => exact absurd rfl hp
  | Open =>
    simp only [reached, if_pos, Prog.traces_bind, leaves_motorStatus, Prog.traces_pure] at h₁
    obtain ⟨_, _, _, ⟨r, rfl, rfl⟩, ⟨rfl, rfl⟩, rfl⟩ := h₁
    refine ⟨r, ?_⟩
    by_cases hr : cfg.motorStatus 0 r = .Open
    · simp only [hr, decide_true, if_pos, Prog.traces_pure] at h₂
      obtain ⟨rfl, rfl⟩ := h₂
      exact ⟨rfl, by simp [hr]⟩
    · simp only [hr, decide_false, Bool.false_eq_true, if_false, reached,
        show Position.text .Open ≠ Position.text .Close by decide, Prog.traces_pure] at h₂
      obtain ⟨rfl, rfl⟩ := h₂
      exact ⟨rfl, by simp [hr]⟩
  | Close =>
    simp only [reached, show Position.text .Close ≠ Position.text .Open by decide, if_false,
      Prog.traces_pure] at h₁
    obtain ⟨rfl, rfl⟩ := h₁
    simp only [Bool.false_eq_true, if_false, reached, if_pos, Prog.traces_bind, leaves_motorStatus,
      Prog.traces_pure] at h₂
    obtain ⟨_, _, _, ⟨r, rfl, rfl⟩, ⟨rfl, rfl⟩, rfl⟩ := h₂
    exact ⟨r, rfl, rfl⟩

/-- The entries of `StepMotor`'s loop for the position `p`, with `n` iterations
left. An iteration ends the loop at its first exit test, with the pin high, or
at its second one, with the pin low, or the loop goes on. -/
inductive Pulses (p : Position) : Nat → List (Event K) → Prop
  | spent : Pulses p 0 []
  | high {n : Nat} (printed r : Int) (hr : cfg.motorStatus 0 r = p) :
    Pulses p (n + 1) [.did (.writeStepPin 1), .read printed, .read r]
  | low {n : Nat} (printed r₁ r₂ : Int) (hr₁ : cfg.motorStatus 0 r₁ ≠ p)
      (hr₂ : cfg.motorStatus 0 r₂ = p) :
    Pulses p (n + 1)
      [.did (.writeStepPin 1), .read printed, .read r₁, .did (.writeStepPin 0), .read r₂]
  | next {n : Nat} {evs : List (Event K)} (printed r₁ r₂ : Int) (hr₁ : cfg.motorStatus 0 r₁ ≠ p)
      (hr₂ : cfg.motorStatus 0 r₂ ≠ p) (h : Pulses p n evs) :
    Pulses p (n + 1) (.did (.writeStepPin 1) :: .read printed :: .read r₁ ::
      .did (.writeStepPin 0) :: .read r₂ :: evs)

theorem pulses_of_leaves {p : Position} {n : Nat} {evs : List (Event K)} (hp : p ≠ .Middle)
    (h : Leaves (stepLoop cfg p.text n) evs ()) : Pulses cfg p n evs := by
  induction n generalizing evs with
  | zero =>
    obtain ⟨rfl, -⟩ := h
    exact .spent
  | succ n ih =>
    simp only [stepLoop, perform, Prog.traces_bind, leaves_motorStatus] at h
    obtain ⟨_, _, _, hpulse, ⟨_, _, _, ⟨printed, rfl, -⟩, ⟨stop, _, evs₂, htest, hrest, rfl⟩, rfl⟩,
      rfl⟩ := h
    obtain rfl := Prog.traces_perform.mp hpulse
    obtain ⟨r₁, rfl, rfl⟩ := leaves_shouldBreak cfg hp htest
    by_cases hr₁ : cfg.motorStatus 0 r₁ = p
    · simp only [hr₁, decide_true, if_pos, Prog.traces_pure] at hrest
      obtain ⟨rfl, -⟩ := hrest
      exact .high printed r₁ hr₁
    · simp only [hr₁, decide_false, Bool.false_eq_true, if_false, Prog.traces_bind] at hrest
      obtain ⟨_, _, _, hlow, ⟨stop, _, evs₃, htest, hrest, rfl⟩, rfl⟩ := hrest
      obtain rfl := Prog.traces_perform.mp hlow
      obtain ⟨r₂, rfl, rfl⟩ := leaves_shouldBreak cfg hp htest
      by_cases hr₂ : cfg.motorStatus 0 r₂ = p
      · simp only [hr₂, decide_true, if_pos, Prog.traces_pure] at hrest
        obtain ⟨rfl, -⟩ := hrest
        exact .low printed r₁ r₂ hr₁ hr₂
      · simp only [hr₂, decide_false, Bool.false_eq_true, if_false] at hrest
        exact .next printed r₁ r₂ hr₁ hr₂ (ih hrest)

/-! ## One message -/

/-- The word for a position in the messages of `doorCom`. -/
def Position.word : Position → String
  | .Open => "Open"
  | .Close => "Closed"
  | .Middle => "Middle"

/-- The `doorstatus` during a movement to `p`. -/
def movingStatus (p : Position) : DoorStatus := if p = .Open then .Unlocking else .Locking

/-- The level of the direction pin during a movement to `p`. -/
def directionLevel (p : Position) : Int :=
  if p = .Open then cfg.motorDirectionToOpen else cfg.motorDirectionToClose

/-- The message after a movement to `p` that ended at `status`. -/
def outcome (p status : Position) : String :=
  if status = p then "Door " ++ Position.word p ++ " sucessfully!"
  else "Some Errors occurs while trying to " ++ p.text ++ " the Door. current status is: "
    ++ status.text

/-- The last entries of an accepted command: the reading, its publication and
the reply. -/
def published (socket : K) (value : Int) : List (Event K) :=
  [.read value, .did (.setDoorstatus (.known (cfg.motorStatus 1 value))),
    .did (.setDoorneedtobe (cfg.motorStatus 1 value)),
    .did (.write socket ("Door " ++ (cfg.motorStatus 1 value).text))]

/-- The entries of a movement to `p`, from the relay's switching on to its
switching off. -/
inductive Moved (p : Position) : List (Event K) → Prop
  | intro {pulses : List (Event K)} (h : Pulses cfg p cfg.motorThreshold pulses) :
    Moved p (.did (.writePin7 1) :: .did (.writeDirectionPin (directionLevel cfg p)) ::
      (pulses ++ [.did (.writePin7 0)]))

/-- The entries of `doorCom` for a command: the first reading reports the
position, or the motor moves and the next reading is reported on. -/
inductive Commanded (p : Position) : List (Event K) → Prop
  | already (first : Int) (hfirst : cfg.motorStatus 1 first = p) :
    Commanded p [.read first, .did (.setDoormsg ("Door Already " ++ Position.word p))]
  | moved (first final : Int) {movement : List (Event K)} (hfirst : cfg.motorStatus 1 first ≠ p)
      (h : Moved cfg p movement) :
    Commanded p (.read first :: .did (.setDoorstatus (movingStatus p)) :: (movement ++
      [.read final, .did (.setDoormsg (outcome p (cfg.motorStatus 1 final)))]))

/-- The entries that the handler of a message leaves. -/
inductive Handling (socket : K) : String → List (Event K) → Prop
  | command {p : Position} {evs : List (Event K)} (value : Int) (hp : p ≠ .Middle)
      (h : Commanded cfg p evs) : Handling socket p.text (evs ++ published cfg socket value)
  | rejected {data : String} (h : ¬ IsCommand data) :
    Handling socket data [.did (.write socket "Error, bad command")]

theorem moved_of_leaves {p : Position} {evs : List (Event K)} (hp : p ≠ .Middle)
    (h : Leaves (stepMotor cfg p.text) evs ()) : Moved cfg p evs := by
  simp only [stepMotor, perform, Prog.traces_bind] at h
  obtain ⟨_, _, _, hon, ⟨_, _, _, hdir, ⟨_, pulses, _, hloop, hoff, rfl⟩, rfl⟩, rfl⟩ := h
  obtain rfl := Prog.traces_perform.mp hon
  obtain rfl := Prog.traces_perform.mp hdir
  obtain rfl := Prog.traces_perform.mp hoff
  have hlevel : (if p.text = "Open" then cfg.motorDirectionToOpen else cfg.motorDirectionToClose)
      = directionLevel cfg p := by
    cases p <;> simp [directionLevel, Position.text]
  rw [hlevel]
  exact .intro (pulses_of_leaves cfg hp hloop)

theorem leaves_printOutcome {p status : Position} {evs : List (Event K)} (hp : p ≠ .Middle)
    (h : Leaves (printOutcome p.text status) evs ()) :
    evs = [.did (.setDoormsg (outcome p status))] := by
  have hmsg : Leaves (K := K) (printDoorStatus (outcome p status)) evs () := by
    cases p
    · cases status <;> simpa [printOutcome, outcome, Position.text, Position.word] using h
    · cases status <;> simpa [printOutcome, outcome, Position.text, Position.word] using h
    · exact absurd rfl hp
  exact Prog.traces_perform.mp hmsg

/-- `doorCom` for a command, without the tests that the command decides. -/
theorem doorCom_text {p : Position} (hp : p ≠ .Middle) :
    doorCom (K := K) cfg p.text = (do
      let status ← motorStatus cfg 1
      if status = p then printDoorStatus ("Door Already " ++ Position.word p)
      else do
        perform (.setDoorstatus (movingStatus p))
        stepMotor cfg p.text
        let status ← motorStatus cfg 1
        printOutcome p.text status) := by
  unfold doorCom
  cases p with
  | Middle => exact absurd rfl hp
  | Open =>
    congr 1
    funext status
    by_cases hs : status = .Open
    · subst hs
      rfl
    · simp only [Position.text, hs, and_false, if_false,
        show "Open" ≠ "Close" by decide, false_and, ne_eq, not_true, movingStatus, if_pos]
      rfl
  | Close =>
    congr 1
    funext status
    by_cases hs : status = .Close
    · subst hs
      rfl
    · simp only [Position.text, hs, and_false, if_false,
        show "Close" ≠ "Open" by decide, false_and, ne_eq, not_true, movingStatus,
        if_pos]
      rfl

theorem commanded_of_leaves {p : Position} {evs : List (Event K)} (hp : p ≠ .Middle)
    (h : Leaves (doorCom cfg p.text) evs ()) : Commanded cfg p evs := by
  simp only [doorCom_text cfg hp, Prog.traces_bind, leaves_motorStatus] at h
  obtain ⟨_, _, evs₂, ⟨first, rfl, rfl⟩, hrest, rfl⟩ := h
  by_cases hfirst : cfg.motorStatus 1 first = p
  · rw [if_pos hfirst] at hrest
    obtain rfl := Prog.traces_perform.mp hrest
    exact .already first hfirst
  · simp only [if_neg hfirst, perform, Prog.traces_bind, leaves_motorStatus] at hrest
    obtain ⟨_, _, _, hmoving, ⟨_, movement, _, hmove, ⟨_, _, evs₃, ⟨final, rfl, rfl⟩, hout, rfl⟩,
      rfl⟩, rfl⟩ := hrest
    obtain rfl := Prog.traces_perform.mp hmoving
    obtain rfl := leaves_printOutcome hp hout
    exact .moved first final hfirst (moved_of_leaves cfg hp hmove)

/-- What the handler of a message leaves, unless the guard has refused it. -/
theorem handling_of_leaves {socket : K} {data : String} {evs : List (Event K)}
    (h : Leaves (onData cfg socket data) evs ()) (hbusy : busy socket ∉ evs) :
    Handling cfg socket data evs := by
  simp only [onData, perform, Prog.traces_bind] at h
  obtain ⟨inOperation, _, evs₂, hget, hrest, rfl⟩ := h
  obtain rfl := Prog.traces_perform.mp hget
  by_cases hop : inOperation = 1
  · rw [if_pos hop] at hrest
    obtain rfl := Prog.traces_perform.mp hrest
    simp [busy, Effect.logged] at hbusy
  rw [if_neg hop] at hrest
  by_cases hdata : IsCommand data
  · simp only [if_pos hdata, Prog.traces_bind, leaves_motorStatus] at hrest
    obtain ⟨_, _, _, hset, ⟨_, evs₃, _, hcom, ⟨_, _, _, ⟨value, rfl, rfl⟩, ⟨_, _, _, hstatus,
      ⟨_, _, _, hneed, ⟨_, _, _, hclear, hreply, rfl⟩, rfl⟩, rfl⟩, rfl⟩, rfl⟩, rfl⟩ := hrest
    obtain rfl := Prog.traces_perform.mp hset
    obtain rfl := Prog.traces_perform.mp hstatus
    obtain rfl := Prog.traces_perform.mp hneed
    obtain rfl := Prog.traces_perform.mp hclear
    obtain rfl := Prog.traces_perform.mp hreply
    obtain ⟨p, hp, rfl⟩ := isCommand_iff.mp hdata
    exact .command value hp (commanded_of_leaves cfg hp hcom)
  · rw [if_neg hdata] at hrest
    obtain rfl := Prog.traces_perform.mp hrest
    exact .rejected hdata

/-! ## The whole log -/

/-- The log of a server that has handled every message it took from a
connection. -/
inductive History : List (Event K) → Prop
  | start (value : Int) :
    History [.read value, .did (.setDoorstatus (.known (cfg.motorStatus 1 value)))]
  | handled {log evs : List (Event K)} {socket : K} {data : String} (hlog : History log)
      (h : Handling cfg socket data evs) : History (log ++ .data socket data :: evs)

theorem startup_history {sensor : Sensor} {reading : Int} :
    Prog.wp (Board.act sensor) (startup cfg) (fun _ b => History (K := K) cfg b.log)
      ⟨reading, 0, []⟩ := by
  simp only [startup, motorStatus, perform, Prog.wp_bind, Prog.wp_perform, Prog.wp_pure]
  exact fun i _ => .start _

theorem onData_history {sensor : Sensor} {b : Board K} {socket : K} {data : String}
    (hb : Unguarded b) (hlog : History cfg b.log) :
    Prog.wp (Board.act sensor) (onData cfg socket data)
      (fun _ b' => Unguarded b' ∧ History cfg b'.log) (b.record (.data socket data)) := by
  have hguard : Prog.wp (Board.act sensor) (onData cfg socket data) (fun _ b' => Unguarded b')
      (b.record (.data socket data)) := onData_unguarded hb
  refine Prog.wp_mono (fun _ b' h => ?_)
    (Prog.wp_and hguard (Prog.wp_traces Board.act_log (onData cfg socket data)))
  obtain ⟨hb', evs, hevs, htr⟩ := h
  refine ⟨hb', ?_⟩
  have hbusy : busy socket ∉ evs := fun hmem =>
    hb'.2 socket (hevs ▸ List.mem_append_right _ hmem)
  rw [hevs, Board.record_log, List.append_assoc]
  exact .handled hlog (handling_of_leaves cfg htr hbusy)

variable [DecidableEq K] {cfg}

/-- The log of every reachable state is the first part of a history, and all of
one when no handler is running. -/
theorem history_of_run {sensor : Sensor} {reading : Int} {as : List (Action K)} {s : Server K}
    (hrun : Transition.run (Server.step cfg sensor) (Server.init cfg reading) as = some s) :
    (∃ rest, History cfg (s.board.log ++ rest)) ∧
      (s.running = none → History cfg s.board.log) := by
  have h := Server.upholds_of_run (I := fun b => Unguarded b ∧ History cfg b.log)
    (Prog.wp_and startup_unguarded (startup_history cfg))
    (fun b socket text hb => onData_history cfg hb.1 hb.2) hrun
  unfold Server.Upholds at h
  split at h
  · next hidle => exact ⟨⟨[], by simpa using h.2⟩, fun _ => h.2⟩
  · next p hp =>
    refine ⟨?_, fun hidle => by simp [hidle] at hp⟩
    -- the world can still finish the handler that is running
    refine Prog.of_wp (I := fun b : Board K => ∃ rest, History cfg (b.log ++ rest))
      (fun i b e hnext => ?_) (Prog.wp_mono (fun _ b hb => ⟨[], by simpa using hb.2⟩) h)
    obtain ⟨rest, hrest⟩ := hnext
    rw [Board.act_log, List.append_assoc] at hrest
    exact ⟨_, hrest⟩

end SmartDoor.Motor
