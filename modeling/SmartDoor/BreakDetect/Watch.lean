-- SUMMARY: BreakDetect's callbacks on `doorneedtobe`, and the system made of BreakDetect and the motor server.
import SmartDoor.Motor.Laws
import SmartDoor.Notification

/-!
# BreakDetect and the motor server

`scripts/BreakDetect.js` compares the lock's position with the last
`doorneedtobe` it has received. Every tick registers one more listener, which
is called at once if a value is known, and again at every change. The two
processes share the potentiometer and the database: a `doorneedtobe` written by
the motor server is received some time after the write, and intermediate values
may be skipped.
-/

namespace SmartDoor.BreakDetect

open Motor

/-- The state of the BreakDetect process. `pending` callbacks of the current
event have not run yet; `received` values of `doorneedtobe` have been passed. -/
structure Watch where
  listeners : Nat
  received : Nat
  value : Option Position
  pending : Nat
  alretCount : Nat
  /-- The writes of the child `notification`. -/
  notifications : List Notification
  /-- The calls of `sendnot.send`: title and message. -/
  sent : List (String × String)
  deriving DecidableEq, Repr

/-- The process before its first tick. -/
def Watch.init : Watch := ⟨0, 0, none, 0, 0, [], []⟩

/-- The alert branch of the callback: the record is written, sent, and written
again with `popup` off. The two busy waits are left out. -/
def Watch.alert (now : Int) (w : Watch) : Watch :=
  let notification := Notification.thiefAlert now
  { w with
    notifications := w.notifications ++ [notification, { notification with popup := "false" }]
    sent := w.sent ++ [("Thief Alert", "someone is opening your lock manually!")] }

/-- The callback on `doorneedtobe`, for the value `snap` and the sensor at `reading`. -/
def onDoorneedtobe (cfg : DoorConfig) (reading now : Int) (snap : Position) (w : Watch) : Watch :=
  if cfg.motorStatus 1 reading ≠ snap then
    if snap = .Close then
      let w := { w with alretCount := w.alretCount + 1 }
      if w.alretCount ≥ 2 then w.alert now else w
    else w
  else { w with alretCount := 0 }

/-! ## The system -/

structure System (K : Type) where
  server : Server K
  watch : Watch

/-- The values of `doorneedtobe` in the order of the writes, the initial
"Close" first. -/
def history {K : Type} (b : Board K) : List Position :=
  .Close :: b.log.filterMap Event.doorneedtobe?

/-- A move of one of the two processes, or of the network between them. -/
inductive Action (K : Type) where
  | motor (a : Motor.Action K)
  /-- The interval fires: one more listener. -/
  | tick
  /-- BreakDetect receives the `n`th value after the last one received. -/
  | deliver (n : Nat)
  /-- The next pending callback runs, at the time `now`. -/
  | callback (now : Int)

variable {K : Type} [DecidableEq K] (cfg : DoorConfig)

def System.step (s : System K) : Action K → Option (System K)
  | .motor a => (s.server.step cfg .driven a).map fun server => { s with server }
  | .tick =>
    if s.watch.pending = 0 then
      some { s with watch := { s.watch with
        listeners := s.watch.listeners + 1
        pending := if s.watch.value.isSome then 1 else 0 } }
    else none
  | .deliver n =>
    match (history s.server.board)[s.watch.received + n - 1]? with
    | none => none
    | some v =>
      if s.watch.pending = 0 ∧ 0 < s.watch.listeners ∧ 0 < n then
        some { s with watch := { s.watch with
          received := s.watch.received + n
          value := some v
          -- a value event needs a change
          pending := if s.watch.value = some v then 0 else s.watch.listeners } }
      else none
  | .callback now =>
    match s.watch.value with
    | none => none
    | some v =>
      if 0 < s.watch.pending then
        let watch := { s.watch with pending := s.watch.pending - 1 }
        some { s with
          watch := onDoorneedtobe cfg s.server.board.potentiometer now v watch }
      else none

/-- Both processes start, with the potentiometer at `reading`. -/
def System.init (reading : Int) : System K where
  server := Server.init cfg reading
  watch := Watch.init

/-- No handler of the motor server is running, and BreakDetect has received the
last `doorneedtobe` written. -/
def System.Settled (s : System K) : Prop :=
  s.server.running = none ∧ s.watch.received = (history s.server.board).length

end SmartDoor.BreakDetect
