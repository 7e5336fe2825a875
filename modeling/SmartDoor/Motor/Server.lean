-- SUMMARY: The motor server as a transition system: connections, the single-threaded event loop, and the board it drives.
import Mathlib.Logic.Function.Basic
import SmartDoor.Base.Transition
import SmartDoor.Motor.Command

/-!
# The motor server under the event loop

A handler runs to completion: while one is running, arriving bytes stay in the
connections' buffers, and no other handler starts. `Board` is everything the
handlers' effects reach. Its log keeps the effects in order; the value of a
database child or the level of a pin is the last one written there.
-/

namespace SmartDoor.Motor

variable {K : Type}

/-! ## The board -/

/-- One entry of the board's log. -/
inductive Event (K : Type) where
  | data (socket : K) (text : String)
  | read (value : Int)
  | did (e : Effect K)
  deriving DecidableEq, Repr

namespace Event

def doorstatus? : Event K → Option DoorStatus
  | .did (.setDoorstatus status) => some status
  | _ => none

def doorneedtobe? : Event K → Option Position
  | .did (.setDoorneedtobe p) => some p
  | _ => none

def doormsg? : Event K → Option String
  | .did (.setDoormsg msg) => some msg
  | _ => none

/-- A write to one of the three output pins, with the level written. -/
def pin? : Event K → Option (Nat × Int)
  | .did (.writePin7 l) => some (7, l)
  | .did (.writeDirectionPin l) => some (11, l)
  | .did (.writeStepPin l) => some (12, l)
  | _ => none

def reply? : Event K → Option (K × String)
  | .did (.write socket msg) => some (socket, msg)
  | _ => none

def data? : Event K → Option (K × String)
  | .data socket text => some (socket, text)
  | _ => none

end Event

/-- How the potentiometer moves. From the environment's choice and the present
reading, `read` is what the next read returns, and `pulse` is the reading after
a write to the step pin. -/
structure Sensor where
  read : Int → Int → Int
  pulse : Int → Int → Int

/-- Every read may return another value. -/
def Sensor.free : Sensor where
  read choice _ := choice
  pulse _ present := present

/-- The reading changes only with the pulses of the motor, by any amount. -/
def Sensor.driven : Sensor where
  read _ present := present
  pulse choice _ := choice

/-- What the handlers' effects reach. -/
structure Board (K : Type) where
  potentiometer : Int
  inOperation : Nat
  log : List (Event K)

namespace Board

def record (b : Board K) (e : Event K) : Board K := { b with log := b.log ++ [e] }

@[simp] theorem record_potentiometer {b : Board K} {e : Event K} :
    (b.record e).potentiometer = b.potentiometer := rfl

@[simp] theorem record_inOperation {b : Board K} {e : Event K} :
    (b.record e).inOperation = b.inOperation := rfl

@[simp] theorem record_log {b : Board K} {e : Event K} : (b.record e).log = b.log ++ [e] := rfl

/-- The last `doorstatus` written. -/
def doorstatus (b : Board K) : Option DoorStatus := (b.log.filterMap Event.doorstatus?).getLast?

/-- The relay that powers the motor is on. -/
def powered (b : Board K) : Bool :=
  (b.log.filterMap fun e => e.pin?.bind fun (pin, level) =>
    if pin = 7 then some (decide (level = 1)) else none).getLast?.getD false

/-- The world's answer to an effect, and the board after it. -/
def act (sensor : Sensor) (choice : Int) (b : Board K) : (e : Effect K) → e.Answer × Board K
  | .readPotentiometer =>
    let value := sensor.read choice b.potentiometer
    (value, { b with potentiometer := value, log := b.log ++ [.read value] })
  | .getInOperation => (b.inOperation, b)
  | .setInOperation value => ((), { b with inOperation := value })
  | .writeStepPin level =>
    ((), { b with
      potentiometer := sensor.pulse choice b.potentiometer
      log := b.log ++ [.did (.writeStepPin level)] })
  | .writePin7 level => ((), b.record (.did (.writePin7 level)))
  | .writeDirectionPin level => ((), b.record (.did (.writeDirectionPin level)))
  | .setDoorstatus status => ((), b.record (.did (.setDoorstatus status)))
  | .setDoorneedtobe p => ((), b.record (.did (.setDoorneedtobe p)))
  | .setDoormsg msg => ((), b.record (.did (.setDoormsg msg)))
  | .write socket msg => ((), b.record (.did (.write socket msg)))

end Board

/-! ## The server -/

/-- One arrival of bytes: where and what, how much the board had logged by
then, and whether the motor was powered. -/
structure Arrival (K : Type) where
  socket : K
  text : String
  logged : Nat
  powered : Bool
  deriving DecidableEq, Repr

/-- The server: unread bytes of each connection, the rest of the handler that
is running, and the board. `arrivals` is a record that no step reads. -/
structure Server (K : Type) where
  inbox : K → List String
  running : Option (Program K Unit)
  board : Board K
  arrivals : List (Arrival K)

/-- A move of the server or its environment. -/
inductive Action (K : Type) where
  /-- Bytes reach a connection. -/
  | arrive (socket : K) (text : String)
  /-- The event loop reads the first `n` pieces waiting on a connection and
  starts the handler on them. -/
  | data (socket : K) (n : Nat)
  /-- The running handler performs its next effect, or ends. -/
  | exec (choice : Int)

variable [DecidableEq K] (cfg : DoorConfig) (sensor : Sensor)

def Server.step (s : Server K) : Action K → Option (Server K)
  | .arrive socket text => some { s with
      inbox := Function.update s.inbox socket (s.inbox socket ++ [text])
      arrivals := s.arrivals ++ [⟨socket, text, s.board.log.length, s.board.powered⟩] }
  | .data socket n =>
    if s.running.isNone ∧ 0 < n ∧ n ≤ (s.inbox socket).length then
      let text := String.join ((s.inbox socket).take n)
      some { s with
        inbox := Function.update s.inbox socket ((s.inbox socket).drop n)
        running := some (onData cfg socket text)
        board := s.board.record (.data socket text) }
    else none
  | .exec choice =>
    match s.running with
    | none => none
    | some p =>
      match p.step (Board.act sensor) choice s.board with
      | some (p', board') => some { s with running := some p', board := board' }
      | none => some { s with running := none }

/-- The server as the script starts, with the potentiometer at `reading`. -/
def Server.init (reading : Int) : Server K where
  inbox := fun _ => []
  running := some (startup cfg)
  board := ⟨reading, 0, []⟩
  arrivals := []

end SmartDoor.Motor
