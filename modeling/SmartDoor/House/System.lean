-- SUMMARY: The processes of the house as one system: online.js, the knock and speech services, their connections, and the motor and alarm servers.
import SmartDoor.Bluetooth.KeepAlive
import SmartDoor.Motor.Server
import SmartDoor.Online.Process
import SmartDoor.Sensors.Knock

/-!
# The house

The processes talk over connections on 127.0.0.1. What a client writes reaches
its server as a stream of bytes: the network cuts it anywhere, and a server reads
what has arrived in one event or in several. A connection may stay without an
answer and may never deliver its bytes, so a broken one needs no move of its own.

`Speechrecognition.js` has no state but its requests: each `Record` is followed
by one result of `speech.recognize`, and the text "OPEN SESAME" opens the door.
Its own notification is one of the writes of other processes to the door node.
-/

namespace SmartDoor.House

open Online (Service)

/-- Who made a connection: the `i`th call of `applyService`, or the client made for
the `j`th result of the speech recognition. -/
inductive Opener where
  | call (i : Nat)
  | voice (j : Nat)
  deriving DecidableEq, Repr

/-- A connection with what its client has written on it. -/
structure Connection where
  opener : Opener
  service : Service
  sent : List Char
  deriving DecidableEq, Repr

/-- Connections go by their number; `arrived` is how many bytes of each have reached
its server. `recordings` and `heard` are the requests that the speech service has
taken, and the results it has been given; `none` is an error. -/
structure State (C : Type) where
  online : Online.Process C
  knock : Knockdetect.Process
  recordings : Nat
  heard : List (Option String)
  connections : List Connection
  arrived : Nat → Nat
  motor : Motor.Server Nat
  alarm : Bluetooth.KeepAlive Nat

inductive Action (C : Type) where
  | online (a : Online.ProcessAction C)
  | knock (s : Knockdetect.Sample)
  /-- The speech service takes the next `Record`. -/
  | record
  /-- The callback of `speech.recognize`. -/
  | recognized (result : Option String)
  /-- The next `n` bytes of the `k`th connection arrive. -/
  | bytes (k n : Nat)
  | motor (a : Motor.Action Nat)
  /-- Bytes of the serial port, and the interval of the alarm server. -/
  | serial (data : List Char)
  | interval

/-- What the system depends on: the configuration, the names of the web clients, the
potentiometer, and the upper case of texts. -/
structure Setting (C : Type) where
  cfg : DoorConfig
  nameOf : C → String
  sensor : Motor.Sensor
  toUpperCase : String → String

variable {C : Type}

/-- The connection that a move of a socket makes: the mode is written on it once for
each callback. -/
def opened (s : Online.Sockets) : Online.ProcessAction C → List Connection
  | .socket (.connected i) =>
    match s.calls[i]? with
    | some call =>
      [⟨.call i, call.service, (List.replicate call.listeners call.mode.toList).flatten⟩]
    | none => []
  | _ => []

/-- The client that speech recognition makes for the `j`th result. -/
def answered (toUpperCase : String → String) (j : Nat) (result : Option String) :
    List Connection :=
  if result.map toUpperCase = some "OPEN SESAME" then [⟨.voice j, .Motor, "Open".toList⟩]
  else []

namespace State

def init (cfg : DoorConfig) (reading : Int) : State C where
  online := .init
  knock := .init
  recordings := 0
  heard := []
  connections := []
  arrived := fun _ => 0
  motor := .init cfg reading
  alarm := .init

/-- Bytes arrive at the server of their connection; the alarm server handles them at
once, the motor server when its handler is free. -/
def receive (S : Setting C) (h : State C) (k : Nat) (service : Service) (text : String) :
    Option (State C) :=
  match service with
  | .Motor => (h.motor.step S.cfg S.sensor (.arrive k text)).map fun motor =>
    { h with motor := motor }
  | .Alarm => some { h with alarm := h.alarm.onRequest k text }

variable [DecidableEq C]

def step (S : Setting C) (h : State C) : Action C → Option (State C)
  | .online a => (h.online.step S.cfg S.nameOf a).map fun online =>
    { h with
      online := online
      connections := h.connections ++ opened h.online.sockets a }
  | .knock s => some { h with knock := h.knock.tick s }
  | .record =>
    if h.recordings < h.knock.sent.length then some { h with recordings := h.recordings + 1 }
    else none
  | .recognized result =>
    if h.heard.length < h.recordings then
      some { h with
        heard := h.heard ++ [result]
        connections := h.connections ++ answered S.toUpperCase h.heard.length result }
    else none
  | .bytes k n =>
    match h.connections[k]? with
    | some c =>
      if 0 < n ∧ h.arrived k + n ≤ c.sent.length then
        receive S { h with arrived := Function.update h.arrived k (h.arrived k + n) }
          k c.service (String.ofList ((c.sent.drop (h.arrived k)).take n))
      else none
    | none => none
  | .motor (.arrive _ _) => none
  | .motor a => (h.motor.step S.cfg S.sensor a).map fun motor => { h with motor := motor }
  | .serial data => some { h with alarm := h.alarm.onData data }
  | .interval => some { h with alarm := h.alarm.tick }

end State

/-! ## What is behind a message -/

/-- The two things that make the house move the lock: a `writecom`, the `i`th event of
the door node, or the `j`th result of the speech recognition. -/
inductive Cause where
  | command (i : Nat)
  | voice (j : Nat)
  deriving DecidableEq, Repr

/-- A web client wrote the command at the `i`th event of the door node. -/
def Wrote (h : State C) (i : Nat) (command : Online.Command) : Prop :=
  ∃ c, h.online.node.trace[i]? = some (.wrote c command.text)

/-- The commands that stand for a move of the lock to `p`. -/
def asks (p : Position) (command : Online.Command) : Prop :=
  p = .Close ∧ command = .Lock ∨ p = .Open ∧ (command = .Unlock ∨ command = .Emergency)

/-- What may move the lock to `p`: a command that asks for it, or, to open it, the
words "OPEN SESAME" in a recording made after a report of three knocks. -/
def Causes (toUpperCase : String → String) (h : State C) (p : Position) : Cause → Prop
  | .command i => ∃ command, asks p command ∧ Wrote h i command
  | .voice j => p = .Open ∧ j < h.knock.sent.length ∧
    ∃ words, h.heard[j]? = some (some words) ∧ toUpperCase words = "OPEN SESAME"

/-- The motor server has taken the request for `p` at the `i`th entry of its log. -/
def TakenAt (h : State C) (i : Nat) (p : Position) : Prop :=
  ∃ k, h.motor.board.log[i]? = some (.data k p.text)

/-- What has made a client connect. -/
def Opener.cause (h : State C) : Opener → Cause
  | .call i => .command (h.online.origin i)
  | .voice j => .voice j

/-- What is behind the message at the `i`th entry of the motor server's log. -/
def cause (h : State C) (i : Nat) : Cause :=
  ((h.motor.board.log[i]?.bind Motor.Event.data?).bind fun d => h.connections[d.1]?).elim
    (.command 0) fun c => c.opener.cause h

end SmartDoor.House
