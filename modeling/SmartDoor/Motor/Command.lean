-- SUMMARY: The motor server's handler as a program of effects: StepMotor, doorCom, and the reply to a data event.
import SmartDoor.Base.Program
import SmartDoor.Config

/-!
# The motor server's programs

`scripts/doorCommand.js` as trees of effects on the pins, the potentiometer,
the door's database node, the flag `inOperation` and the sockets. The pauses
between effects (`usleep`) and the console are left out. `K` is the type of the
connections to port 6001.
-/

namespace SmartDoor.Motor

/-- A value written to the database child `doorstatus`. -/
inductive DoorStatus where
  | known (p : Position)
  | Unlocking
  | Locking
  deriving DecidableEq, Repr

/-- One effect of the motor server. -/
inductive Effect (K : Type) where
  | readPotentiometer
  | writePin7 (level : Int)
  | writeDirectionPin (level : Int)
  | writeStepPin (level : Int)
  | setDoorstatus (status : DoorStatus)
  | setDoorneedtobe (position : Position)
  | setDoormsg (msg : String)
  | getInOperation
  | setInOperation (value : Nat)
  | write (socket : K) (reply : String)
  deriving DecidableEq, Repr

/-- What the world answers to an effect. -/
@[reducible] def Effect.Answer {K : Type} : Effect K → Type
  | .readPotentiometer => Int
  | .getInOperation => Nat
  | _ => Unit

/-- A program of the motor server. -/
abbrev Program (K : Type) := Prog (Effect K) Effect.Answer

variable {K : Type} (cfg : DoorConfig)

/-- The program that performs one effect of the motor server. -/
def perform (e : Effect K) : Program K e.Answer := Prog.perform e

/-- `MotorStatus(precision)`: every call reads the sensor anew. -/
def motorStatus (precision : Int) : Program K Position := do
  let reading ← perform .readPotentiometer
  return cfg.motorStatus precision reading

/-- `PrintDoorStatus(MSG)`. -/
def printDoorStatus (msg : String) : Program K Unit :=
  perform (.setDoormsg msg)

/-! ## StepMotor -/

/-- The exit test `Direction == p && MotorStatus(0) == p`. The sensor is read
only if the first half holds. -/
def reached (direction : String) (p : Position) : Program K Bool :=
  if direction = p.text then do
    let status ← motorStatus cfg 0
    return decide (status = p)
  else
    return false

/-- The two exit tests made after each half step. -/
def shouldBreak (direction : String) : Program K Bool := do
  let opened ← reached cfg direction .Open
  if opened then
    return true
  else
    reached cfg direction .Close

/-- The `for` loop of `StepMotor` with the given number of iterations left. -/
def stepLoop (direction : String) : Nat → Program K Unit
  | 0 => return ()
  | n + 1 => do
    perform (.writeStepPin 1)
    -- the sample that is only printed
    let _ ← motorStatus cfg 0
    let stop ← shouldBreak cfg direction
    if stop then
      -- this exit leaves the pin high
      return ()
    else do
      perform (.writeStepPin 0)
      let stop ← shouldBreak cfg direction
      if stop then
        return ()
      else
        stepLoop direction n

/-- `StepMotor(Direction)`. -/
def stepMotor (direction : String) : Program K Unit := do
  perform (.writePin7 1)
  perform (.writeDirectionPin
    (if direction = "Open" then cfg.motorDirectionToOpen else cfg.motorDirectionToClose))
  stepLoop cfg direction cfg.motorThreshold
  perform (.writePin7 0)

/-! ## doorCom and the data handler -/

/-- The last part of `doorCom`: what is printed once the motor has stopped. -/
def printOutcome (command : String) (motorStatus : Position) : Program K Unit :=
  if command = "Open" ∧ motorStatus = .Open then
    printDoorStatus "Door Open sucessfully!"
  else if command = "Close" ∧ motorStatus = .Close then
    printDoorStatus "Door Closed sucessfully!"
  else
    printDoorStatus ("Some Errors occurs while trying to " ++ command
      ++ " the Door. current status is: " ++ motorStatus.text)

/-- `doorCom(command)`. -/
def doorCom (command : String) : Program K Unit := do
  let status ← motorStatus cfg 1
  if command = "Open" ∧ status = .Open then
    printDoorStatus "Door Already Open"
  else if command = "Close" ∧ status = .Close then
    printDoorStatus "Door Already Closed"
  else if command ≠ "Open" ∧ command ≠ "Close" then
    printDoorStatus "Received bad command."
  else do
    (if command = "Open" then perform (.setDoorstatus .Unlocking) else return ())
    (if command = "Close" then perform (.setDoorstatus .Locking) else return ())
    stepMotor cfg command
    let status ← motorStatus cfg 1
    printOutcome command status

/-- The data that the handler accepts as a request to move the lock. -/
def IsCommand (data : String) : Prop := data = "Open" ∨ data = "Close"

instance {data : String} : Decidable (IsCommand data) := inferInstanceAs (Decidable (_ ∨ _))

/-- `socket.on('data', ...)`. -/
def onData (socket : K) (data : String) : Program K Unit := do
  let inOperation ← perform .getInOperation
  if inOperation = 1 then
    perform (.write socket "Error, already working")
  else if IsCommand data then do
    perform (.setInOperation 1)
    doorCom cfg data
    let status ← motorStatus cfg 1
    perform (.setDoorstatus (.known status))
    perform (.setDoorneedtobe status)
    perform (.setInOperation 0)
    perform (.write socket ("Door " ++ status.text))
  else
    perform (.write socket "Error, bad command")

/-- What the script does before it listens. -/
def startup : Program K Unit := do
  let status ← motorStatus cfg 1
  perform (.setDoorstatus (.known status))

end SmartDoor.Motor
