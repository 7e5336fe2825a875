-- SUMMARY: The calls of applyService: one socket each, with its own connection attempts and retries.
import SmartDoor.Base.Lists
import SmartDoor.Base.Transition
import SmartDoor.Online.Command

/-!
# The calls of `applyService`

Every call owns a socket. When the socket of an emergency call fails, a timeout
of four seconds is armed that connects again; every `connect` registers one more
callback that writes the mode, and a failed attempt removes none. Which attempts
succeed, when they complete and which connections break is up to the environment.
-/

namespace SmartDoor.Online

/-- Where a call stands. -/
inductive Phase where
  /-- An attempt is in progress. -/
  | connecting
  /-- The mode has been written, and nothing has been received yet. -/
  | connected
  /-- The socket has failed, the timeout will connect again. -/
  | waiting
  /-- The socket does nothing any more. -/
  | closed
  deriving DecidableEq, Repr

/-- A call, with its socket. `issued` is the place of its command among those
dispatched; `listeners` callbacks write the mode when the socket connects.
`errors`, which no code sees, counts how often the socket has failed. -/
structure Call where
  issued : Nat
  service : Service
  mode : String
  emergency : Bool
  listeners : Nat
  errors : Nat
  phase : Phase
  deriving DecidableEq, Repr

/-- The sockets of `online.js`, the commands dispatched, and the calls whose mode
has been written to their service, in order. -/
structure Sockets where
  emergencycount : Int
  dispatched : List Command
  calls : List Call
  written : List Nat
  deriving DecidableEq, Repr

/-- The arguments of an effect that calls `applyService`. -/
def Effect.call? : Effect → Option (Service × String × Bool)
  | .applyService service mode emergency => some (service, mode, emergency)
  | _ => none

/-- The calls that the branch of a command makes; they do not depend on the snapshot. -/
def applied (cfg : DoorConfig) (command : Command) : List (Service × String × Bool) :=
  (branch cfg ⟨none, none⟩ command).filterMap Effect.call?

namespace Sockets

def init : Sockets where
  emergencycount := 0
  dispatched := []
  calls := []
  written := []

/-- `applyService(service, mode, emergency)`, for the command dispatched last. -/
def applyService (cfg : DoorConfig) (service : Service) (mode : String) (emergency : Bool)
    (s : Sockets) : Sockets :=
  let s := { s with emergencycount := 0 }
  if cfg.debug then s
  else { s with
    calls := s.calls ++ [{
      issued := s.dispatched.length - 1, service := service, mode := mode
      emergency := emergency, listeners := 1, errors := 0, phase := .connecting }] }

/-- The branch of the command, as far as it calls `applyService`. -/
def dispatch (cfg : DoorConfig) (command : Command) (s : Sockets) : Sockets :=
  (applied cfg command).foldl (fun s call => s.applyService cfg call.1 call.2.1 call.2.2)
    { s with dispatched := s.dispatched ++ [command] }

/-- The attempt of the `i`th call succeeds: every callback writes the mode, once. -/
def connected (i : Nat) (call : Call) (s : Sockets) : Sockets :=
  { s with
    calls := s.calls.set i { call with listeners := 0, phase := .connected }
    written := s.written ++ List.replicate call.listeners i }

/-- `client.on('data', ...)` of the `i`th call: the socket is destroyed. -/
def onData (i : Nat) (call : Call) (s : Sockets) : Sockets :=
  { s with calls := s.calls.set i { call with phase := .closed } }

/-- `client.on('error', ...)` of the `i`th call. -/
def onError (i : Nat) (call : Call) (s : Sockets) : Sockets :=
  let phase := if call.emergency ∧ s.emergencycount < 3 then .waiting else .closed
  { s with calls := s.calls.set i { call with errors := call.errors + 1, phase := phase } }

/-- The timeout of the `i`th call connects again. -/
def onTimeout (i : Nat) (call : Call) (s : Sockets) : Sockets :=
  { s with
    calls := s.calls.set i { call with listeners := call.listeners + 1, phase := .connecting } }

end Sockets

inductive ServiceAction where
  | dispatch (command : Command)
  /-- The attempt of the `i`th call succeeds, or is refused. -/
  | connected (i : Nat)
  | refused (i : Nat)
  /-- The connection of the `i`th call brings an answer or is closed, or it breaks. -/
  | data (i : Nat)
  | broken (i : Nat)
  /-- The timeout of the `i`th call fires. -/
  | timeout (i : Nat)
  deriving DecidableEq, Repr

/-- The move on the `i`th call, which must be in the given phase. -/
def Sockets.onCall (s : Sockets) (i : Nat) (phase : Phase) (f : Call → Sockets) :
    Option Sockets :=
  match s.calls[i]? with
  | some call => if call.phase = phase then some (f call) else none
  | none => none

def Sockets.step (cfg : DoorConfig) (s : Sockets) : ServiceAction → Option Sockets
  | .dispatch command => some (s.dispatch cfg command)
  | .connected i => s.onCall i .connecting (s.connected i)
  | .refused i => s.onCall i .connecting (s.onError i)
  | .data i => s.onCall i .connected (s.onData i)
  | .broken i => s.onCall i .connected (s.onError i)
  | .timeout i => s.onCall i .waiting (s.onTimeout i)

/-! ## What the moves do -/

/-- The calls of a branch are the same for every snapshot. -/
theorem applied_eq (cfg : DoorConfig) (snapshot : Snapshot) (command : Command) :
    (branch cfg snapshot command).filterMap Effect.call? = applied cfg command := by
  cases command <;> simp only [applied, branch, List.filterMap_append] <;> rfl

/-- Only Emergency and AlarmOff make emergency calls. -/
theorem emergency_of_applied {cfg : DoorConfig} {command : Command} {service : Service}
    {mode : String} (h : (service, mode, true) ∈ applied cfg command) :
    command = .Emergency ∨ command = .AlarmOff := by
  cases command <;> simp [applied, branch, Effect.call?] at h ⊢

theorem onCall_eq_some {s s' : Sockets} {i : Nat} {phase : Phase} {f : Call → Sockets} :
    s.onCall i phase f = some s' ↔
      ∃ call, s.calls[i]? = some call ∧ call.phase = phase ∧ f call = s' := by
  unfold Sockets.onCall
  split
  · next call hcall => simp [hcall]
  · next hcall => simp [hcall]

end SmartDoor.Online
