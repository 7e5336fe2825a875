-- SUMMARY: The door node: web clients, other processes, the server, and online.js with its nested handler runs, as one step function.
import SmartDoor.Base.Registers
import SmartDoor.Base.Transition
import SmartDoor.Online.Command

/-!
# The door node

The parties write to the children of the door node; the server orders the writes
and tells `online.js` of the arrivals. `online.js` handles one message or timer at
a time, but its own writes call the value handler again before they return, so the
runs in progress form a stack. A value event that brings nothing new is also a
step here; the handler then finds `todo` as it left it.
-/

namespace SmartDoor.Online

open Registers

/-- Who writes: an open web page, another process, or `online.js`. -/
inductive Author (C : Type) where
  | client (c : C)
  | service (name : String)
  | online
  deriving DecidableEq, Repr

/-- What has happened so far. `stamp` is the stamp of the write of `todo` that the
run was called on; no code can see it. -/
inductive Event (C : Type) where
  /-- A client calls `writecom`. -/
  | wrote (c : C) (command : String)
  /-- `online.js` is handed the node after the first `n` arrivals. -/
  | handed (n : Nat)
  | dispatched (command : Command) (stamp : Nat)
  | logged (name todo : Option String) (stamp : Nat)
  | applied (service : Service) (mode : String) (emergency : Bool)
  | notified (title msg : String)
  deriving DecidableEq, Repr

/-- A run of the handler, or of a timer, with what it has still to do. -/
structure Frame where
  stamp : Nat
  rest : List Effect
  deriving DecidableEq, Repr

structure State (C : Type) where
  store : Store (Author C) Path Value
  /-- The arrivals that `online.js` will be told of, by their number. -/
  down : List Nat
  /-- The arrivals it has been told of; `none` before the first value event. -/
  seen : Option Nat
  stack : List Frame
  trace : List (Event C)
  deriving DecidableEq, Repr

/-- A move of one party or of the network. -/
inductive Action (C : Type) where
  | writecom (c : C) (command : String)
  /-- Another process writes a child other than the two of a command. -/
  | service (name : String) (path : Path) (value : Value)
  /-- The `i`th write on its way reaches the server. -/
  | land (i : Nat)
  /-- `online.js` is not told of the `i`th arrival separately from a later one. -/
  | skip (i : Nat)
  /-- The next value event for `online.js`. -/
  | deliver
  /-- The innermost run goes on, at the time `now`. -/
  | exec (now : Int)
  /-- The interval of `online.js`. -/
  | beat (now : Int)
  /-- The output of `getlanip.sh`. -/
  | lanip (data : String)
  deriving DecidableEq, Repr

variable {C : Type} [DecidableEq C]

namespace State

/-- Nothing has been written; `online.js` waits for its first value event. -/
def init : State C where
  store := { hist := [], flight := [] }
  down := [0]
  seen := none
  stack := []
  trace := []

/-- The write that `online.js` reads at `path` after `n` arrivals. -/
def read (s : State C) (n : Nat) (path : Path) : Option (Write (Author C) Path Value) :=
  s.store.read .online n path

/-- The two children that the handler reads. -/
def snapshot (s : State C) (n : Nat) : Snapshot where
  todo := (s.read n .todo).bind (·.value.text?)
  todoName := (s.read n .todoName).bind (·.value.text?)

/-- A run of the handler on the present snapshot. -/
def run (cfg : DoorConfig) (s : State C) (n : Nat) : Frame where
  stamp := ((s.read n .todo).map (·.stamp)).getD 0
  rest := handler cfg (s.snapshot n)

/-- A write of `online.js`, and the value event that it causes at once. -/
def set (cfg : DoorConfig) (path : Path) (value : Value) (s : State C) : State C :=
  let s := { s with store := s.store.issue ⟨.online, path, value, s.trace.length⟩ }
  match s.seen with
  | none => s
  | some n => { s with stack := s.run cfg n :: s.stack }

def record (event : Event C) (s : State C) : State C := { s with trace := s.trace ++ [event] }

/-- The effect `e` of a run that was called on the write with the given stamp. -/
def perform (cfg : DoorConfig) (now : Int) (stamp : Nat) (s : State C) : Effect → State C
  | .set path value => s.set cfg path value
  | .storeLog name todo =>
    (s.record (.logged name todo stamp)).set cfg (.log s.trace.length) (.log name todo now)
  | .dispatch command => s.record (.dispatched command stamp)
  | .applyService service mode emergency => s.record (.applied service mode emergency)
  | .sendnotification title msg => s.record (.notified title msg)

/-- The two writes of `writecom`, in their order. -/
def writecom (nameOf : C → String) (c : C) (command : String) (s : State C) : State C :=
  { s with
    store := (s.store.issue ⟨.client c, .todo, .text command, s.trace.length⟩).issue
      ⟨.client c, .todoName, .text (nameOf c), s.trace.length⟩
    trace := s.trace ++ [.wrote c command] }

def step (cfg : DoorConfig) (nameOf : C → String) (s : State C) : Action C → Option (State C)
  | .writecom c command => some (s.writecom nameOf c command)
  | .service name path value =>
    if path = .todo ∨ path = .todoName then none
    else some
      { s with store := s.store.issue ⟨.service name, path, value, s.trace.length⟩ }
  | .land i =>
    match s.store.land i with
    | none => none
    | some store => some { s with store := store, down := s.down ++ [store.hist.length] }
  | .skip i =>
    if i + 1 < s.down.length then some { s with down := s.down.eraseIdx i } else none
  | .deliver =>
    match s.stack, s.down with
    | [], n :: down => some
        { s with
          down := down, seen := some n, stack := [s.run cfg n]
          trace := s.trace ++ [.handed n] }
    | _, _ => none
  | .exec now =>
    match s.stack with
    | [] => none
    | ⟨_, []⟩ :: stack => some { s with stack := stack }
    | ⟨stamp, e :: rest⟩ :: stack => some
        (perform cfg now stamp { s with stack := ⟨stamp, rest⟩ :: stack } e)
  | .beat now =>
    if s.stack = [] then
      some { s with stack := [⟨0, [.set .ip (.text ""), .set .time (.number now)]⟩] }
    else none
  | .lanip data =>
    if s.stack = [] then some { s with stack := [⟨0, [.set .lanip (.text data)]⟩] } else none

end State

end SmartDoor.Online
