-- SUMMARY: The commands of the door node, and what one run of the value handler of online.js does on a snapshot.
import SmartDoor.Config
import SmartDoor.Notification

/-!
# The value handler of `online.js`

The handler reads the two children `todo` and `todo-name` of its snapshot and
nothing else, so one run is the list of its effects in order. Writes to the
console are left out. A child that is not there reads `none`.
-/

namespace SmartDoor.Online

/-- The values of `todo` that have a branch, in the order of the branches. -/
inductive Command where
  | Lock
  | Unlock
  | AlarmOff
  | Emergency
  deriving DecidableEq, Repr

namespace Command

def text : Command → String
  | .Lock => "Lock"
  | .Unlock => "Unlock"
  | .AlarmOff => "AlarmOff"
  | .Emergency => "Emergency"

def branches : List Command := [.Lock, .Unlock, .AlarmOff, .Emergency]

theorem text_injective {c c' : Command} (h : c.text = c'.text) : c = c' := by
  cases c <;> cases c' <;> first | rfl | (revert h; decide)

theorem text_ne_null (c : Command) : c.text ≠ "null" := by cases c <;> decide

end Command

/-- The services of `applyService`, on the ports 6001 and 6007. -/
inductive Service where
  | Motor
  | Alarm
  deriving DecidableEq, Repr

/-- The children of the door node that `online.js` writes, and all others. -/
inductive Path where
  | todo
  | todoName
  /-- `push` gives every entry a key of its own. -/
  | log (key : Nat)
  | Emergency
  | notification
  | ip
  | time
  | lanip
  | other (child : String)
  deriving DecidableEq, Repr

inductive Value where
  | text (s : String)
  | number (n : Int)
  | log (name todo : Option String) (time : Int)
  | notification (n : Notification)
  deriving DecidableEq, Repr

def Value.text? : Value → Option String
  | .text s => some s
  | _ => none

/-- What the handler reads of its snapshot. -/
structure Snapshot where
  todo : Option String
  todoName : Option String
  deriving DecidableEq, Repr

/-- What `online.js` does on behalf of a snapshot or a timer. -/
inductive Effect where
  | set (path : Path) (value : Value)
  | storeLog (name todo : Option String)
  /-- The branch of the command is entered. -/
  | dispatch (command : Command)
  | applyService (service : Service) (mode : String) (emergency : Bool)
  /-- The child process that runs `sendnotification.js`. -/
  | sendnotification (title msg : String)
  deriving DecidableEq, Repr

/-- The branch of a command. -/
def branch (cfg : DoorConfig) (snapshot : Snapshot) : Command → List Effect
  | .Lock =>
    [.storeLog snapshot.todoName snapshot.todo] ++
    (if cfg.motorService then [.applyService .Motor "Close" false] else [])
  | .Unlock =>
    [.storeLog snapshot.todoName snapshot.todo] ++
    (if cfg.motorService then [.applyService .Motor "Open" false] else [])
  | .AlarmOff =>
    (if cfg.alarmService then [.applyService .Alarm "Off" true] else []) ++
    [.set .Emergency (.text "Off"), .set .notification (.notification .alarmOff)]
  | .Emergency =>
    [.storeLog snapshot.todoName snapshot.todo, .set .Emergency (.text "On")] ++
    (if cfg.motorService then [.applyService .Motor "Open" true] else []) ++
    (if cfg.alarmService then [.applyService .Alarm "On" true] else []) ++
    (if cfg.notificationService then
      [.sendnotification "Emergency!!!" "Some one apply the emegency mode!"] else []) ++
    [.set .notification (.notification .emergency)]

/-- The callback of `on("value", ...)` on the door node. -/
def handler (cfg : DoorConfig) (snapshot : Snapshot) : List Effect :=
  if snapshot.todo ≠ some "null" then
    .set .todo (.text "null") :: Command.branches.flatMap fun command =>
      if snapshot.todo = some command.text then .dispatch command :: branch cfg snapshot command
      else []
  else []

/-! ## What a run does -/

variable {cfg : DoorConfig} {snapshot : Snapshot}

theorem handler_of_null (h : snapshot.todo = some "null") : handler cfg snapshot = [] := by
  simp [handler, h]

theorem handler_of_command {command : Command} (h : snapshot.todo = some command.text) :
    handler cfg snapshot =
      .set .todo (.text "null") :: .dispatch command :: branch cfg snapshot command := by
  have hnull : snapshot.todo ≠ some "null" := by
    rw [h]
    exact fun heq => command.text_ne_null (Option.some.inj heq)
  rw [handler, if_pos hnull]
  cases command <;> simp [h, Command.branches, Command.text]

theorem handler_of_other (hnull : snapshot.todo ≠ some "null")
    (h : ∀ command : Command, snapshot.todo ≠ some command.text) :
    handler cfg snapshot = [.set .todo (.text "null")] := by
  simp [handler, hnull, h, Command.branches]

/-- Unless `todo` is "null", a run clears it and then enters at most one branch. -/
theorem handler_cases (cfg : DoorConfig) (hnull : snapshot.todo ≠ some "null") :
    ∃ rest, handler cfg snapshot = .set .todo (.text "null") :: rest ∧
      (rest = [] ∨ ∃ command : Command, snapshot.todo = some command.text ∧
        rest = .dispatch command :: branch cfg snapshot command) := by
  by_cases h : ∃ command : Command, snapshot.todo = some command.text
  · obtain ⟨command, hc⟩ := h
    exact ⟨_, handler_of_command hc, .inr ⟨command, hc, rfl⟩⟩
  · exact ⟨[], handler_of_other hnull (not_exists.mp h), .inl rfl⟩

/-- The branches that push an entry to the log. -/
def Command.Logged (command : Command) : Prop := command ≠ .AlarmOff

/-- A branch enters no other branch, and writes neither `todo` nor `todo-name`. -/
theorem of_mem_branch {command : Command} {e : Effect} (h : e ∈ branch cfg snapshot command) :
    (∀ c, e ≠ .dispatch c) ∧ ∀ value, e ≠ .set .todo value ∧ e ≠ .set .todoName value := by
  cases command <;> simp only [branch] at h <;> grind

/-- What a branch logs is what it was called on. -/
theorem storeLog_mem_branch {command : Command} {name todo : Option String} :
    .storeLog name todo ∈ branch cfg snapshot command ↔
      command.Logged ∧ name = snapshot.todoName ∧ todo = snapshot.todo := by
  cases command <;> simp only [branch, Command.Logged] <;> grind

theorem storeLog_mem_handler {name todo : Option String} :
    .storeLog name todo ∈ handler cfg snapshot ↔
      ∃ command : Command, snapshot.todo = some command.text ∧ command.Logged ∧
        name = snapshot.todoName ∧ todo = snapshot.todo := by
  by_cases h : ∃ command : Command, snapshot.todo = some command.text
  · obtain ⟨command, hc⟩ := h
    rw [handler_of_command hc]
    simp only [List.mem_cons, reduceCtorEq, false_or, storeLog_mem_branch]
    constructor
    · exact fun h => ⟨command, hc, h⟩
    · rintro ⟨command', hc', h⟩
      obtain rfl : command = command' := Command.text_injective (Option.some.inj (hc.symm.trans hc'))
      exact h
  · refine ⟨fun hmem => absurd hmem ?_, fun ⟨command, hc, _⟩ => absurd ⟨command, hc⟩ h⟩
    by_cases hnull : snapshot.todo = some "null"
    · simp [handler_of_null hnull]
    · simp [handler_of_other hnull (not_exists.mp h)]

end SmartDoor.Online
