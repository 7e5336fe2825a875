-- SUMMARY: The siren's server: which of the accepted commands reach its pins, and what its clients are told.
import Mathlib.Data.List.Induction

/-!
# The siren

`scripts/AlarmSound.js` is the server on port 6003. `data` is a buffer: compared
with a string it is the text it holds, compared with another buffer it is equal to
itself only. `ModeSaver` starts as a string and holds the buffer of a command later,
so the test for "already" looks at what is meant before the first "On" only. The
prints and the shell are left out; `arduino` keeps the arguments of
`blueArduinoCommand`.
-/

namespace SmartDoor.AlarmSound

/-- A string, or a buffer with its identity. -/
inductive Value where
  | string (s : String)
  | buffer (id : Nat) (s : String)
  deriving DecidableEq, Repr

namespace Value

def text : Value → String
  | .string s => s
  | .buffer _ s => s

/-- The comparison `==`. -/
def looseEq : Value → Value → Bool
  | .buffer i _, .buffer j _ => i = j
  | v, w => v.text = w.text

end Value

/-- The levels written to the two pins, the commands of `setAlarmBT` and the replies,
oldest first; `received` is the number of data events. -/
structure Process (K : Type) where
  modeSaver : Value
  alarmPin : List Nat
  lightsPin : List Nat
  arduino : List String
  replies : List (K × String)
  received : Nat

variable {K : Type}

namespace Process

def init : Process K := ⟨.string "Off", [], [], [], [], 0⟩

/-- `Mode == "On"`, which the two pins and the Arduino look at. -/
def isOn (mode : Value) : Bool := mode.looseEq (.string "On")

def isOff (mode : Value) : Bool := mode.looseEq (.string "Off")

def setAlarmBT (mode : Value) (p : Process K) : Process K :=
  { p with arduino := p.arduino ++ [if isOn mode then "1" else "0"] }

def setSoundAlarm (mode : Value) (p : Process K) : Process K :=
  { p with alarmPin := p.alarmPin ++ [if isOn mode then 1 else 0] }

def setSoundLights (mode : Value) (p : Process K) : Process K :=
  { p with lightsPin := p.lightsPin ++ [if isOn mode then 1 else 0] }

def setAlarm (mode : Value) (p : Process K) : Process K :=
  if p.modeSaver.looseEq mode then p
  else if ¬ isOn mode ∧ ¬ isOff mode then p
  else { setSoundLights mode (setSoundAlarm mode p) with modeSaver := mode }

def write (socket : K) (text : String) (p : Process K) : Process K :=
  { p with replies := p.replies ++ [(socket, text)] }

/-- `socket.on('data', ...)`. -/
def onData (socket : K) (text : String) (p : Process K) : Process K :=
  let data := Value.buffer p.received text
  let p := { p with received := p.received + 1 }
  if isOn data ∨ isOff data then
    write socket ("Alarm " ++ data.text) (setAlarmBT data (setAlarm data p))
  else write socket "Error, bad command" p

end Process

/-- The server after the data events, each with its connection. -/
def served (events : List (K × String)) : Process K :=
  events.foldl (fun p e => p.onData e.1 e.2) .init

/-! ## What is meant -/

def Accepted (text : String) : Prop := text = "On" ∨ text = "Off"

instance : DecidablePred Accepted := fun _ => inferInstanceAs (Decidable (_ ∨ _))

/-- The commands among the events. -/
def commands (events : List (K × String)) : List String :=
  (events.map (·.2)).filter (Accepted ·)

/-- What a command stands for at the pins, and for the Arduino. -/
def level (command : String) : Nat := if command = "On" then 1 else 0

def argument (command : String) : String := if command = "On" then "1" else "0"

def reply (e : K × String) : K × String :=
  (e.1, if Accepted e.2 then "Alarm " ++ e.2 else "Error, bad command")

/-- The commands from the first "On" on. -/
def effective (events : List (K × String)) : List String :=
  (commands events).dropWhile (· = "Off")

/-! ## One event -/

variable {p : Process K} {socket : K} {text : String} {events : List (K × String)}

theorem isOn_buffer {i : Nat} : Process.isOn (.buffer i text) = decide (text = "On") := rfl

theorem isOff_buffer {i : Nat} : Process.isOff (.buffer i text) = decide (text = "Off") := rfl

theorem served_concat {e : K × String} :
    served (events ++ [e]) = (served events).onData e.1 e.2 := by
  simp [served]

theorem commands_concat {e : K × String} : commands (events ++ [e]) =
    commands events ++ if Accepted e.2 then [e.2] else [] := by
  rw [commands, List.map_append, List.filter_append, ← commands]
  by_cases h : Accepted e.2
  · simp [h]
  · simp [h]

theorem onData_of_not_accepted (h : ¬ Accepted text) : p.onData socket text =
    { p with
      received := p.received + 1
      replies := p.replies ++ [(socket, "Error, bad command")] } := by
  obtain ⟨hon, hoff⟩ : text ≠ "On" ∧ text ≠ "Off" := not_or.mp h
  simp [Process.onData, isOn_buffer, isOff_buffer, hon, hoff, Process.write]

/-- An accepted command is answered and passed on; it reaches the pins unless the saved
mode is equal to it. -/
theorem onData_of_accepted (h : Accepted text) : p.onData socket text =
    let p' := { p with
      received := p.received + 1
      arduino := p.arduino ++ [argument text]
      replies := p.replies ++ [(socket, "Alarm " ++ text)] }
    if p.modeSaver.looseEq (.buffer p.received text) then p'
    else { p' with
      modeSaver := .buffer p.received text
      alarmPin := p.alarmPin ++ [level text], lightsPin := p.lightsPin ++ [level text] } := by
  have hmode : Process.isOn (.buffer p.received text) ∨
      Process.isOff (.buffer p.received text) := by
    rw [isOn_buffer, isOff_buffer, decide_eq_true_eq, decide_eq_true_eq]
    exact h
  have hmode' : ¬ (¬ Process.isOn (.buffer p.received text) ∧
      ¬ Process.isOff (.buffer p.received text)) := by
    rwa [← not_or, not_not]
  unfold Process.onData
  dsimp only
  rw [if_pos hmode, Process.setAlarm]
  by_cases heq : p.modeSaver.looseEq (.buffer p.received text)
  · rw [if_pos heq, if_pos heq]
    simp only [Process.setAlarmBT, Process.write, isOn_buffer, decide_eq_true_eq, argument,
      Value.text]
  · rw [if_neg heq, if_neg hmode', if_neg heq]
    simp only [Process.setAlarmBT, Process.setSoundAlarm, Process.setSoundLights, Process.write,
      isOn_buffer, decide_eq_true_eq, argument, level, Value.text]

/-! ## Every run -/

/-- The saved mode: the string of the start until the first "On", and then a buffer that has
been received before. -/
structure Saved (p : Process K) (effective : List String) : Prop where
  early : effective = [] → p.modeSaver = .string "Off"
  late : effective ≠ [] → ∃ i s, p.modeSaver = .buffer i s ∧ i < p.received

theorem effective_concat {e : K × String} : effective (events ++ [e]) = effective events ++
    if Accepted e.2 ∧ (effective events ≠ [] ∨ e.2 = "On") then [e.2] else [] := by
  unfold effective
  rw [commands_concat]
  by_cases h : Accepted e.2
  · rw [if_pos h, List.dropWhile_append]
    by_cases hnone : (commands events).dropWhile (· = "Off") = []
    · rcases h with hon | hoff
      · simp [hnone, hon, Accepted]
      · simp [hnone, hoff]
    · simp [hnone, h]
  · simp [h]

/-- The saved mode lets a command through if and only if it is one from the first "On" on. -/
theorem Saved.looseEq (h : Saved p (effective events)) (haccepted : Accepted text) :
    p.modeSaver.looseEq (.buffer p.received text) = true ↔
      ¬ (effective events ≠ [] ∨ text = "On") := by
  by_cases hnone : effective events = []
  · rw [h.early hnone]
    rcases haccepted with rfl | rfl
    · simp [Value.looseEq, Value.text]
    · simp [Value.looseEq, Value.text, hnone]
  · obtain ⟨i, s, hsaved, hlt⟩ := h.late hnone
    rw [hsaved]
    simp [Value.looseEq, hnone, Nat.ne_of_lt hlt]

theorem saved_served (events : List (K × String)) : Saved (served events) (effective events) := by
  induction events using List.reverseRecOn with
  | nil => exact ⟨fun _ => rfl, fun h => absurd rfl h⟩
  | append_singleton events e ih =>
    rw [served_concat, effective_concat]
    by_cases h : Accepted e.2
    · rw [onData_of_accepted h]
      dsimp only
      by_cases hreach : effective events ≠ [] ∨ e.2 = "On"
      · rw [if_neg (fun heq => (ih.looseEq h).mp heq hreach), if_pos ⟨h, hreach⟩]
        exact ⟨by simp, fun _ => ⟨_, _, rfl, Nat.lt_succ_self _⟩⟩
      · rw [if_pos ((ih.looseEq h).mpr hreach), if_neg (fun hboth => hreach hboth.2)]
        have hnone : effective events = [] := not_not.mp fun hne => hreach (.inl hne)
        rw [hnone, List.append_nil]
        exact ⟨fun _ => ih.early hnone, fun hne => absurd rfl hne⟩
    · rw [onData_of_not_accepted h, if_neg (fun hboth => h hboth.1), List.append_nil]
      refine ⟨ih.early, fun hne => ?_⟩
      obtain ⟨i, s, hsaved, hlt⟩ := ih.late hne
      exact ⟨i, s, hsaved, Nat.lt_succ_of_lt hlt⟩

/-- For all data events on all connections: both pins are written at each command from the
first "On" on, and never before it, with the level of that command; the Arduino is told of
every command; and every event has one reply, in order and on its own connection. -/
theorem pins_follow_commands (events : List (K × String)) :
    (served events).alarmPin = (effective events).map level ∧
    (served events).lightsPin = (effective events).map level ∧
    (served events).arduino = (commands events).map argument ∧
    (served events).replies = events.map reply := by
  induction events using List.reverseRecOn with
  | nil => exact ⟨rfl, rfl, rfl, rfl⟩
  | append_singleton events e ih =>
    obtain ⟨halarm, hlights, harduino, hreplies⟩ := ih
    have hsaved := saved_served events
    rw [served_concat, effective_concat, commands_concat]
    by_cases h : Accepted e.2
    · have hreply : reply e = (e.1, "Alarm " ++ e.2) := by simp [reply, h]
      rw [onData_of_accepted h]
      dsimp only
      by_cases hreach : effective events ≠ [] ∨ e.2 = "On"
      · rw [if_neg (fun heq => (hsaved.looseEq h).mp heq hreach), if_pos ⟨h, hreach⟩]
        simp [h, halarm, hlights, harduino, hreplies, hreply]
      · rw [if_pos ((hsaved.looseEq h).mpr hreach), if_neg (fun hboth => hreach hboth.2)]
        simp [h, halarm, hlights, harduino, hreplies, hreply]
    · rw [onData_of_not_accepted h, if_neg (fun hboth => h hboth.1)]
      simp [h, halarm, hlights, harduino, hreplies, reply]

/-- The guard lets a repeated command through: two equal buffers are not the same. -/
example : (served [(0, "Off"), (0, "On"), (1, "On")]).alarmPin = [1, 1] := by decide

end SmartDoor.AlarmSound
