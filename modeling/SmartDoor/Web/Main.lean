-- SUMMARY: The Main component of the web page: its state, the status snapshot it reads, and its timer tick.
import SmartDoor.Notification

/-!
# The web page

`WebInterface/src/main.js`: the component of one open page. Its state holds the
last snapshot of the door node, and a timer recomputes everything that is shown
from that snapshot and from what was shown before. A missing field of a snapshot
is `none`; a difference with a missing number is `NaN`, also `none`.
-/

namespace SmartDoor.Web

/-! ## What the page reads -/

/-- A notification as it is read back. -/
structure Record where
  title : Option String
  msg : Option String
  popup : Option String
  stime : Option Int
  deriving DecidableEq, Repr

/-- What a producer has written, as it is read back. -/
def Record.ofNotification (n : Notification) : Record where
  title := some n.title
  msg := some n.msg
  popup := some n.popup
  stime := n.stime

/-- The children of the door node that the timer reads. -/
structure Status (M : Type) where
  time : Option Int
  doorcurrentstatus : Option String
  doorstatus : Option String
  alarm : Option String
  move : Option String
  smokedetect : Option String
  notification : Option Record
  memos : Option M
  deriving DecidableEq, Repr

/-! ## What the page shows -/

/-- The body of the modal: a message, or the list of memos. -/
inductive ModalBody (M : Type) where
  | message (msg : Option String)
  | memos (memos : Option M)
  deriving DecidableEq, Repr

/-- `this.state`. A field that the constructor leaves out is `none` at first;
the `false` it stores in `move` and `lastmove` is `none` too. -/
structure Main (M : Type) where
  status : Status M
  online : String
  doorbutton : String
  doorbuttondisabled : Option Bool
  doorimg : Option String
  lastmove : Option String
  move : Option String
  notification : Option Record
  popup : Option String
  lastpopup : Option String
  showModal : Bool
  modaltitle : Option String
  modalbody : Option (ModalBody M)
  smokecolor : Option String
  alarmcolor : Option String
  smokedetect : Option String
  alarm : Option String
  EmergencyButton : Option String
  EmergencyClick : Option String
  deriving DecidableEq, Repr

variable {M : Type}

/-- A comparison with `NaN` is false. -/
def below (x : Option Int) (bound : Int) : Bool := x.any (· < bound)

def above (x : Option Int) (bound : Int) : Bool := x.any (· > bound)

/-- `now - stamp` for a stamp that may be missing. -/
def elapsed (now : Int) (stamp : Option Int) : Option Int := stamp.map (now - ·)

namespace Main

/-- The state of the constructor. Its status has `time: ''`, which counts as 0. -/
def init : Main M where
  status := {
    time := some 0, doorcurrentstatus := none, doorstatus := some "", alarm := none, move := none
    smokedetect := none, notification := none, memos := none }
  online := "offline"
  doorbutton := "Open"
  doorbuttondisabled := none
  doorimg := none
  lastmove := none
  move := none
  notification := none
  popup := none
  lastpopup := none
  showModal := false
  modaltitle := none
  modalbody := none
  smokecolor := none
  alarmcolor := none
  smokedetect := none
  alarm := none
  EmergencyButton := none
  EmergencyClick := none

/-- The callback of `statusref.on('value', ...)`. -/
def onStatus (status : Status M) (s : Main M) : Main M := { s with status := status }

/-- The record the timer looks at: without one, `{ popup: "false" }`. -/
def shownRecord (status : Status M) : Record :=
  match status.notification with
  | none => { title := none, msg := none, popup := some "false", stime := none }
  | some notification => notification

/-- The popup of a record: its own one while it is younger than fifteen seconds. -/
def popupOf (now : Int) (notification : Record) : String :=
  match notification.popup with
  | none => "false"
  | some popup => if below (elapsed now notification.stime) 15000 then popup else "false"

/-- The callback of the timer, at the time `now`. -/
def tick (now : Int) (s : Main M) : Main M :=
  let status := s.status
  let online := if above (elapsed now status.time) 20000 then "offline" else "online"
  let busy := status.doorstatus = some "Locking" ∨ status.doorstatus = some "Unlocking"
  let doorbutton :=
    if busy then status.doorstatus.getD ""
    else if status.doorcurrentstatus = some "Close" then "Unlock" else "Lock"
  let doorimg :=
    if busy then "./loading.gif"
    else if status.doorcurrentstatus = some "Middle" then "./error.png"
    else if status.doorcurrentstatus = some "Close" then "./lock.png" else "./unlock.png"
  let alarmOn := status.alarm = some "On"
  let move := status.move.getD "false"
  let notification := shownRecord status
  let popup := popupOf now notification
  let smokeFound := status.smokedetect = some "Detected"
  -- the modal is recomputed only when the popup has changed, or the move without a popup
  let edge := (s.move ≠ some move ∧ popup = "false") ∨ s.popup ≠ some popup
  { s with
    online := online
    doorbutton := doorbutton
    doorbuttondisabled := some (decide busy)
    doorimg := some doorimg
    lastmove := s.move
    move := some move
    notification := some notification
    popup := some popup
    lastpopup := some (s.popup.getD "false")
    showModal := if edge then decide (move = "true") || decide (popup = "true") else s.showModal
    modaltitle :=
      if edge then (if popup = "true" then notification.title else some "Dont Forget!")
      else s.modaltitle
    modalbody :=
      if edge then
        some (if popup = "true" then .message notification.msg else .memos status.memos)
      else s.modalbody
    smokecolor := some (if smokeFound then "App-red" else "App-green")
    alarmcolor := some (if alarmOn then "App-red" else "App-green")
    smokedetect := some (if smokeFound then "Detected" else "Clean")
    alarm := some (if alarmOn then "On" else "off")
    EmergencyButton := some (if alarmOn then "Stop Alarm" else "Emergency")
    EmergencyClick := some (if alarmOn then "AlarmOff" else "Emergency") }

/-- `close()`. -/
def close (s : Main M) : Main M := { s with showModal := false }

/-! ## The popup of a tick -/

@[simp] theorem tick_popup (now : Int) (s : Main M) :
    (s.tick now).popup = some (popupOf now (shownRecord s.status)) := rfl

theorem popupOf_eq (now : Int) {n : Record} {popup : String} (h : n.popup = some popup) :
    popupOf now n = if below (elapsed now n.stime) 15000 then popup else "false" := by
  simp [popupOf, h]

/-- A popup that appears shows the modal with the title and the message of its record. -/
theorem tick_of_popup_appears {now : Int} {s : Main M} (hold : s.popup = some "false")
    (hnew : popupOf now (shownRecord s.status) = "true") :
    (s.tick now).showModal = true ∧
    (s.tick now).modaltitle = (shownRecord s.status).title ∧
    (s.tick now).modalbody = some (.message (shownRecord s.status).msg) := by
  simp [tick, hold, hnew]

end Main

end SmartDoor.Web
