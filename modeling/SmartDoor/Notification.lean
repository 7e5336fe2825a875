-- SUMMARY: The record in the door's `notification` child, and what each producer writes there.

/-!
# Notifications

One record is shared by all producers and by every open page. A producer that
leaves out `stime` leaves the field `undefined` for the reader.
-/

namespace SmartDoor

/-- The value of the child `notification`. -/
structure Notification where
  title : String
  msg : String
  popup : String
  stime : Option Int
  deriving DecidableEq, Repr

namespace Notification

/-- The Emergency branch of `online.js`. -/
def emergency : Notification where
  title := "Emergency!!!"
  msg := "Some one apply the emegency mode!"
  popup := "true"
  stime := none

/-- The AlarmOff branch of `online.js`. -/
def alarmOff : Notification where
  title := ""
  msg := ""
  popup := "false"
  stime := none

/-- `BreakDetect.js`, at the time `now`. -/
def thiefAlert (now : Int) : Notification where
  title := "Thief Alert"
  msg := "someone is opening your lock manually!"
  popup := "true"
  stime := some now

/-- `Knockdetect.js`, at the time `now`. -/
def knock (now : Int) : Notification where
  title := "Knock Knock"
  msg := "some one knocked your door!"
  popup := "true"
  stime := some now

/-- `Speechrecognition.js`, at the time `now`, for the recognised text. -/
def recorded (now : Int) (results : String) : Notification where
  title := "Someone recorded a message"
  msg := results
  popup := "true"
  stime := some now

end Notification

end SmartDoor
