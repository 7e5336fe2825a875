import SmartDoor.Motor.Published
import SmartDoor.Motor.Guard
import SmartDoor.Motor.Edges
import SmartDoor.Motor.Hysteresis
import SmartDoor.BreakDetect.Alert
import SmartDoor.BreakDetect.Clear
import SmartDoor.Bluetooth.Chunking
import SmartDoor.Bluetooth.Acknowledged
import SmartDoor.Bluetooth.Answers
import SmartDoor.Web.Popup
import SmartDoor.Online.Dispatch
import SmartDoor.Online.Audit
import SmartDoor.Online.Lost
import SmartDoor.Online.Retry
import SmartDoor.Online.Attempts
import SmartDoor.Users.Register
import SmartDoor.Router.Sessions
import SmartDoor.Router.Stored
import SmartDoor.Router.Notes
import SmartDoor.Router.Alarm
import SmartDoor.Base.Reread
import SmartDoor.Router.Rows
import SmartDoor.Router.Memos
import SmartDoor.Router.Rendered
import SmartDoor.BreakDetect.Polls
import SmartDoor.Sensors.Smoke
import SmartDoor.Sensors.Knock
import SmartDoor.Bluetooth.Recovery
import SmartDoor.Web.Modal
import SmartDoor.Web.Remember
import SmartDoor.Web.Repeated
import SmartDoor.Web.Login
import SmartDoor.House.Pulses
import SmartDoor.House.Alarm
import SmartDoor.Motor.Lock
import SmartDoor.Bluetooth.Shown
import SmartDoor.Bluetooth.Lockout
import SmartDoor.Sensors.AlarmSound
import SmartDoor.Web.Listeners
import SmartDoor.Web.Memos
import SmartDoor.Web.Heartbeat
import SmartDoor.House.Panel
import SmartDoor.Router.Door
import SmartDoor.Router.Phones
import SmartDoor.Router.Settings
import SmartDoor.Router.Texts
