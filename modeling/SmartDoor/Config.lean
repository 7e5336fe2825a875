-- SUMMARY: The shared door configuration and the classification of a potentiometer reading.

/-!
# Door configuration

`scripts/config`: the constants every service of the door reads, and
`MotorStatus`, which turns a reading of the potentiometer on the lock's axis
into one of three positions.
-/

namespace SmartDoor

/-- What `MotorStatus` returns. -/
inductive Position where
  | Open
  | Close
  | Middle
  deriving DecidableEq, Repr

/-- The string the source uses for the position. -/
def Position.text : Position → String
  | .Open => "Open"
  | .Close => "Close"
  | .Middle => "Middle"

/-- The fields of `scripts/config` that a modelled service reads. -/
structure DoorConfig where
  debug : Bool
  potentionmeterLowThreshold : Int
  potentionmeterHighThreshold : Int
  motorStatusPrecisionMul : Int
  /-- 1 is clockwise, 0 is counterclockwise. -/
  motorDirectionToClose : Int
  motorThreshold : Nat
  alarmService : Bool
  motorService : Bool
  notificationService : Bool
  deriving DecidableEq, Repr

def DoorConfig.motorDirectionToOpen (cfg : DoorConfig) : Int := 1 - cfg.motorDirectionToClose

/-- The configuration in the repository. -/
def doorconfig : DoorConfig where
  debug := false
  potentionmeterLowThreshold := 710
  potentionmeterHighThreshold := 950
  motorStatusPrecisionMul := 30
  motorDirectionToClose := 1
  motorThreshold := 7000
  alarmService := true
  motorService := true
  notificationService := true

/-- `MotorStatus(precision)` at the reading `r`. A larger precision widens both
end positions by `motorStatusPrecisionMul`. -/
def DoorConfig.motorStatus (cfg : DoorConfig) (precision : Int) (r : Int) : Position :=
  if r > cfg.potentionmeterHighThreshold - precision * cfg.motorStatusPrecisionMul then
    if cfg.motorDirectionToClose = 1 then .Open else .Close
  else if r < cfg.potentionmeterLowThreshold + precision * cfg.motorStatusPrecisionMul then
    if cfg.motorDirectionToClose = 0 then .Open else .Close
  else .Middle

end SmartDoor
