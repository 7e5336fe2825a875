-- SUMMARY: The state of the Bluetooth keep-alive service and its three handlers.

/-!
# The Bluetooth keep-alive service

`scripts/btkeepalive.js`: one serial port to the alarm device, a six-second
interval, and a server on port 6007 for the alarm modes. The serial port hands
the handler whole chunks of bytes. The busy waits and the shell commands of the
recovery are left out; `recoveries` counts how often it is entered.
-/

namespace SmartDoor.Bluetooth

/-- The two values of the children `bt` and `alarm`, and the two requests. -/
inductive Mode where
  | On
  | Off
  deriving DecidableEq, Repr

namespace Mode

def text : Mode → String
  | .On => "On"
  | .Off => "Off"

/-- The byte that sets the device's alarm to the mode, and its echo. -/
def byte : Mode → Char
  | .On => '1'
  | .Off => '0'

def other : Mode → Mode
  | .On => .Off
  | .Off => .On

theorem byte_injective {m m' : Mode} (h : m.byte = m'.byte) : m = m' := by
  cases m <;> cases m' <;> first | rfl | (revert h; decide)

theorem eq_or_eq_other (m m' : Mode) : m' = m ∨ m' = m.other := by
  cases m <;> cases m' <;> simp [other]

theorem other_ne (m : Mode) : m.other ≠ m := by cases m <;> decide

theorem byte_ne_other_byte (m : Mode) : m.byte ≠ m.other.byte := by cases m <;> decide

theorem text_injective {m m' : Mode} (h : m.text = m'.text) : m = m' := by
  cases m <;> cases m' <;> first | rfl | (revert h; decide)

end Mode

/-- The globals of the script, its two database children, the bytes written to
the port that the device has not taken yet, and the replies. -/
structure KeepAlive (K : Type) where
  receivedpong : Nat
  failcount : Int
  btdata : List Char
  btwait : Bool
  btwaitfailcount : Int
  socketwrite : Option K
  bt : Mode
  alarm : Option Mode
  port : List Char
  replies : List (K × String)
  recoveries : Nat
  deriving DecidableEq, Repr

namespace KeepAlive

variable {K : Type}

/-- The service after its start-up. -/
def init : KeepAlive K where
  receivedpong := 0
  failcount := 0
  btdata := []
  btwait := false
  btwaitfailcount := 0
  socketwrite := none
  bt := .Off
  alarm := none
  port := []
  replies := []
  recoveries := 0

/-- A pong that reports the device's alarm in mode `m`. -/
def pong (s : KeepAlive K) (m : Mode) : KeepAlive K :=
  { s with receivedpong := 1, failcount := 0, bt := .On, alarm := some m }

/-- `socketwrite.write(reply)`. The branch without a socket is not reached:
`btwait` is set together with `socketwrite`. -/
def answer (s : KeepAlive K) (reply : String) : KeepAlive K :=
  match s.socketwrite with
  | some socket => { s with replies := s.replies ++ [(socket, reply)] }
  | none => s

/-- An echo that ends the wait for the pending request. -/
def ack (s : KeepAlive K) (m : Mode) : KeepAlive K :=
  { s with alarm := some m, btwaitfailcount := 0, btwait := false }.answer m.text

/-- `port.on('data', ...)`: the whole chunk is compared with one-character strings. -/
def onData (data : List Char) (s : KeepAlive K) : KeepAlive K :=
  let s := if data = ['4'] then s.pong .Off else s
  let s := if data = ['5'] then s.pong .On else s
  if data = ['1'] ∨ data = ['0'] then
    if s.btwait ∧ data = s.btdata then
      s.ack (if data = ['0'] then .Off else .On)
    else s
  else s

/-- The callback of the interval. -/
def tick (s : KeepAlive K) : KeepAlive K :=
  let s := if s.receivedpong = 0 then { s with failcount := s.failcount + 1 } else s
  let s := if s.btwait then
      { s with btwaitfailcount := s.btwaitfailcount + 1, port := s.port ++ s.btdata }
    else s
  let s := if s.failcount ≥ 3 ∨ s.btwaitfailcount ≥ 3 then
      { s with
        bt := .Off, recoveries := s.recoveries + 1
        failcount := -1000, btwaitfailcount := -1000 }
    else s
  let s := if s.receivedpong = 1 then { s with receivedpong := 0 } else s
  { s with port := s.port ++ ['3'] }

/-- `socket.on('data', ...)` of the server on port 6007. -/
def onRequest (socket : K) (data : String) (s : KeepAlive K) : KeepAlive K :=
  if data = "On" ∨ data = "Off" then
    { s with
      btdata := if data = "On" then ['1'] else ['0']
      btwait := true
      port := s.port ++ (if data = "On" then ['1'] else ['0'])
      socketwrite := some socket }
  else
    { s with replies := s.replies ++ [(socket, "Error, bad command")] }

/-! ## What each handler does -/

theorem onData_four (s : KeepAlive K) : s.onData ['4'] = s.pong .Off := by
  simp [onData]

theorem onData_five (s : KeepAlive K) : s.onData ['5'] = s.pong .On := by
  simp [onData]

theorem onData_byte (s : KeepAlive K) (m : Mode) :
    s.onData [m.byte] = if s.btwait ∧ s.btdata = [m.byte] then s.ack m else s := by
  cases m <;> simp [onData, Mode.byte, @eq_comm _ s.btdata]

/-- Every other chunk is ignored; in particular every chunk of two bytes or more. -/
theorem onData_other {data : List Char} (s : KeepAlive K) (h4 : data ≠ ['4']) (h5 : data ≠ ['5'])
    (h : ∀ m : Mode, data ≠ [m.byte]) : s.onData data = s := by
  have h1 : data ≠ ['1'] := h .On
  have h0 : data ≠ ['0'] := h .Off
  simp [onData, h4, h5, h1, h0]

theorem onData_of_length_ne_one {data : List Char} (s : KeepAlive K) (h : data.length ≠ 1) :
    s.onData data = s := by
  refine onData_other s ?_ ?_ fun m => ?_
  all_goals
    rintro rfl
    exact h rfl

/-- An answered echo ends the wait and sends nothing to the device. -/
theorem ack_frame (s : KeepAlive K) (m : Mode) :
    (s.ack m).btwait = false ∧ (s.ack m).btdata = s.btdata ∧ (s.ack m).port = s.port := by
  unfold ack answer
  split <;> simp

@[simp] theorem onRequest_text (socket : K) (m : Mode) (s : KeepAlive K) :
    s.onRequest socket m.text = { s with
      btdata := [m.byte], btwait := true, port := s.port ++ [m.byte]
      socketwrite := some socket } := by
  cases m <;> simp [onRequest, Mode.text, Mode.byte]

/-- A text that is no mode is only answered. -/
theorem onRequest_of_ne_text (socket : K) {data : String} (h : ∀ m : Mode, data ≠ m.text)
    (s : KeepAlive K) :
    s.onRequest socket data =
      { s with replies := s.replies ++ [(socket, "Error, bad command")] } := by
  have hon : data ≠ "On" := h .On
  have hoff : data ≠ "Off" := h .Off
  simp [onRequest, hon, hoff]

end KeepAlive

end SmartDoor.Bluetooth
