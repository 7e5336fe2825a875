-- SUMMARY: The router of the local pages: its variables, the effect of each route, and the files behind its maps.
import SmartDoor.Base.Saved
import SmartDoor.Base.Transition
import Mathlib.Logic.Function.Basic

/-!
# The router

`router2.js` keeps the door's state and five maps in variables. Each map has a
file, which is read when the program starts and written as a whole after a
change. The times of the MAC addresses in `users` are left out: no other route
uses them.
-/

namespace SmartDoor.Router

/-! ## Values -/

/-- A field of a form; a field that is repeated arrives as an array. -/
inductive Field where
  | absent
  | one (s : String)
  | many (ss : List String)
  deriving DecidableEq, Repr

/-- The string a field becomes as a key or in a comparison. -/
def Field.text : Field → String
  | .absent => "undefined"
  | .one s => s
  | .many ss => ",".intercalate ss

/-- What `JSON.parse` returns. A number is known by its literal. -/
inductive Json where
  | null
  | bool (b : Bool)
  | num (literal : String)
  | str (s : String)
  | arr (elems : List Json)
  | obj (props : List (String × Json))
  deriving Repr

mutual

/-- The conversion to a string. -/
def Json.text : Json → String
  | .null => "null"
  | .bool b => toString b
  | .num literal => literal
  | .str s => s
  | .arr elems => ",".intercalate (Json.texts elems)
  | .obj _ => "[object Object]"

/-- The elements of an array, as `join` takes them. -/
def Json.texts : List Json → List String
  | [] => []
  | .null :: elems => "" :: Json.texts elems
  | j :: elems => j.text :: Json.texts elems

end

/-- The value of a key of an object; `JSON.stringify` leaves out the first two. -/
inductive Property where
  | undefined
  | function
  | json (j : Json)
  deriving Repr

def Property.json? : Property → Option Json
  | .json j => some j
  | _ => none

def Field.value : Field → Property
  | .absent => .undefined
  | .one s => .json (.str s)
  | .many ss => .json (.arr (ss.map .str))

/-- The comparison `== "on"`. Only strings and arrays can be equal to it. -/
def isOn : Option Property → Bool
  | some (.json (.str s)) => s = "on"
  | some (.json (.arr elems)) => (Json.arr elems).text = "on"
  | _ => false

/-! ## Maps -/

/-- The own keys of an object. -/
abbrev Map := String → Option Property

/-- The keys of an object in a file. -/
abbrev JsonMap := String → Option Json

/-- `m[key] = value`. Unless it is an own key, `__proto__` sets the prototype. -/
def Map.assign (m : Map) (key : String) (value : Property) : Map :=
  if key = "__proto__" ∧ (m key).isNone then m else Function.update m key (some value)

theorem Map.assign_eq_update {m : Map} {key : String} {value : Property}
    (h : key = "__proto__" → (m key).isSome) :
    m.assign key value = Function.update m key (some value) := by
  rw [assign, if_neg]
  rintro ⟨hkey, hnone⟩
  simp [Option.isNone_iff_eq_none.mp hnone] at h
  exact h hkey

/-- `delete m[key]`. -/
def Map.delete (m : Map) (key : String) : Map := Function.update m key none

/-- What every object inherits. -/
def inherited (key : String) : Property :=
  if key = "__proto__" then .json (.obj [])
  else if key ∈ ["constructor", "hasOwnProperty", "isPrototypeOf", "propertyIsEnumerable",
      "toLocaleString", "toString", "valueOf", "__defineGetter__", "__defineSetter__",
      "__lookupGetter__", "__lookupSetter__"] then .function
  else .undefined

/-- `m[key]`. -/
def Map.get (m : Map) (key : String) : Property := (m key).getD (inherited key)

/-- The files of the maps. -/
def mapFormat : Format Map JsonMap where
  empty _ := none
  parse t key := (t key).map .json
  stringify m key := (m key).bind Property.json?
  parse_stringify_empty := rfl
  stringify_parse t := by
    funext key
    cases h : t key <;> simp [h, Property.json?]

/-- The file of the notes, which holds the text that a page sent. -/
def notesFormat : Format Json Json where
  empty := .obj []
  parse := id
  stringify := id
  parse_stringify_empty := rfl
  stringify_parse _ := rfl

/-! ## The variables -/

structure Server where
  /-- 1 when the door is open. -/
  doorstate : Nat
  alarm : Bool
  /-- The timeouts that will turn the alarm off. -/
  timers : Nat
  phones : Saved Map JsonMap
  btusers : Saved Map JsonMap
  btnew : Saved Map JsonMap
  settings : Saved Map JsonMap
  memos : Saved Json Json
  /-- The field of the last page that sent its notes; the number 0 before. -/
  memlastupdate : Option Field

/-- The contents of the files. -/
structure Disk where
  phone : Content JsonMap
  savedbt : Content JsonMap
  newbt : Content JsonMap
  settings : Content JsonMap
  notes : Content Json

/-- The program has started. -/
def Server.start (disk : Disk) : Server where
  doorstate := 0
  alarm := false
  timers := 0
  phones := .start mapFormat disk.phone
  btusers := .start mapFormat disk.savedbt
  btnew := .start mapFormat disk.newbt
  settings := .start mapFormat disk.settings
  memos := .start notesFormat disk.notes
  memlastupdate := none

namespace Server

def alarmon (s : Server) : Server := { s with alarm := true }

def alarmoff (s : Server) : Server := { s with alarm := false }

def opendoor (s : Server) : Server := { s with doorstate := 1 }

def closedoor (s : Server) : Server := { s with doorstate := 0 }

end Server

/-! ## The routes -/

/-- The routes with the fields they read. -/
inductive Request where
  /-- `POST /`, with the fields `passport-local` finds. -/
  | login (username password : Field)
  | addphone (phonename phone : Field)
  | delphone (phone : Field)
  | newbt (newbt : Field)
  | delbt (btrem : Field)
  | setemer (callhelp alarmhelp callemer alarmemer callto : Field)
  | setbt (btopen : Field)
  /-- `data` is what `JSON.parse` makes of the field, and `none` where it throws. -/
  | updatememos (data : Option Json) (lastupdate : Field)
  /-- `GET /updatememos`. -/
  | lastupdate
  /-- `GET /`. -/
  | index
  | status
  | ledon
  | ledoff
  | helpbut
  | emerbut
  /-- A page's script, a file, or an address without a route. -/
  | other

inductive Response where
  | redirect (location : String)
  | sendStatus (code : Nat)
  | send (body : String)
  | lastupdate (value : Option Field)
  | render (isAuthtenticated : Bool)
  | other
  deriving DecidableEq, Repr

/-- The test of the passport strategy. -/
def verify (username password : Field) : Bool :=
  username.text = "Admin" ∧ password.text = "1234"

/-- What `passport-local` takes as not given. -/
def Field.missing (f : Field) : Bool := f = .absent ∨ f = .one ""

def login (username password : Field) : Response :=
  if username.missing ∨ password.missing then .sendStatus 400
  else if verify username password then .redirect "/"
  else .sendStatus 401

namespace Server

def addphone (phonename phone : Field) (s : Server) : Server :=
  { s with phones := s.phones.save mapFormat (s.phones.memory.assign phone.text phonename.value) }

def delphone (phone : Field) (s : Server) : Server :=
  { s with phones := s.phones.save mapFormat (s.phones.memory.delete phone.text) }

def newbt (newbt : Field) (s : Server) : Server :=
  let name := s.btnew.memory.get newbt.text
  { s with btusers := s.btusers.save mapFormat (s.btusers.memory.assign newbt.text name) }

def delbt (btrem : Field) (s : Server) : Server :=
  { s with btusers := s.btusers.save mapFormat (s.btusers.memory.delete btrem.text) }

/-- The settings of the form, in the order of the assignments. -/
def emergencySettings (m : Map) (callhelp alarmhelp callemer alarmemer callto : Field) : Map :=
  ((((m.assign "callhelp" callhelp.value).assign "alarmhelp" alarmhelp.value).assign
    "callemer" callemer.value).assign "alarmemer" alarmemer.value).assign "callto" callto.value

def setemer (callhelp alarmhelp callemer alarmemer callto : Field) (s : Server) : Server :=
  let settings :=
    emergencySettings s.settings.memory callhelp alarmhelp callemer alarmemer callto
  { s with settings := s.settings.save mapFormat settings }

def setbt (btopen : Field) (s : Server) : Server :=
  let settings := s.settings.memory.assign "btopen" btopen.value
  { s with settings := s.settings.save mapFormat settings }

/-- The file is given the text itself. -/
def updatememos (data : Json) (lastupdate : Field) (s : Server) : Server :=
  { s with memos := s.memos.update data data, memlastupdate := some lastupdate }

/-- `helpbut` and `emerbut`, which differ in the setting they look at. -/
def button (setting : String) (s : Server) : Server :=
  if isOn (s.settings.memory setting) then
    { s.alarmon with timers := s.timers + 1 }.opendoor
  else s.opendoor

def helpbut : Server → Server := button "alarmhelp"

def emerbut : Server → Server := button "alarmemer"

/-- The route of a request; `authenticated` is what `isAuthenticated` returns, which
only `index` asks for: as `lan` is 0, `alreadyloged` goes on at once. -/
def handle (authenticated : Bool) (s : Server) : Request → Server × Response
  | .login username password => (s, login username password)
  | .addphone phonename phone => (s.addphone phonename phone, .redirect "./#Settings")
  | .delphone phone => (s.delphone phone, .redirect "./#Settings")
  | .newbt newbt => (s.newbt newbt, .redirect "./#Settings")
  | .delbt btrem => (s.delbt btrem, .redirect "./#Settings")
  | .setemer callhelp alarmhelp callemer alarmemer callto =>
      (s.setemer callhelp alarmhelp callemer alarmemer callto, .redirect "./#Settings")
  | .setbt btopen => (s.setbt btopen, .redirect "./#Settings")
  | .updatememos (some data) lastupdate => (s.updatememos data lastupdate, .redirect "./#Settings")
  | .updatememos none _ => (s, .sendStatus 500)
  | .lastupdate => (s, .lastupdate s.memlastupdate)
  | .index => (s, .render authenticated)
  | .status => (s, .send (if s.doorstate ≠ 0 then "on" else "off"))
  | .ledon => (s.opendoor, .sendStatus 200)
  | .ledoff => (s.closedoor.alarmoff, .sendStatus 200)
  | .helpbut => (s.helpbut, .sendStatus 200)
  | .emerbut => (s.emerbut, .sendStatus 200)
  | .other => (s, .other)

/-! ## Steps -/

end Server

/-- The files that are read and written. -/
inductive File where
  | phone
  | savedbt
  | newbt
  | settings
  | notes
  deriving DecidableEq, Repr

inductive Event where
  | request (authenticated : Bool) (r : Request)
  /-- A timeout of a button. -/
  | timeout
  /-- The reading of a file at the start completes. -/
  | read (f : File)
  /-- The `i`th pending write of a file completes. -/
  | written (f : File) (i : Nat)

namespace Server

def finishRead (s : Server) : File → Option Server
  | .phone => (s.phones.finishRead mapFormat).map fun f => { s with phones := f }
  | .savedbt => (s.btusers.finishRead mapFormat).map fun f => { s with btusers := f }
  | .newbt => (s.btnew.finishRead mapFormat).map fun f => { s with btnew := f }
  | .settings => (s.settings.finishRead mapFormat).map fun f => { s with settings := f }
  | .notes => (s.memos.finishRead notesFormat).map fun f => { s with memos := f }

def complete (s : Server) (i : Nat) : File → Option Server
  | .phone => (s.phones.complete i).map fun f => { s with phones := f }
  | .savedbt => (s.btusers.complete i).map fun f => { s with btusers := f }
  | .newbt => (s.btnew.complete i).map fun f => { s with btnew := f }
  | .settings => (s.settings.complete i).map fun f => { s with settings := f }
  | .notes => (s.memos.complete i).map fun f => { s with memos := f }

def step (s : Server) : Event → Option Server
  | .request authenticated r => some (s.handle authenticated r).1
  | .timeout => if s.timers = 0 then none else some { s.alarmoff with timers := s.timers - 1 }
  | .read f => s.finishRead f
  | .written f i => s.complete i f

end Server

end SmartDoor.Router
