-- SUMMARY: A browser with the web app: the page that is shown, its component, its listeners, and what it writes to the door.
import Mathlib.Data.List.DropRight
import SmartDoor.Base.Lists
import SmartDoor.Base.Transition
import SmartDoor.Online.Command
import SmartDoor.Web.App
import SmartDoor.Web.Main

/-!
# The web app in a browser

`App` shows one page below the top bar. A page of another kind replaces its
component: the old one is unmounted, the new one is constructed and subscribes to
the database. `Main` unsubscribes when it is unmounted; `SelDoor` and `Logs` do
not. A door that is no path for `child` makes the component's constructor throw,
which ends the session. A door node that does not exist is left out.
-/

namespace SmartDoor.Web

open Script (Text)

variable {M : Type}

/-! ## The session -/

/-- The component below the top bar. -/
inductive View where
  | selDoor
  | help
  | settings
  | logs
  | main
  deriving DecidableEq, Repr

/-- `render()` of `App`. -/
def App.view (app : App) : View :=
  if app.doorselected = "true".toList then
    if app.curpage = some "help".toList then .help
    else if app.curpage = some "settings".toList then .settings
    else if app.curpage = some "logs".toList then .logs
    else .main
  else .selDoor

/-- What `on('value', ...)` is called on. -/
inductive Listener where
  /-- `SelDoor`, on `doors`. -/
  | doors
  /-- `Logs`, on the children of the door's `log` by their time. -/
  | log (ref : List Users.Key)
  /-- `Main`, on the door node. -/
  | status (ref : List Users.Key)
  deriving DecidableEq

/-- A mounted `Main`, with the reference that its constructor has taken. -/
structure Mounted (M : Type) where
  statusref : List Users.Key
  main : Main M

inductive Entry (M : Type) where
  | mounted (view : View)
  /-- The callback of the door node. -/
  | delivered (ref : List Users.Key) (status : Status M)
  /-- The child `todo` of the door node is set. -/
  | wrote (ref : List Users.Key) (command : Option String)

structure Session (M : Type) where
  app : App
  main : Option (Mounted M)
  listeners : List Listener
  log : List (Entry M)

/-- What the user does, and what the database and the timer bring. -/
inductive SessionAction (M : Type) where
  | pagechange (page : Text)
  | doorchange
  /-- The form of `SelDoor`. -/
  | chooseDoor (name door : Text)
  | snapshot (status : Status M)
  | tick (now : Int)
  /-- The door button, the emergency button, and the close button of the modal. -/
  | doorbutton
  | emergency
  | close

namespace Session

def record (e : Entry M) (s : Session M) : Session M := { s with log := s.log ++ [e] }

def listen (l : Listener) (s : Session M) : Session M := { s with listeners := s.listeners ++ [l] }

/-- `componentWillUnmount`. -/
def unmount (s : Session M) : Session M :=
  match s.main with
  | some m => { s with main := none, listeners := s.listeners.filter (· ≠ .status m.statusref) }
  | none => s

/-- The constructor of the component that `App` shows, and `componentDidMount`. -/
def mount (s : Session M) : Option (Session M) :=
  let s := s.record (.mounted s.app.view)
  match s.app.view with
  | .selDoor => some (s.listen .doors)
  | .help | .settings => some s
  | .logs => (statusref s.app.door).map fun ref => s.listen (.log ref)
  | .main => (statusref s.app.door).map fun ref =>
    { s.listen (.status ref) with main := some ⟨ref, .init⟩ }

/-- `setState` of `App`: a component of the same kind stays mounted. -/
def setState (s : Session M) (app : App) : Option (Session M) :=
  if app.view = s.app.view then some { s with app := app }
  else { s.unmount with app := app }.mount

/-- `writecom(command)` of `Main`, with the door it has now. -/
def writecom (s : Session M) (command : Option String) : Option (Session M) :=
  (statusref s.app.door).map fun ref => s.record (.wrote ref command)

def start (app : App) : Option (Session M) := mount ⟨app, none, [], []⟩

def step (s : Session M) : SessionAction M → Option (Session M)
  | .pagechange page => s.setState { s.app with curpage := some page }
  | .doorchange => s.setState { s.app with doorselected := "false".toList }
  | .chooseDoor name door =>
    if s.app.view = .selDoor then
      s.setState { s.app with
        doorselected := "true".toList, name := some (.text name), door := some (.text door) }
    else none
  | .snapshot status =>
    match s.main with
    | some m =>
      if .status m.statusref ∈ s.listeners then
        some { s.record (.delivered m.statusref status) with
          main := some { m with main := m.main.onStatus status } }
      else none
    | none => none
  | .tick now => s.main.map fun m => { s with main := some { m with main := m.main.tick now } }
  | .doorbutton =>
    match s.main with
    | some m =>
      if m.main.online ≠ "offline" ∧ m.main.doorbuttondisabled ≠ some true then
        s.writecom (some m.main.doorbutton)
      else none
    | none => none
  | .emergency =>
    match s.main with
    | some m => if m.main.online ≠ "offline" then s.writecom m.main.EmergencyClick else none
    | none => none
  | .close => s.main.map fun m => { s with main := some { m with main := m.main.close } }

end Session

/-! ## What the buttons offer -/

/-- The door button is disabled while the motor is at work. -/
def Status.busy (status : Status M) : Prop :=
  status.doorstatus = some "Locking" ∨ status.doorstatus = some "Unlocking"

/-- The commands that a page with this status has buttons for. -/
def Status.Offers (status : Status M) : Online.Command → Prop
  | .Lock => ¬ status.busy ∧ status.doorcurrentstatus ≠ some "Close"
  | .Unlock => ¬ status.busy ∧ status.doorcurrentstatus = some "Close"
  | .AlarmOff => status.alarm = some "On"
  | .Emergency => status.alarm ≠ some "On"

/-- The entries since the component was mounted. -/
def current (log : List (Entry M)) : List (Entry M) :=
  log.rtakeWhile fun e => !(e matches .mounted _)

/-- The command that is written was offered for a status of the very door, which has
been delivered since the page was mounted. -/
def Offered (pre : List (Entry M)) (e : Entry M) : Prop :=
  ∀ ref command, e = .wrote ref command → ∃ status, Entry.delivered ref status ∈ current pre ∧
    ∃ c : Online.Command, command = some c.text ∧ status.Offers c

/-! ## The invariant -/

open Lists

variable {s s' : Session M} {log : List (Entry M)}

/-- The buttons that are shown come from a status of the door `ref` delivered since the page
was mounted, once it shows any. -/
structure ButtonsFrom (log : List (Entry M)) (ref : List Users.Key) (main : Main M) : Prop where
  status : main.status = Main.init.status ∨ Entry.delivered ref main.status ∈ current log
  buttons : main.online = "offline" ∨ ∃ status, Entry.delivered ref status ∈ current log ∧
    (main.doorbuttondisabled ≠ some true →
      ∃ c : Online.Command, main.doorbutton = c.text ∧ status.Offers c) ∧
    ∃ c : Online.Command, main.EmergencyClick = some c.text ∧ status.Offers c

/-- `Main` is mounted for the door that `App` has. -/
structure Session.Inv (s : Session M) : Prop where
  door : ∀ m, s.main = some m → s.app.view = .main ∧ statusref s.app.door = some m.statusref
  buttons : ∀ m, s.main = some m → ButtonsFrom s.log m.statusref m.main
  offered : Everywhere Offered s.log

theorem current_concat_mounted {view : View} : current (log ++ [.mounted view]) = [] := by
  simp [current]

theorem current_concat {e : Entry M} (h : ∀ view, e ≠ .mounted view) :
    current (log ++ [e]) = current log ++ [e] := by
  cases e with
  | mounted view => exact absurd rfl (h view)
  | delivered ref status | wrote ref command => simp [current]

theorem ButtonsFrom.concat {ref : List Users.Key} {main : Main M} {e : Entry M}
    (h : ButtonsFrom log ref main) (he : ∀ view, e ≠ .mounted view) :
    ButtonsFrom (log ++ [e]) ref main := by
  have hmem : ∀ x ∈ current log, x ∈ current (log ++ [e]) := fun x hx => by
    rw [current_concat he]
    exact List.mem_append_left _ hx
  exact ⟨h.status.imp id (hmem _), h.buttons.imp id fun ⟨status, hs, hrest⟩ =>
    ⟨status, hmem _ hs, hrest⟩⟩

/-- The timer recomputes the buttons from the status, which is a real one unless the page
shows that the door is offline. -/
theorem ButtonsFrom.tick {ref : List Users.Key} {main : Main M} {now : Int}
    (h : ButtonsFrom log ref main) (hnow : 20000 < now) : ButtonsFrom log ref (main.tick now) := by
  refine ⟨h.status, ?_⟩
  rcases h.status with hinit | hdelivered
  · left
    simp [Main.tick, hinit, Main.init, elapsed, above, hnow]
  · refine .inr ⟨main.status, hdelivered, fun hfree => ?_, ?_⟩
    · have hbusy : ¬ main.status.busy := by simpa [Main.tick, Status.busy] using hfree
      by_cases hclose : main.status.doorcurrentstatus = some "Close"
      · exact ⟨.Unlock, by simp_all [Main.tick, Status.busy, Online.Command.text], hbusy, hclose⟩
      · exact ⟨.Lock, by simp_all [Main.tick, Status.busy, Online.Command.text], hbusy, hclose⟩
    · by_cases hon : main.status.alarm = some "On"
      · exact ⟨.AlarmOff, by simp [Main.tick, hon, Online.Command.text], hon⟩
      · exact ⟨.Emergency, by simp [Main.tick, hon, Online.Command.text], hon⟩

/-! ## Every step -/

@[simp] theorem Session.unmount_main : s.unmount.main = none := by
  unfold Session.unmount
  split
  · rfl
  · assumption

@[simp] theorem Session.unmount_log : s.unmount.log = s.log := by
  unfold Session.unmount
  split <;> rfl

theorem offered_of_ne_wrote {pre : List (Entry M)} {e : Entry M}
    (h : ∀ ref command, e ≠ .wrote ref command) : Offered pre e :=
  fun ref command he => absurd he (h ref command)

/-- A page that has just been mounted shows nothing of the door yet. -/
theorem Session.Inv.of_mount (hmain : s.main = none) (hoffered : Everywhere Offered s.log)
    (h : s.mount = some s') : s'.Inv := by
  have hlog : Everywhere Offered (s.log ++ [.mounted s.app.view]) :=
    everywhere_concat.mpr ⟨hoffered, offered_of_ne_wrote (by simp)⟩
  have hnone : ∀ u : Session M, u.main = none → u.log = s.log ++ [.mounted s.app.view] →
      u.Inv := by
    intro u hu hulog
    exact ⟨by simp [hu], by simp [hu], hulog ▸ hlog⟩
  simp only [Session.mount, Session.record] at h
  split at h
  · obtain rfl : _ = s' := Option.some.inj h
    exact hnone _ hmain rfl
  · obtain rfl : _ = s' := Option.some.inj h
    exact hnone _ hmain rfl
  · obtain rfl : _ = s' := Option.some.inj h
    exact hnone _ hmain rfl
  · obtain ⟨ref, -, rfl⟩ := Option.map_eq_some_iff.mp h
    exact hnone _ hmain rfl
  · next hview =>
    obtain ⟨ref, href, rfl⟩ := Option.map_eq_some_iff.mp h
    refine ⟨fun m hm => ?_, fun m hm => ?_, hlog⟩
    · obtain rfl := Option.some.inj hm
      exact ⟨hview, href⟩
    · obtain rfl := Option.some.inj hm
      exact ⟨.inl rfl, .inl rfl⟩

theorem Session.Inv.setState (hinv : s.Inv) {app : App}
    (hdoor : s.main = none ∨ app.door = s.app.door) (h : s.setState app = some s') : s'.Inv := by
  unfold Session.setState at h
  split at h
  · next hview =>
    obtain rfl : _ = s' := Option.some.inj h
    refine ⟨fun m hm => ?_, hinv.buttons, hinv.offered⟩
    obtain ⟨hmain, href⟩ := hinv.door m hm
    rcases hdoor with hnone | hsame
    · rw [hnone] at hm
      cases hm
    · exact ⟨hview.trans hmain, by rw [hsame, href]⟩
  · refine Session.Inv.of_mount ?_ ?_ h
    · exact Session.unmount_main
    · rw [Session.unmount_log]
      exact hinv.offered

/-- `Main` has changed, and perhaps the log has grown by an entry that is no write. -/
theorem Session.Inv.update (hinv : s.Inv) {m : Mounted M} {main : Main M} (hm : s.main = some m)
    (hmain : s'.main = some { m with main := main }) (happ : s'.app = s.app)
    (hoffered : Everywhere Offered s'.log) (hbuttons : ButtonsFrom s'.log m.statusref main) :
    s'.Inv := by
  refine ⟨fun m' hm' => ?_, fun m' hm' => ?_, hoffered⟩
  · obtain rfl := Option.some.inj (hmain.symm.trans hm')
    rw [happ]
    exact hinv.door m hm
  · obtain rfl := Option.some.inj (hmain.symm.trans hm')
    exact hbuttons

/-- A button that is shown writes what was offered for the door of the page. -/
theorem Session.Inv.writecom (hinv : s.Inv) {m : Mounted M} {command : Option String}
    (hm : s.main = some m)
    (hcommand : ∃ status, Entry.delivered m.statusref status ∈ current s.log ∧
      ∃ c : Online.Command, command = some c.text ∧ status.Offers c)
    (h : s.writecom command = some s') : s'.Inv := by
  obtain ⟨ref, href, rfl⟩ := Option.map_eq_some_iff.mp h
  obtain rfl : ref = m.statusref := Option.some.inj (href.symm.trans (hinv.door m hm).2)
  refine ⟨hinv.door, fun m' hm' => (hinv.buttons m' hm').concat (by simp), ?_⟩
  refine everywhere_concat.mpr ⟨hinv.offered, fun ref' command' he => ?_⟩
  obtain ⟨rfl, rfl⟩ : m.statusref = ref' ∧ command = command' := by simpa using he
  exact hcommand

theorem Session.Inv.step {a : SessionAction M} (hinv : s.Inv)
    (hnow : ∀ now, a = .tick now → 20000 < now) (h : s.step a = some s') : s'.Inv := by
  cases a with
  | pagechange page =>
    refine hinv.setState ?_ h
    exact .inr rfl
  | doorchange =>
    refine hinv.setState ?_ h
    exact .inr rfl
  | chooseDoor name door =>
    simp only [Session.step] at h
    split at h
    · next hview =>
      refine hinv.setState (.inl ?_) h
      -- `SelDoor` is shown, so `Main` is not
      cases hm : s.main with
      | none => rfl
      | some m => rw [(hinv.door m hm).1] at hview; cases hview
    · cases h
  | snapshot status =>
    simp only [Session.step] at h
    split at h
    · next m hm =>
      split at h
      · obtain rfl : _ = s' := Option.some.inj h
        refine hinv.update hm rfl rfl ?_ ?_
        · exact everywhere_concat.mpr ⟨hinv.offered, offered_of_ne_wrote (by simp)⟩
        · refine ⟨.inr ?_, ((hinv.buttons m hm).concat (by simp)).buttons⟩
          simp [Session.record, current_concat, Main.onStatus]
      · cases h
    · cases h
  | tick now =>
    obtain ⟨m, hm, rfl⟩ := Option.map_eq_some_iff.mp h
    exact hinv.update hm rfl rfl hinv.offered ((hinv.buttons m hm).tick (hnow now rfl))
  | doorbutton =>
    simp only [Session.step] at h
    split at h
    · next m hm =>
      split at h
      · next hshown =>
        obtain ⟨status, hs, hdoor, -⟩ := (hinv.buttons m hm).buttons.resolve_left hshown.1
        obtain ⟨c, hc, hoffers⟩ := hdoor hshown.2
        exact hinv.writecom hm ⟨status, hs, c, congrArg some hc, hoffers⟩ h
      · cases h
    · cases h
  | emergency =>
    simp only [Session.step] at h
    split at h
    · next m hm =>
      split at h
      · next hshown =>
        obtain ⟨status, hs, -, hemergency⟩ := (hinv.buttons m hm).buttons.resolve_left hshown
        exact hinv.writecom hm ⟨status, hs, hemergency⟩ h
      · cases h
    · cases h
  | close =>
    obtain ⟨m, hm, rfl⟩ := Option.map_eq_some_iff.mp h
    obtain ⟨hstatus, hbuttons⟩ := hinv.buttons m hm
    exact hinv.update hm rfl rfl hinv.offered ⟨hstatus, hbuttons⟩

/-- Whatever the user does and whenever the database and the timer bring something, each
write of `todo` is one of the four commands that `online.js` has a branch for. It goes to
the door that the page is mounted for, and was offered for a status of that door, delivered
since then. The ticks are later than 20000 ms after the epoch, as on every real clock: the
time of the initial status is '', which counts as 0, and only a page that finds the door
offline offers nothing for this status. -/
theorem commands_offered {app : App} {s₀ : Session M} {as : List (SessionAction M)}
    (hstart : Session.start app = some s₀) (hnow : ∀ now, .tick now ∈ as → 20000 < now)
    (hrun : Transition.run Session.step s₀ as = some s) :
    Everywhere Offered s.log ∧
      ∀ m, s.main = some m → statusref s.app.door = some m.statusref := by
  have hinit : s₀.Inv := .of_mount rfl everywhere_nil hstart
  have hmeets : Transition.Meets Session.step
      (fun _ a => ∀ now, a = .tick now → 20000 < now) s₀ as :=
    Transition.meets_of_forall fun a ha _ now heq => hnow now (heq ▸ ha)
  have hinv : s.Inv := Transition.run_invariant_of_meets
    (fun _ _ _ hinv hnow hstep => hinv.step hnow hstep) hinit hmeets hrun
  exact ⟨hinv.offered, fun m hm => (hinv.door m hm).2⟩

/-- A guest of the door "Lab" sees that it is closed and presses the button. -/
def guestOfLab : App where
  doorselected := "true".toList
  door := some (.text "Lab".toList)
  name := some (.text "guest".toList)
  curpage := some "main".toList
  app := false

def closed : Status Unit where
  time := some 30000
  doorcurrentstatus := some "Close"
  doorstatus := some "Close"
  alarm := none
  move := none
  smokedetect := none
  notification := none
  memos := none

def unlockLab : List (SessionAction Unit) := [.snapshot closed, .tick 30050, .doorbutton]

theorem commands_offered_unlockLab :
    ∃ s₀ s ref, Session.start guestOfLab = some s₀ ∧
      Transition.run Session.step s₀ unlockLab = some s ∧
      s.log[2]? = some (.wrote ref (some "Unlock")) ∧ Everywhere Offered s.log := by
  obtain ⟨s₀, s, ref, hstart, hrun, hwrote⟩ : ∃ s₀ s ref, Session.start guestOfLab = some s₀ ∧
      Transition.run Session.step s₀ unlockLab = some s ∧
      s.log[2]? = some (.wrote ref (some "Unlock")) := ⟨_, _, _, rfl, rfl, rfl⟩
  refine ⟨s₀, s, ref, hstart, hrun, hwrote, (commands_offered hstart ?_ hrun).1⟩
  simp [unlockLab]

end SmartDoor.Web
