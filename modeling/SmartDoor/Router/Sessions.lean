-- SUMMARY: The sessions of the router, and the requests that change the door's state without a login.
import SmartDoor.Router.Server

/-!
# Sessions

The passport login marks the session of a request, and `isAuthenticated` reads
the mark. Requests of all sessions interleave with the completions of the file
operations and the timeouts of the alarm.
-/

namespace SmartDoor.Router

open Transition

/-! ## The watched state -/

/-- What only a session that is logged in may change. A pending timeout will
change the alarm, so it counts as well. -/
structure Watched where
  doorstate : Nat
  alarm : Bool
  timers : Nat
  settings : Map
  phones : Map
  btusers : Map
  memos : Json

def Server.watched (s : Server) : Watched where
  doorstate := s.doorstate
  alarm := s.alarm
  timers := s.timers
  settings := s.settings.memory
  phones := s.phones.memory
  btusers := s.btusers.memory
  memos := s.memos.memory

/-- The assignment of `value` to `key` has no effect on the own keys. -/
def Map.Keeps (m : Map) (key : String) (value : Property) : Prop :=
  m key = some value ∨ key = "__proto__" ∧ m key = none

/-- The request finds things as it would leave them. -/
def Harmless (s : Server) : Request → Prop
  | .addphone phonename phone => s.phones.memory.Keeps phone.text phonename.value
  | .delphone phone => s.phones.memory phone.text = none
  | .newbt newbt => s.btusers.memory.Keeps newbt.text (s.btnew.memory.get newbt.text)
  | .delbt btrem => s.btusers.memory btrem.text = none
  | .setemer callhelp alarmhelp callemer alarmemer callto =>
      s.settings.memory "callhelp" = some callhelp.value ∧
        s.settings.memory "alarmhelp" = some alarmhelp.value ∧
        s.settings.memory "callemer" = some callemer.value ∧
        s.settings.memory "alarmemer" = some alarmemer.value ∧
        s.settings.memory "callto" = some callto.value
  | .setbt btopen => s.settings.memory "btopen" = some btopen.value
  | .updatememos data _ => ∀ memos ∈ data, s.memos.memory = memos
  | .ledon => s.doorstate = 1
  | .ledoff => s.doorstate = 0 ∧ s.alarm = false
  | .helpbut => s.doorstate = 1 ∧ isOn (s.settings.memory "alarmhelp") = false
  | .emerbut => s.doorstate = 1 ∧ isOn (s.settings.memory "alarmemer") = false
  | .login _ _ => True
  | .lastupdate => True
  | .index => True
  | .status => True
  | .other => True

variable {m : Map} {key : String} {value : Property} {s : Server}

theorem Map.assign_eq_self_iff : m.assign key value = m ↔ m.Keeps key value := by
  unfold assign Keeps
  split
  · next h =>
    obtain ⟨rfl, hnone⟩ : key = "__proto__" ∧ m key = none := by simpa using h
    simp [hnone]
  · next h =>
    have hkey : ¬ (key = "__proto__" ∧ m key = none) := by simpa using h
    simp [hkey, eq_comm]

theorem Map.delete_eq_self_iff : m.delete key = m ↔ m key = none := by
  simp [delete, eq_comm]

theorem emergencySettings_eq_self_iff {callhelp alarmhelp callemer alarmemer callto : Field} :
    Server.emergencySettings m callhelp alarmhelp callemer alarmemer callto = m ↔
      m "callhelp" = some callhelp.value ∧ m "alarmhelp" = some alarmhelp.value ∧
        m "callemer" = some callemer.value ∧ m "alarmemer" = some alarmemer.value ∧
        m "callto" = some callto.value := by
  unfold Server.emergencySettings
  repeat rw [Map.assign_eq_update (by simp)]
  constructor
  · intro h
    -- no key is assigned twice
    refine ⟨?_, ?_, ?_, ?_, ?_⟩ <;> · rw [← h]; simp
  · rintro ⟨h₁, h₂, h₃, h₄, h₅⟩
    simp [← h₁, ← h₂, ← h₃, ← h₄, ← h₅]

theorem button_watched_iff {setting : String} : (s.button setting).watched = s.watched ↔
    s.doorstate = 1 ∧ isOn (s.settings.memory setting) = false := by
  unfold Server.button
  split
  · next h => simp [Server.watched, Server.opendoor, Server.alarmon, h]
  · next h => simp [Server.watched, Server.opendoor, h, eq_comm]

/-- Exactly the harmless requests leave the watched state as it was, whoever sends them. -/
theorem handle_watched_iff {authenticated : Bool} {r : Request} :
    (s.handle authenticated r).1.watched = s.watched ↔ Harmless s r := by
  cases r with
  | addphone phonename phone =>
    simp [Server.handle, Server.addphone, Server.watched, Harmless, Map.assign_eq_self_iff]
  | delphone phone =>
    simp [Server.handle, Server.delphone, Server.watched, Harmless, Map.delete_eq_self_iff]
  | newbt newbt =>
    simp [Server.handle, Server.newbt, Server.watched, Harmless, Map.assign_eq_self_iff]
  | delbt btrem =>
    simp [Server.handle, Server.delbt, Server.watched, Harmless, Map.delete_eq_self_iff]
  | setemer callhelp alarmhelp callemer alarmemer callto =>
    simp [Server.handle, Server.setemer, Server.watched, Harmless, emergencySettings_eq_self_iff]
  | setbt btopen =>
    simp [Server.handle, Server.setbt, Server.watched, Harmless, Map.assign_eq_self_iff, Map.Keeps]
  | updatememos data lastupdate =>
    cases data with
    | none => simp [Server.handle, Harmless]
    | some memos => simp [Server.handle, Server.updatememos, Server.watched, Harmless, eq_comm]
  | ledon => simp [Server.handle, Server.opendoor, Server.watched, Harmless, eq_comm]
  | ledoff =>
    simp [Server.handle, Server.closedoor, Server.alarmoff, Server.watched, Harmless,
      eq_comm (a := 0), eq_comm (a := false)]
  | helpbut => exact button_watched_iff
  | emerbut => exact button_watched_iff
  | login username password => simp [Server.handle, Harmless]
  | lastupdate => simp [Server.handle, Harmless]
  | index => simp [Server.handle, Harmless]
  | status => simp [Server.handle, Harmless]
  | other => simp [Server.handle, Harmless]

/-! ## The sessions -/

/-- The login route accepts the request. -/
def Request.passes : Request → Bool
  | .login username password => Router.login username password = .redirect "/"
  | _ => false

namespace Sessions

structure State (S : Type) where
  server : Server
  /-- The mark `isAuthenticated` reads. -/
  loggedIn : S → Bool

inductive Action (S : Type) where
  | request (session : S) (r : Request)
  | ended (session : S)
  | timeout
  | read (f : File)
  | written (f : File) (i : Nat)

variable {S : Type} [DecidableEq S]

/-- The program has started on the files of `disk`. -/
def State.start (disk : Disk) : State S where
  server := .start disk
  loggedIn _ := false

/-- A step of the server that belongs to no request. -/
def State.background (t : State S) (e : Event) : Option (State S) :=
  (t.server.step e).map fun server => { t with server := server }

def step (t : State S) : Action S → Option (State S)
  | .request session r =>
      some { server := (t.server.handle (t.loggedIn session) r).1
             loggedIn := if r.passes then Function.update t.loggedIn session true else t.loggedIn }
  | .ended session => some { t with loggedIn := Function.update t.loggedIn session false }
  | .timeout => t.background .timeout
  | .read f => t.background (.read f)
  | .written f i => t.background (.written f i)

/-- After `as`, the session has passed the login and has not ended since. -/
def LoggedIn (as : List (Action S)) (session : S) : Prop :=
  ∃ pre r post, as = pre ++ .request session r :: post ∧ r.passes ∧ .ended session ∉ post

variable {disk : Disk} {as pre : List (Action S)} {a : Action S} {session : S} {t t' : State S}

omit [DecidableEq S] in
theorem not_loggedIn_nil : ¬ LoggedIn [] session := by
  rintro ⟨pre, r, post, h, -⟩
  simp at h

omit [DecidableEq S] in
theorem loggedIn_concat_iff : LoggedIn (as ++ [a]) session ↔
    (∃ r, a = .request session r ∧ r.passes) ∨ LoggedIn as session ∧ a ≠ .ended session := by
  constructor
  · rintro ⟨pre, r, post, h, hr, hpost⟩
    rcases List.eq_nil_or_concat post with rfl | ⟨post, b, rfl⟩
    · obtain ⟨-, ha⟩ := List.append_inj' h rfl
      exact .inl ⟨r, List.singleton_inj.mp ha, hr⟩
    · rw [List.concat_eq_append, ← List.cons_append, ← List.append_assoc] at h
      obtain ⟨has, hb⟩ := List.append_inj' h rfl
      obtain rfl := List.singleton_inj.mp hb
      simp only [List.concat_eq_append, List.mem_append, List.mem_singleton, not_or] at hpost
      exact .inr ⟨⟨pre, r, post, has, hr, hpost.1⟩, Ne.symm hpost.2⟩
  · rintro (⟨r, rfl, hr⟩ | ⟨⟨pre, r, post, rfl, hr, hpost⟩, ha⟩)
    · exact ⟨as, r, [], rfl, hr, by simp⟩
    · refine ⟨pre, r, post ++ [a], by simp, hr, ?_⟩
      simp [hpost, Ne.symm ha]

omit [DecidableEq S] in
theorem background_loggedIn {e : Event} (h : t.background e = some t') :
    t'.loggedIn = t.loggedIn := by
  obtain ⟨server, -, rfl⟩ := Option.map_eq_some_iff.mp h
  rfl

/-- How a step changes the mark of a session. -/
theorem step_loggedIn (h : step t a = some t') : t'.loggedIn session ↔
    (∃ r, a = .request session r ∧ r.passes) ∨ t.loggedIn session ∧ a ≠ .ended session := by
  cases a with
  | request session' r =>
    obtain rfl := Option.some.inj h
    by_cases hr : r.passes
    · by_cases hs : session = session'
      · simp [hr, hs]
      · simp [hr, hs, Ne.symm hs]
    · simp [hr]
  | ended session' =>
    obtain rfl := Option.some.inj h
    by_cases hs : session = session'
    · simp [hs]
    · simp [hs, Ne.symm hs]
  | timeout => simp [background_loggedIn h]
  | read f => simp [background_loggedIn h]
  | written f i => simp [background_loggedIn h]

/-- The mark of a session says that it is logged in. -/
theorem loggedIn_iff (hrun : run step (State.start disk) as = some t) :
    t.loggedIn session ↔ LoggedIn as session := by
  refine run_induction (I := fun as t => t.loggedIn session ↔ LoggedIn as session) ?_ ?_ hrun
  · simp [State.start, not_loggedIn_nil]
  · intro as t a t' _ ih h
    rw [step_loggedIn h, loggedIn_concat_iff, ih]

/-- The page at `/` knows whether its session is logged in. -/
theorem index_isAuthtenticated_iff (hrun : run step (State.start disk) as = some t) :
    (t.server.handle (t.loggedIn session) .index).2 = .render true ↔ LoggedIn as session := by
  rw [← loggedIn_iff hrun]
  simp [Server.handle]

/-! ## Who changes the watched state -/

/-- Every request of the run that changes the watched state is of a session that
is logged in. -/
def OnlyLoggedIn (disk : Disk) (as : List (Action S)) : Prop :=
  ∀ pre session r post t, as = pre ++ .request session r :: post →
    run step (State.start disk) pre = some t →
    (t.server.handle (t.loggedIn session) r).1.watched ≠ t.server.watched → LoggedIn pre session

/-- The routes do not ask for the session: only logged-in sessions change the watched
state in a run if and only if the others send it nothing but harmless requests. -/
theorem only_logged_in_iff (disk : Disk) (as : List (Action S)) :
    OnlyLoggedIn disk as ↔
      ∀ pre session r post t, as = pre ++ .request session r :: post →
        run step (State.start disk) pre = some t → ¬ LoggedIn pre session →
        Harmless t.server r := by
  constructor
  · intro honly pre session r post t has hrun hnot
    by_contra hharm
    exact hnot (honly pre session r post t has hrun fun heq => hharm (handle_watched_iff.mp heq))
  · intro hharm pre session r post t has hrun hne
    by_contra hnot
    exact hne (handle_watched_iff.mpr (hharm pre session r post t has hrun hnot))

/-- A session that has never logged in opens the door. -/
theorem opened_without_login :
    ∃ t, run step (State.start ⟨.missing, .missing, .missing, .missing, .missing⟩)
        [Action.request "guest" .ledon] = some t ∧ t.server.doorstate = 1 ∧
      ¬ OnlyLoggedIn ⟨.missing, .missing, .missing, .missing, .missing⟩
        [Action.request "guest" .ledon] := by
  refine ⟨_, rfl, rfl, fun honly => ?_⟩
  refine not_loggedIn_nil (honly [] "guest" .ledon [] _ rfl rfl fun heq => ?_)
  have hstate := congrArg Watched.doorstate heq
  cases hstate

end Sessions

end SmartDoor.Router
