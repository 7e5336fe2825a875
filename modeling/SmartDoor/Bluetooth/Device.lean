-- SUMMARY: The keep-alive service and the alarm device over two lossy byte channels.
import SmartDoor.Base.Transition
import SmartDoor.Bluetooth.KeepAlive

/-!
# The service and the device

The device handles bytes in order: '1' and '0' set its alarm and are echoed, '3'
is answered by the state of the alarm. Both channels keep the order and may lose
any byte.
-/

namespace SmartDoor.Bluetooth

/-- The service with the bytes it has sent in `app.port`, the device's alarm,
and the bytes on their way back. -/
structure Link (K : Type) where
  app : KeepAlive K
  device : Mode
  back : List Char
  deriving DecidableEq, Repr

/-- A move of the service, of the device, or of the channels. -/
inductive LinkAction (K : Type) where
  | request (socket : K) (text : String)
  | tick
  /-- The device handles the next byte. -/
  | device
  /-- The next byte reaches the service. -/
  | deliver
  /-- The `i`th byte on its way to the device is lost. -/
  | loseForth (i : Nat)
  /-- The `i`th byte on its way back is lost. -/
  | loseBack (i : Nat)
  deriving DecidableEq, Repr

variable {K : Type}

/-- The device's alarm and its answer after the byte `c`. -/
def respond (alarm : Mode) (c : Char) : Mode × List Char :=
  if c = '1' then (.On, ['1'])
  else if c = '0' then (.Off, ['0'])
  else if c = '3' then (alarm, [match alarm with | .On => '5' | .Off => '4'])
  else (alarm, [])

def Link.step (s : Link K) : LinkAction K → Option (Link K)
  | .request socket text => some { s with app := s.app.onRequest socket text }
  | .tick => some { s with app := s.app.tick }
  | .device =>
    match s.app.port with
    | [] => none
    | c :: port => some {
        app := { s.app with port := port }
        device := (respond s.device c).1
        back := s.back ++ (respond s.device c).2 }
  | .deliver =>
    match s.back with
    | [] => none
    | c :: back => some { s with app := s.app.onData [c], back := back }
  | .loseForth i =>
    if i < s.app.port.length then
      some { s with app := { s.app with port := s.app.port.eraseIdx i } }
    else none
  | .loseBack i =>
    if i < s.back.length then some { s with back := s.back.eraseIdx i } else none

/-- Nothing has been sent; the device's alarm is in some mode. -/
def Link.init (device : Mode) : Link K := ⟨.init, device, []⟩

/-- The mode that a request of port 6007 asks for. -/
def LinkAction.mode? : LinkAction K → Option Mode
  | .request _ text => if text = "On" then some .On else if text = "Off" then some .Off else none
  | _ => none

/-- The mode of the last request of a run. -/
def lastRequest (as : List (LinkAction K)) : Option Mode := (as.filterMap LinkAction.mode?).getLast?

/-! ## The bytes that count -/

theorem mode?_request (socket : K) (text : String) :
    (∃ m : Mode, text = m.text ∧ (LinkAction.request socket text).mode? = some m) ∨
    ((∀ m : Mode, text ≠ m.text) ∧ (LinkAction.request socket text).mode? = none) := by
  by_cases hon : text = "On"
  · exact .inl ⟨.On, hon, by simp [LinkAction.mode?, hon]⟩
  · by_cases hoff : text = "Off"
    · exact .inl ⟨.Off, hoff, by simp [LinkAction.mode?, hoff]⟩
    · exact .inr ⟨fun m => by cases m <;> assumption, by simp [LinkAction.mode?, hon, hoff]⟩

theorem respond_byte (alarm m : Mode) : respond alarm m.byte = (m, [m.byte]) := by
  cases m <;> simp [respond, Mode.byte]

/-- A byte that sets no mode leaves the alarm alone and is not answered by an echo. -/
theorem respond_of_ne_byte {alarm : Mode} {c : Char} (h : ∀ m : Mode, c ≠ m.byte) :
    (respond alarm c).1 = alarm ∧ ∀ m : Mode, m.byte ∉ (respond alarm c).2 := by
  have h1 : c ≠ '1' := h .On
  have h0 : c ≠ '0' := h .Off
  simp only [respond, h1, h0, if_false]
  split
  · refine ⟨rfl, fun m => ?_⟩
    cases alarm <;> cases m <;> simp [Mode.byte]
  · exact ⟨rfl, fun m => by simp⟩

theorem three_ne_byte (m : Mode) : m.byte ≠ '3' := by cases m <;> decide

/-! ## Each handler -/

theorem tick_frame (app : KeepAlive K) :
    app.tick.btdata = app.btdata ∧ app.tick.btwait = app.btwait ∧
    app.tick.port = app.port ++ ((if app.btwait then app.btdata else []) ++ ['3']) := by
  simp only [KeepAlive.tick, apply_ite KeepAlive.btdata, apply_ite KeepAlive.btwait,
    apply_ite KeepAlive.port, ite_self, true_and]
  split <;> simp

/-- One byte either leaves the wait alone or is the awaited echo and ends it. -/
theorem onData_singleton (app : KeepAlive K) (c : Char) :
    (app.onData [c]).btdata = app.btdata ∧ (app.onData [c]).port = app.port ∧
    ((app.onData [c]).btwait = app.btwait ∨
      app.btwait = true ∧ app.btdata = [c] ∧ (app.onData [c]).btwait = false) := by
  by_cases hm : ∃ m : Mode, c = m.byte
  · obtain ⟨m, rfl⟩ := hm
    rw [KeepAlive.onData_byte]
    split
    · next h =>
      obtain ⟨hwait, hdata, hport⟩ := app.ack_frame m
      exact ⟨hdata, hport, .inr ⟨h.1, h.2, hwait⟩⟩
    · exact ⟨rfl, rfl, .inl rfl⟩
  · by_cases h4 : c = '4'
    · simp [h4, KeepAlive.onData_four, KeepAlive.pong]
    · by_cases h5 : c = '5'
      · simp [h5, KeepAlive.onData_five, KeepAlive.pong]
      · rw [KeepAlive.onData_other app (by simpa using h4) (by simpa using h5)
          (fun m => by simpa using fun h => hm ⟨m, h⟩)]
        exact ⟨rfl, rfl, .inl rfl⟩

/-! ## Each step -/

/-- What a step from `s` does: the action with what it found, and the state after it. -/
inductive Link.Move (s : Link K) : LinkAction K → Link K → Prop where
  | request (socket : K) (text : String) :
    s.Move (.request socket text) { s with app := s.app.onRequest socket text }
  | tick : s.Move .tick { s with app := s.app.tick }
  | device {c : Char} {port : List Char} (hport : s.app.port = c :: port) :
    s.Move .device {
      app := { s.app with port := port }
      device := (respond s.device c).1
      back := s.back ++ (respond s.device c).2 }
  | deliver {c : Char} {back : List Char} (hback : s.back = c :: back) :
    s.Move .deliver { s with app := s.app.onData [c], back := back }
  | loseForth (i : Nat) :
    s.Move (.loseForth i) { s with app := { s.app with port := s.app.port.eraseIdx i } }
  | loseBack (i : Nat) : s.Move (.loseBack i) { s with back := s.back.eraseIdx i }

theorem move_of_step {s s' : Link K} {a : LinkAction K} (hstep : s.step a = some s') :
    s.Move a s' := by
  cases a with
  | request socket text =>
    obtain rfl : _ = s' := Option.some.inj hstep
    exact .request socket text
  | tick =>
    obtain rfl : _ = s' := Option.some.inj hstep
    exact .tick
  | device =>
    simp only [Link.step] at hstep
    split at hstep
    · cases hstep
    · next c port hport =>
      obtain rfl : _ = s' := Option.some.inj hstep
      exact .device hport
  | deliver =>
    simp only [Link.step] at hstep
    split at hstep
    · cases hstep
    · next c back hback =>
      obtain rfl : _ = s' := Option.some.inj hstep
      exact .deliver hback
  | loseForth i =>
    simp only [Link.step] at hstep
    split at hstep
    · obtain rfl : _ = s' := Option.some.inj hstep
      exact .loseForth i
    · cases hstep
  | loseBack i =>
    simp only [Link.step] at hstep
    split at hstep
    · obtain rfl : _ = s' := Option.some.inj hstep
      exact .loseBack i
    · cases hstep

/-! ## The last request -/

theorem btdata_of_step {s s' : Link K} {a : LinkAction K} (hstep : s.step a = some s') :
    s'.app.btdata = a.mode?.elim s.app.btdata fun m => [m.byte] := by
  cases move_of_step hstep with
  | request socket text =>
    rcases mode?_request socket text with ⟨m, rfl, hmode⟩ | ⟨hne, hmode⟩
    · simp [hmode]
    · simp [hmode, KeepAlive.onRequest_of_ne_text socket hne]
  | tick => exact (tick_frame s.app).1
  | deliver hback => exact (onData_singleton s.app _).1
  | device hport => rfl
  | loseForth i => rfl
  | loseBack i => rfl

theorem lastRequest_cons (a : LinkAction K) (as : List (LinkAction K)) :
    lastRequest (a :: as) = (lastRequest as).or a.mode? := by
  unfold lastRequest
  cases h : a.mode? with
  | none => simp [h]
  | some m => cases hl : as.filterMap LinkAction.mode? <;> simp [h, hl, List.getLast?_cons]

/-- The service expects the byte of the last request of the run. -/
theorem btdata_of_run {s t : Link K} {as : List (LinkAction K)}
    (h : Transition.run Link.step s as = some t) :
    t.app.btdata = (lastRequest as).elim s.app.btdata fun m => [m.byte] := by
  induction as generalizing s with
  | nil =>
    obtain rfl : s = t := by simpa using h
    rfl
  | cons a as ih =>
    obtain ⟨s', ha, hrest⟩ := Transition.run_cons_eq_some.mp h
    rw [ih hrest, btdata_of_step ha, lastRequest_cons]
    cases lastRequest as <;> simp

end SmartDoor.Bluetooth
