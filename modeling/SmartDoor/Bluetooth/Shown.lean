-- SUMMARY: The alarm's state that the service publishes: the device's own states in order, each at most late.
import SmartDoor.Base.Samples
import SmartDoor.Bluetooth.Chunking
import SmartDoor.Bluetooth.Device

/-!
# What the service shows of the alarm

The child `alarm` is written when a pong arrives and when an awaited echo does. An
echo may belong to an older request than the one it is taken for, and any byte may
be lost, so what is shown may be wrong at the moment it is written. But it was right
when the byte was sent, and what is shown later was right later.
-/

namespace SmartDoor.Bluetooth

open Transition

variable {K : Type} {s s' t : Link K}

/-- The mode of the alarm that a byte from the device reports. -/
def reported (c : Char) : Option Mode :=
  if c = '5' ∨ c = '1' then some .On else if c = '4' ∨ c = '0' then some .Off else none

/-- The device's alarm and the child of the database that shows it. -/
def panel : Display (Link K) Char Mode where
  value := Link.device
  channel := Link.back
  carries := reported
  shown s := s.app.alarm

theorem reported_of_mem_respond {alarm m : Mode} {c d : Char} (hd : d ∈ (respond alarm c).2)
    (hm : reported d = some m) : (respond alarm c).1 = m := by
  unfold respond at hd ⊢
  split at hd
  · next hc =>
    obtain rfl := List.mem_singleton.mp hd
    simpa [hc, reported] using hm
  · split at hd
    · next hc =>
      obtain rfl := List.mem_singleton.mp hd
      simpa [hc, reported] using hm
    · split at hd
      · next hc =>
        obtain rfl := List.mem_singleton.mp hd
        cases alarm <;> simpa [hc, reported] using hm
      · cases hd

/-- A byte changes what is shown to the mode it reports, or leaves it. -/
theorem alarm_onData (app : KeepAlive K) (c : Char) :
    (app.onData [c]).alarm = app.alarm ∨
      ∃ m, reported c = some m ∧ (app.onData [c]).alarm = some m := by
  obtain ⟨m, hm⟩ | ⟨m, rfl⟩ | ⟨hp, hb⟩ := isPong_cases c
  · right
    rw [onData_of_isPong app hm]
    refine ⟨m, ?_, rfl⟩
    cases m <;> (obtain rfl := hm; rfl)
  · rw [app.onData_byte]
    split
    · right
      refine ⟨m, by cases m <;> rfl, ?_⟩
      unfold KeepAlive.ack KeepAlive.answer
      split <;> rfl
    · exact .inl rfl
  · rw [onData_of_not app hp hb]
    exact .inl rfl

theorem alarm_tick (app : KeepAlive K) : app.tick.alarm = app.alarm := by
  simp only [KeepAlive.tick, apply_ite KeepAlive.alarm, ite_self]

theorem panel_moves {a : LinkAction K} (hstep : s.step a = some s') : panel.Moves s s' := by
  have hsame : ∀ u : Link K, u.back.Sublist s.back → u.app.alarm = s.app.alarm →
      panel.Moves s u := by
    intro u hback halarm
    exact .send [] (by rw [List.append_nil]; exact hback) (by simp) halarm
  cases move_of_step hstep with
  | request socket text =>
    refine hsame _ (List.Sublist.refl _) ?_
    simp only [KeepAlive.onRequest, apply_ite KeepAlive.alarm, ite_self]
  | tick => exact hsame _ (List.Sublist.refl _) (alarm_tick s.app)
  | device hport =>
    exact .send _ (List.Sublist.refl _) (fun _ hd _ hm => reported_of_mem_respond hd hm) rfl
  | deliver hback => exact .take hback rfl (alarm_onData s.app _)
  | loseForth i => exact hsame _ (List.Sublist.refl _) rfl
  | loseBack i => exact hsame _ (List.eraseIdx_sublist _ i) rfl

/-- In every run, whatever the channels lose and whoever makes requests, the state of the
alarm that is published at each moment is one that the device had at an earlier moment of
the run, and these moments never go back. -/
theorem alarm_sampled {d : Mode} {as : List (LinkAction K)}
    (hrun : Transition.run Link.step (.init d) as = some t) :
    ∃ f : Nat → Nat, Monotone f ∧ ∀ n s m, Transition.run Link.step (.init d) (as.take n) = some s →
      s.app.alarm = some m → f n ≤ n ∧
        ∃ s', Transition.run Link.step (.init d) (as.take (f n)) = some s' ∧ s'.device = m := by
  obtain ⟨f, hf⟩ := panel.exists_sampled (fun _ _ _ => panel_moves) (s := Link.init d) rfl rfl hrun
  exact ⟨f, hf.mono, fun n s m hs hm => ⟨(hf.past n).1, hf.shown n s m hs hm⟩⟩

/-- The echo of the first request ends the wait for the third: the published state is the
one of a while ago. -/
def thirdAcknowledged : List (LinkAction Unit) :=
  [.request () "On", .device, .request () "Off", .device, .request () "On", .deliver]

theorem alarm_sampled_thirdAcknowledged :
    ∃ t, Transition.run Link.step (.init .Off) thirdAcknowledged = some t ∧
      t.app.alarm = some .On ∧ t.device = .Off ∧
      ∃ n ≤ 6, ∃ s, Transition.run Link.step (.init .Off) (thirdAcknowledged.take n) = some s ∧
        s.device = .On := by
  obtain ⟨t, hrun, halarm, hdevice⟩ : ∃ t, Transition.run Link.step (.init .Off) thirdAcknowledged
      = some t ∧ t.app.alarm = some .On ∧ t.device = .Off := ⟨_, rfl, rfl, rfl⟩
  obtain ⟨f, -, hf⟩ := alarm_sampled hrun
  obtain ⟨hpast, hwas⟩ := hf 6 t .On hrun halarm
  exact ⟨t, hrun, halarm, hdevice, f 6, hpast, hwas⟩

end SmartDoor.Bluetooth
