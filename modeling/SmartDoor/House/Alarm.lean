-- SUMMARY: The alarm device is never switched unasked, and no client of the alarm server is told a mode that it did not ask for.
import SmartDoor.Bluetooth.Answers
import SmartDoor.Bluetooth.Recovery
import SmartDoor.House.Origin

/-!
# Where the alarm's bytes come from

The alarm server takes what it reads as one request, whatever part of the stream
that is; it remembers the last one in `btdata` and `socketwrite` and sends its
byte again and again. The serial port may bring any bytes at any time.
-/

namespace SmartDoor.House

open Online Bluetooth

variable {C : Type} [DecidableEq C] {S : Setting C} {h h' : State C}

/-- The command that sets the alarm to the mode. -/
def alarmCommand : Mode → Command
  | .On => .Emergency
  | .Off => .AlarmOff

/-- The client of the `k`th connection asks the alarm server for `m`. -/
def AsksAt (h : State C) (k : Nat) (m : Mode) : Prop :=
  ∃ c i r, h.connections[k]? = some c ∧ c.opener = .call i ∧
    h.online.sockets.requests[i]? = some r ∧ r.service = .Alarm ∧ r.mode = m.text

/-- What the alarm server has sent, expects and has answered. -/
structure AlarmInv (h : State C) : Prop where
  port : ∀ x ∈ h.alarm.port, x = '3' ∨ ∃ m k, x = m.byte ∧ AsksAt h k m
  expected : h.alarm.btdata = [] ∨
    ∃ m k, h.alarm.btdata = [m.byte] ∧ h.alarm.socketwrite = some k ∧ AsksAt h k m
  answers : ∀ r ∈ h.alarm.answers, ∃ m, AsksAt h r.1 m ∧ r.2 = m.text

/-! ## The steps of the house -/

omit [DecidableEq C] in
theorem AsksAt.mono {k : Nat} {m : Mode} (hk : AsksAt h k m)
    (hconnections : h.connections <+: h'.connections)
    (hrequests : h.online.sockets.requests <+: h'.online.sockets.requests) : AsksAt h' k m := by
  obtain ⟨c, i, r, hc, hopener, hr, hrest⟩ := hk
  exact ⟨c, i, r, Lists.getElem?_of_prefix hconnections hc, hopener,
    Lists.getElem?_of_prefix hrequests hr, hrest⟩

omit [DecidableEq C] in
theorem AlarmInv.mono (halarm : AlarmInv h) (hconnections : h.connections <+: h'.connections)
    (hrequests : h.online.sockets.requests <+: h'.online.sockets.requests)
    (heq : h'.alarm = h.alarm) : AlarmInv h' := by
  have hmono : ∀ {k m}, AsksAt h k m → AsksAt h' k m := fun hk => hk.mono hconnections hrequests
  refine ⟨fun x hx => ?_, ?_, fun r hr => ?_⟩
  · rw [heq] at hx
    exact (halarm.port x hx).imp id fun ⟨m, k, hm, hk⟩ => ⟨m, k, hm, hmono hk⟩
  · rw [heq]
    exact halarm.expected.imp id fun ⟨m, k, hm, hsocket, hk⟩ => ⟨m, k, hm, hsocket, hmono hk⟩
  · rw [heq] at hr
    obtain ⟨m, hk, htext⟩ := halarm.answers r hr
    exact ⟨m, hmono hk, htext⟩

/-- What a step of the house does to the alarm server. -/
inductive AlarmMove (h h' : State C) : Prop where
  | same (heq : h'.alarm = h.alarm)
  | request {k : Nat} {c : Connection} {text : String} (hk : h.connections[k]? = some c)
    (hservice : c.service = .Alarm) (hsent : text.toList ⊆ c.sent)
    (heq : h'.alarm = h.alarm.onRequest k text)
  | data {chunk : List Char} (heq : h'.alarm = h.alarm.onData chunk)
  | tick (heq : h'.alarm = h.alarm.tick)

theorem alarmMove_of_step {a : House.Action C} (hstep : h.step S a = some h') :
    AlarmMove h h' ∧ h.connections <+: h'.connections ∧
      h.online.sockets.requests <+: h'.online.sockets.requests := by
  cases a with
  | online a =>
    obtain ⟨online, honline, rfl⟩ := Option.map_eq_some_iff.mp hstep
    exact ⟨.same rfl, List.prefix_append _ _, requests_prefix_of_step honline⟩
  | knock s =>
    obtain rfl : _ = h' := Option.some.inj hstep
    exact ⟨.same rfl, List.prefix_refl _, List.prefix_refl _⟩
  | serial data =>
    obtain rfl : _ = h' := Option.some.inj hstep
    exact ⟨.data rfl, List.prefix_refl _, List.prefix_refl _⟩
  | interval =>
    obtain rfl : _ = h' := Option.some.inj hstep
    exact ⟨.tick rfl, List.prefix_refl _, List.prefix_refl _⟩
  | record =>
    simp only [State.step] at hstep
    split at hstep
    · obtain rfl : _ = h' := Option.some.inj hstep
      exact ⟨.same rfl, List.prefix_refl _, List.prefix_refl _⟩
    · cases hstep
  | recognized result =>
    simp only [State.step] at hstep
    split at hstep
    · obtain rfl : _ = h' := Option.some.inj hstep
      exact ⟨.same rfl, List.prefix_append _ _, List.prefix_refl _⟩
    · cases hstep
  | bytes k n =>
    simp only [State.step] at hstep
    split at hstep
    · next c hk =>
      split at hstep
      · unfold State.receive at hstep
        split at hstep
        · obtain ⟨motor, -, rfl⟩ := Option.map_eq_some_iff.mp hstep
          exact ⟨.same rfl, List.prefix_refl _, List.prefix_refl _⟩
        · next hservice =>
          obtain rfl : _ = h' := Option.some.inj hstep
          refine ⟨.request hk hservice ?_ rfl, List.prefix_refl _, List.prefix_refl _⟩
          rw [String.toList_ofList]
          exact List.Subset.trans (List.take_subset _ _) (List.drop_subset _ _)
      · cases hstep
    · cases hstep
  | motor a =>
    cases a with
    | arrive socket text => cases hstep
    | data | exec =>
      obtain ⟨motor, -, rfl⟩ := Option.map_eq_some_iff.mp hstep
      exact ⟨.same rfl, List.prefix_refl _, List.prefix_refl _⟩

/-! ## The handlers of the alarm server -/

/-- What the calls to the alarm ask for. -/
theorem alarm_args {cfg : DoorConfig} {command : Command} {r : Request}
    (hr : r.args ∈ applied cfg command) (hservice : r.service = .Alarm) :
    ∃ m : Mode, r.mode = m.text ∧ command = alarmCommand m := by
  have hmem := mem_applied hr
  rw [hservice] at hmem
  cases command with
  | Lock | Unlock => simp [branch] at hmem
  | AlarmOff =>
    obtain ⟨-, hmode, -⟩ : cfg.alarmService = true ∧ r.mode = "Off" ∧ r.emergency = true := by
      simpa [branch] using hmem
    exact ⟨.Off, hmode, rfl⟩
  | Emergency =>
    obtain ⟨-, hmode, -⟩ : cfg.alarmService = true ∧ r.mode = "On" ∧ r.emergency = true := by
      simpa [branch] using hmem
    exact ⟨.On, hmode, rfl⟩

/-- A client of the alarm server asks for one mode, and writes only this mode's text. -/
theorem Inv.asksAt (hinv : Inv S h) {k : Nat} {c : Connection} (hk : h.connections[k]? = some c)
    (hservice : c.service = .Alarm) : ∃ m, AsksAt h k m ∧ c.sent ⊆ m.text.toList := by
  have hbacked := hinv.backed c (List.mem_of_getElem? hk)
  unfold Connection.Backed at hbacked
  split at hbacked
  · next i hi =>
    obtain ⟨r, n, hr, hrservice, hsent, -⟩ := hbacked
    have halarm : r.service = .Alarm := hrservice ▸ hservice
    obtain ⟨call, hcall, rfl⟩ := Option.map_eq_some_iff.mp
      (hr.symm.trans List.getElem?_map).symm
    obtain ⟨command, -, hargs⟩ := hinv.online.origin hcall
    obtain ⟨m, hmode, -⟩ := alarm_args hargs halarm
    refine ⟨m, ⟨c, i, _, hk, hi, hr, halarm, hmode⟩, fun x hx => ?_⟩
    rw [hsent, hmode, List.mem_flatten] at hx
    obtain ⟨l, hl, hxl⟩ := hx
    rwa [List.eq_of_mem_replicate hl] at hxl
  · rw [hservice] at hbacked
    cases hbacked.1

theorem Mode.eq_of_subset {m m' : Mode} (hm : m.text.toList ⊆ m'.text.toList) : m = m' := by
  cases m <;> cases m' <;> first | rfl | exact absurd hm (by decide)

omit [DecidableEq C] in
theorem AlarmInv.onRequest (halarm : AlarmInv h) {k : Nat} {m : Mode} {text : String}
    (hk : AsksAt h k m) (htext : text.toList ⊆ m.text.toList) :
    AlarmInv { h with alarm := h.alarm.onRequest k text } := by
  by_cases hmode : ∃ m' : Mode, text = m'.text
  · obtain ⟨m', rfl⟩ := hmode
    obtain rfl := Mode.eq_of_subset htext
    rw [KeepAlive.onRequest_text]
    refine ⟨fun x hx => ?_, .inr ⟨m', k, rfl, rfl, hk⟩, halarm.answers⟩
    rcases List.mem_append.mp hx with hx | hx
    · exact halarm.port x hx
    · exact .inr ⟨m', k, List.mem_singleton.mp hx, hk⟩
  · rw [KeepAlive.onRequest_of_ne_text k fun m' heq => hmode ⟨m', heq⟩]
    refine ⟨halarm.port, halarm.expected, fun r hr => halarm.answers r ?_⟩
    simpa [KeepAlive.answers] using hr

omit [DecidableEq C] in
/-- An echo is answered with the mode that the remembered client has asked for. -/
theorem AlarmInv.onData (halarm : AlarmInv h) (chunk : List Char) :
    AlarmInv { h with alarm := h.alarm.onData chunk } := by
  obtain ⟨hport, hdata⟩ := h.alarm.onData_frame chunk
  have hsent : ∀ x ∈ (h.alarm.onData chunk).port, x = '3' ∨ ∃ m k, x = m.byte ∧ AsksAt h k m := by
    rw [hport]
    exact halarm.port
  obtain ⟨m, -, hbyte, hack⟩ | hsame := onData_cases h.alarm chunk
  · obtain ⟨m', k, hm', hsocket, hk⟩ : ∃ m k, h.alarm.btdata = [m.byte] ∧
        h.alarm.socketwrite = some k ∧ AsksAt h k m := by
      simpa [hbyte] using halarm.expected
    obtain rfl : m = m' := Mode.byte_injective (by simpa [hbyte] using hm')
    have hwrite : (h.alarm.ack m).socketwrite = some k := by
      simp [KeepAlive.ack, KeepAlive.answer, hsocket]
    refine ⟨hsent, .inr ⟨m, k, hdata.trans hbyte, by rw [hack]; exact hwrite, hk⟩, fun r hr => ?_⟩
    rw [hack, answers_ack m hsocket] at hr
    rcases List.mem_append.mp hr with hr | hr
    · exact halarm.answers r hr
    · obtain rfl := List.mem_singleton.mp hr
      exact ⟨m, hk, rfl⟩
  · refine ⟨hsent, ?_, ?_⟩
    · rw [hdata, hsame.socketwrite]
      exact halarm.expected
    · rw [hsame.answers]
      exact halarm.answers

omit [DecidableEq C] in
theorem AlarmInv.tick (halarm : AlarmInv h) : AlarmInv { h with alarm := h.alarm.tick } := by
  obtain ⟨hdata, -, hport⟩ := tick_frame h.alarm
  have hsame := tick_sameWait h.alarm
  refine ⟨fun x hx => ?_, ?_, ?_⟩
  · rw [hport] at hx
    rcases List.mem_append.mp hx with hx | hx
    · exact halarm.port x hx
    rcases List.mem_append.mp hx with hx | hx
    · -- the byte of the last request is written again
      rcases halarm.expected with hnone | ⟨m, k, hbyte, -, hk⟩
      · simp [hnone] at hx
      · split at hx
        · rw [hbyte, List.mem_singleton] at hx
          exact .inr ⟨m, k, hx, hk⟩
        · cases hx
    · exact .inl (List.mem_singleton.mp hx)
  · rw [hdata, hsame.socketwrite]
    exact halarm.expected
  · rw [hsame.answers]
    exact halarm.answers

/-! ## Every run -/

theorem AlarmInv.step {a : House.Action C} (hinv : Inv S h) (halarm : AlarmInv h)
    (hstep : h.step S a = some h') : AlarmInv h' := by
  obtain ⟨hmove, hconnections, hrequests⟩ := alarmMove_of_step hstep
  cases hmove with
  | same heq => exact halarm.mono hconnections hrequests heq
  | request hk hservice hsent heq =>
    obtain ⟨m, hasks, hsub⟩ := hinv.asksAt hk hservice
    exact (halarm.onRequest hasks (List.Subset.trans hsent hsub)).mono hconnections hrequests heq
  | data heq => exact (halarm.onData _).mono hconnections hrequests heq
  | tick heq => exact halarm.tick.mono hconnections hrequests heq

theorem alarmInv_of_run {reading : Int} {as : List (House.Action C)}
    (hrun : Transition.run (State.step S) (.init S.cfg reading) as = some h) : AlarmInv h := by
  have hboth : Inv S h ∧ AlarmInv h := by
    refine Transition.run_invariant (I := fun h => Inv S h ∧ AlarmInv h)
      (fun _ _ _ hinv hstep => ⟨hinv.1.step hstep, .step hinv.1 hinv.2 hstep⟩) ⟨.init, ?_⟩ hrun
    exact ⟨by simp [State.init, KeepAlive.init], .inl rfl,
      by simp [State.init, KeepAlive.init, KeepAlive.answers]⟩
  exact hboth.2

theorem Inv.wrote_of_asksAt (hinv : Inv S h) {k : Nat} {m : Mode} (hk : AsksAt h k m) :
    ∃ i c, h.connections[k]? = some c ∧ c.opener.cause h = .command i ∧
      Wrote h i (alarmCommand m) := by
  obtain ⟨c, i, r, hc, hopener, hr, hservice, hmode⟩ := hk
  obtain ⟨call, hcall, rfl⟩ := Option.map_eq_some_iff.mp (hr.symm.trans List.getElem?_map).symm
  obtain ⟨command, hwrote, hargs⟩ := hinv.online.origin hcall
  obtain ⟨m', hmode', rfl⟩ := alarm_args hargs hservice
  obtain rfl := Mode.text_injective (hmode.symm.trans hmode')
  exact ⟨_, c, hc, by rw [hopener]; rfl, hwrote⟩

/-- In every reachable state of the house, whatever the device sends and however the
network cuts the messages, each byte that the alarm server has written is a ping or the
byte of a command that somebody wrote, `Emergency` for the alarm and `AlarmOff` for its
end; and a client that is not told "Error, bad command" is told the mode of the command
that made it connect. -/
theorem alarm_caused {reading : Int} {as : List (House.Action C)}
    (hrun : Transition.run (State.step S) (.init S.cfg reading) as = some h) :
    (∀ x ∈ h.alarm.port, x = '3' ∨ ∃ m i, x = m.byte ∧ Wrote h i (alarmCommand m)) ∧
    ∀ k text, (k, text) ∈ h.alarm.replies → text = "Error, bad command" ∨
      ∃ m i c, text = m.text ∧ h.connections[k]? = some c ∧
        c.opener.cause h = .command i ∧ Wrote h i (alarmCommand m) := by
  have hinv := inv_of_run hrun
  have halarm := alarmInv_of_run hrun
  refine ⟨fun x hx => (halarm.port x hx).imp id ?_, fun k text hr => ?_⟩
  · rintro ⟨m, k, hbyte, hk⟩
    obtain ⟨i, -, -, -, hwrote⟩ := hinv.wrote_of_asksAt hk
    exact ⟨m, i, hbyte, hwrote⟩
  · by_cases herror : text = "Error, bad command"
    · exact .inl herror
    · right
      have hanswer : (k, text) ∈ h.alarm.answers := List.mem_filter.mpr ⟨hr, by simpa using herror⟩
      obtain ⟨m, hk, htext⟩ := halarm.answers _ hanswer
      obtain ⟨i, c, hc, hcause, hwrote⟩ := hinv.wrote_of_asksAt hk
      exact ⟨m, i, c, htext, hc, hcause, hwrote⟩

/-- A guest calls an emergency, and its branch makes the two calls. -/
def emergencyOnce : List (Online.Action Unit) :=
  [.writecom () "Emergency", .land 0, .land 0, .skip 0, .skip 0, .deliver] ++
    List.replicate 9 (.exec 5)

/-- The alarm server passes the emergency on twice, and the device answers. -/
def emergencyEchoed : List (House.Action Unit) :=
  emergencyOnce.map (fun a => .online (.node a)) ++
    [.online (.socket (.connected 1)), .bytes 0 2, .interval, .serial ['1']]

theorem alarm_caused_emergencyEchoed :
    ∃ h, Transition.run (State.step ⟨doorconfig, fun _ => "guest", .free, id⟩)
        (.init doorconfig 960) emergencyEchoed = some h ∧ h.alarm.port = ['1', '1', '3'] ∧
      (0, "On") ∈ h.alarm.replies ∧ ∃ m i, '1' = m.byte ∧ Wrote h i (alarmCommand m) := by
  obtain ⟨h, hrun, hport, hreply⟩ : ∃ h, Transition.run
      (State.step ⟨doorconfig, fun _ => "guest", .free, id⟩) (.init doorconfig 960)
        emergencyEchoed = some h ∧ h.alarm.port = ['1', '1', '3'] ∧ h.alarm.replies = [(0, "On")] :=
    ⟨_, rfl, rfl, rfl⟩
  have hmem : '1' ∈ h.alarm.port := by simp [hport]
  exact ⟨h, hrun, hport, by simp [hreply],
    ((alarm_caused hrun).1 '1' hmem).resolve_left (by decide)⟩

end SmartDoor.House
