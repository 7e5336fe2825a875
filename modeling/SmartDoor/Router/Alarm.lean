-- SUMMARY: The alarm of the router in time: when its timeouts fire, and when every press of a button sounds for its five seconds.
import SmartDoor.Router.Server

/-!
# The alarm in time

A press of a button turns the alarm on and starts a timeout, which turns it off
five seconds later whatever has happened in between. Time is counted in
milliseconds. A timeout fires exactly when it is due, before a request of the
same millisecond.
-/

namespace SmartDoor.Router

open Transition

/-! ## The router in time -/

/-- How long a press sounds. -/
def alarmTime : Nat := 5000

/-- What reaches the program, besides its own timeouts. -/
inductive Input where
  | request (authenticated : Bool) (r : Request)
  | read (f : File)
  | written (f : File) (i : Nat)

def Input.event : Input → Event
  | .request authenticated r => .request authenticated r
  | .read f => .read f
  | .written f i => .written f i

/-- What a request says about the alarm. -/
inductive Mark where
  /-- A button is pressed while its setting is "on". -/
  | press
  | ledoff
  deriving DecidableEq

def Server.mark (s : Server) : Input → Option Mark
  | .request _ .helpbut => if isOn (s.settings.memory "alarmhelp") then some .press else none
  | .request _ .emerbut => if isOn (s.settings.memory "alarmemer") then some .press else none
  | .request _ .ledoff => some .ledoff
  | _ => none

/-- The marks of a run with their times, in their order. -/
abbrev Log := List (Nat × Mark)

structure Timed where
  now : Nat
  server : Server
  /-- The times at which the timeouts are due. -/
  due : List Nat
  /-- No code can see it. -/
  log : Log

namespace Timed

def start (disk : Disk) : Timed := ⟨0, .start disk, [], []⟩

/-- It becomes `t`. -/
def elapse (s : Timed) (t : Nat) : Option Timed :=
  (run Server.step s.server ((s.due.filter (· ≤ t)).map fun _ => .timeout)).map fun server =>
    { s with now := t, server := server, due := s.due.filter (t < ·) }

/-- An input at the time that it is. A timeout that it starts is due `alarmTime` later. -/
def receive (s : Timed) (i : Input) : Option Timed :=
  (s.server.step i.event).map fun server =>
    { s with
      server := server
      due := s.due ++ List.replicate (server.timers - s.server.timers) (s.now + alarmTime)
      log := s.log ++ ((s.server.mark i).map (s.now, ·)).toList }

/-- An input at a time that has not passed. -/
def step (s : Timed) (a : Nat × Input) : Option Timed :=
  if s.now ≤ a.1 then (s.elapse a.1).bind fun s => s.receive a.2 else none

end Timed

/-- The state at the time `t`, after all inputs up to then. -/
def stateAt (disk : Disk) (as : List (Nat × Input)) (t : Nat) : Option Timed :=
  (run Timed.step (.start disk) (as.takeWhile (·.1 ≤ t))).bind fun s => s.elapse t

/-! ## What is meant -/

namespace Log

/-- There is a press within the last five seconds and no `ledoff` after it. -/
def ShouldSound (log : Log) (t : Nat) : Prop :=
  ∃ pre p post, log = pre ++ (p, .press) :: post ∧ t < p + alarmTime ∧ ∀ m ∈ post, m.2 ≠ .ledoff

/-- The marks up to the time `t`. -/
def upTo (log : Log) (t : Nat) : Log := log.filter (·.1 ≤ t)

/-- When the timeout of a press fires, the last mark is not a later press, unless this
is one of the same moment. -/
def Undisturbed (log : Log) : Prop :=
  ∀ p q, (p, .press) ∈ log → (log.upTo (p + alarmTime)).getLast? = some (q, .press) →
    q = p ∨ q = p + alarmTime

instance {log : Log} : Decidable log.Undisturbed :=
  decidable_of_iff
    (∀ m ∈ log, m.2 = .press → ∀ n ∈ (log.upTo (m.1 + alarmTime)).getLast?, n.2 = .press →
      n.1 = m.1 ∨ n.1 = m.1 + alarmTime) <| by
    constructor
    · intro h p q hp hq
      exact h (p, .press) hp rfl (q, .press) hq rfl
    · rintro h ⟨p, -⟩ hp rfl ⟨q, -⟩ hq rfl
      exact h p q hp hq

end Log

/-- At every time the alarm is on if and only if it is meant to be. -/
def SoundsInFull (disk : Disk) (as : List (Nat × Input)) : Prop :=
  ∀ t, ∃ s, stateAt disk as t = some s ∧ (s.server.alarm = true ↔ s.log.ShouldSound t)

/-! ## What the timeouts do -/

namespace Log

/-- The times of the presses. -/
def presses (log : Log) : List Nat :=
  log.filterMap fun m => if m.2 = .press then some m.1 else none

/-- The last mark is a press, and no timeout has fired since. -/
def On (log : Log) (t : Nat) : Prop :=
  ∃ p, log.getLast? = some (p, .press) ∧ ∀ q ∈ log.presses, q + alarmTime ≤ p ∨ t < q + alarmTime

def Sorted (log : Log) : Prop := log.Pairwise (·.1 ≤ ·.1)

variable {log : Log} {t u p : Nat} {m : Nat × Mark}

theorem mem_presses : p ∈ log.presses ↔ (p, .press) ∈ log := by
  simp [presses, List.mem_filterMap]

theorem presses_concat_press : presses (log ++ [(p, .press)]) = log.presses ++ [p] := by
  simp [presses]

theorem presses_concat_ledoff : presses (log ++ [(p, .ledoff)]) = log.presses := by
  simp [presses]

theorem not_on_nil : ¬ On [] t := by
  rintro ⟨p, hp, -⟩
  simp at hp

theorem not_on_concat_ledoff : ¬ On (log ++ [(p, .ledoff)]) t := by
  rintro ⟨q, hq, -⟩
  simp at hq

/-- At the moment of the press every timeout has fired before it or is yet to fire. -/
theorem on_concat_press : On (log ++ [(t, .press)]) t := by
  refine ⟨t, by simp, fun q _ => ?_⟩
  omega

/-- The alarm stays on for as long as no timeout is due. -/
theorem on_iff_of_le (htu : t ≤ u) (hlast : ∀ m ∈ log, m.1 ≤ t) :
    log.On u ↔ log.On t ∧ ∀ q ∈ log.presses, t < q + alarmTime → u < q + alarmTime := by
  constructor
  · rintro ⟨p, hp, hfired⟩
    refine ⟨⟨p, hp, fun q hq => (hfired q hq).imp id (Nat.lt_of_le_of_lt htu)⟩,
      fun q hq hdue => ?_⟩
    have hle : p ≤ t := hlast _ (List.mem_of_getLast? hp)
    have := hfired q hq
    omega
  · rintro ⟨⟨p, hp, hfired⟩, hdue⟩
    exact ⟨p, hp, fun q hq => (hfired q hq).imp id (hdue q hq)⟩

theorem Sorted.le_last (h : log.Sorted) (hlast : log.getLast? = some m) {n : Nat × Mark}
    (hn : n ∈ log) : n.1 ≤ m.1 := by
  obtain ⟨pre, rfl⟩ := List.getLast?_eq_some_iff.mp hlast
  obtain hn | hn := List.mem_append.mp hn
  · exact (List.pairwise_append.mp h).2.2 n hn m (by simp)
  · exact Nat.le_of_eq (congrArg Prod.fst (List.mem_singleton.mp hn))

/-- The last of several presses is the one that counts. -/
theorem shouldSound_iff (hsorted : log.Sorted) :
    log.ShouldSound t ↔ ∃ p, log.getLast? = some (p, .press) ∧ t < p + alarmTime := by
  constructor
  · rintro ⟨pre, p, post, rfl, ht, hpost⟩
    cases hlast : post.getLast? with
    | none =>
      obtain rfl := List.getLast?_eq_none_iff.mp hlast
      exact ⟨p, by simp, ht⟩
    | some m =>
      obtain ⟨q, mark⟩ := m
      have hlast' : (pre ++ (p, Mark.press) :: post).getLast? = some (q, mark) := by
        simp [List.getLast?_cons, hlast]
      have hmem : (p, Mark.press) ∈ pre ++ (p, .press) :: post := by simp
      have hle : p ≤ q := hsorted.le_last hlast' hmem
      cases mark with
      | press => exact ⟨q, hlast', by omega⟩
      | ledoff => exact absurd rfl (hpost (q, .ledoff) (List.mem_of_getLast? hlast))
  · rintro ⟨p, hp, ht⟩
    obtain ⟨pre, rfl⟩ := List.getLast?_eq_some_iff.mp hp
    exact ⟨pre, p, [], rfl, ht, by simp⟩

theorem Sorted.upTo (h : log.Sorted) : (log.upTo t).Sorted := h.filter _

theorem mem_upTo : m ∈ log.upTo t ↔ m ∈ log ∧ m.1 ≤ t := by simp [Log.upTo]

theorem upTo_upTo (h : u ≤ t) : (log.upTo t).upTo u = log.upTo u := by
  unfold Log.upTo
  rw [List.filter_filter]
  refine List.filter_congr fun m _ => ?_
  simp only [← Bool.decide_and, decide_eq_decide]
  omega

theorem upTo_eq_self (h : ∀ m ∈ log, m.1 ≤ t) : log.upTo t = log :=
  List.filter_eq_self.mpr fun m hm => decide_eq_true (h m hm)

theorem upTo_append_of_lt {new : Log} (h : ∀ m ∈ new, t < m.1) :
    upTo (log ++ new) t = log.upTo t := by
  have hnone : new.filter (·.1 ≤ t) = [] :=
    List.filter_eq_nil_iff.mpr fun m hm => by simpa using h m hm
  rw [upTo, List.filter_append, hnone, List.append_nil]
  rfl

/-- What the timeouts do is what is meant at every time, if and only if no timeout cuts
a later press short. -/
theorem on_iff_shouldSound (hsorted : log.Sorted) :
    (∀ t, (log.upTo t).On t ↔ (log.upTo t).ShouldSound t) ↔ log.Undisturbed := by
  constructor
  · intro h p q hp hq
    by_contra hne
    have hp' : (p, Mark.press) ∈ log.upTo (p + alarmTime) := mem_upTo.mpr ⟨hp, by simp⟩
    have hpq : p ≤ q := hsorted.upTo.le_last hq hp'
    have hle : q ≤ p + alarmTime := (mem_upTo.mp (List.mem_of_getLast? hq)).2
    -- the later press should still sound when the timeout of the first fires
    have hshould : (log.upTo (p + alarmTime)).ShouldSound (p + alarmTime) :=
      (shouldSound_iff hsorted.upTo).mpr ⟨q, hq, by omega⟩
    obtain ⟨q', hq', hfired⟩ := (h _).mpr hshould
    obtain rfl : q = q' := by simpa [hq] using hq'
    have := hfired p (mem_presses.mpr hp')
    omega
  · intro h t
    rw [shouldSound_iff hsorted.upTo]
    constructor
    · rintro ⟨p, hp, hfired⟩
      refine ⟨p, hp, ?_⟩
      have := hfired p (mem_presses.mpr (List.mem_of_getLast? hp))
      have : 0 < alarmTime := by decide
      omega
    · rintro ⟨p, hp, ht⟩
      refine ⟨p, hp, fun q hq => ?_⟩
      by_contra hcut
      -- the last mark up to now is also the last one when the timeout of `q` fires
      have hlast : (log.upTo (q + alarmTime)).getLast? = some (p, .press) := by
        have hle : p ≤ q + alarmTime := by omega
        rw [← upTo_upTo (show q + alarmTime ≤ t by omega), upTo_eq_self fun m hm =>
          Nat.le_trans (hsorted.upTo.le_last hp hm) hle]
        exact hp
      have hq' := (mem_upTo.mp (mem_presses.mp hq)).1
      have := h q p hq' hlast
      omega

end Log

/-! ## What the events do to the alarm -/

/-- `n` timeouts fire. -/
theorem Server.run_timeouts {s : Server} {l : List Nat} (h : l.length ≤ s.timers) :
    run step s (l.map fun _ => .timeout) =
      some { s with alarm := s.alarm && l.isEmpty, timers := s.timers - l.length } := by
  induction l generalizing s with
  | nil => simp
  | cons t l ih =>
    simp only [List.length_cons] at h
    have hstep : s.step .timeout = some { s.alarmoff with timers := s.timers - 1 } :=
      if_neg (by omega)
    rw [List.map_cons, run, hstep, Option.bind_some, ih (show _ ≤ s.timers - 1 by omega)]
    simp [alarmoff]
    omega

/-- An input changes the alarm and starts a timeout as its mark says. -/
theorem Server.step_input {s s' : Server} {i : Input} (h : s.step i.event = some s') :
    match s.mark i with
    | some .press => s'.alarm = true ∧ s'.timers = s.timers + 1
    | some .ledoff => s'.alarm = false ∧ s'.timers = s.timers
    | none => s'.alarm = s.alarm ∧ s'.timers = s.timers := by
  cases i with
  | read f =>
    cases f <;> obtain ⟨-, -, rfl⟩ := Option.map_eq_some_iff.mp h <;> exact ⟨rfl, rfl⟩
  | written f i =>
    cases f <;> obtain ⟨-, -, rfl⟩ := Option.map_eq_some_iff.mp h <;> exact ⟨rfl, rfl⟩
  | request authenticated r =>
    obtain rfl := Option.some.inj h
    cases r with
    | helpbut =>
      by_cases hon : isOn (s.settings.memory "alarmhelp") <;>
        simp [mark, handle, helpbut, button, hon, alarmon, opendoor]
    | emerbut =>
      by_cases hon : isOn (s.settings.memory "alarmemer") <;>
        simp [mark, handle, emerbut, button, hon, alarmon, opendoor]
    | updatememos data lastupdate => cases data <;> exact ⟨rfl, rfl⟩
    | _ => exact ⟨rfl, rfl⟩

/-! ## The invariant -/

namespace Timed

/-- The timeouts and the alarm are what the log says. -/
structure Inv (s : Timed) : Prop where
  timers : s.server.timers = s.due.length
  due : s.due = (s.log.presses.map (· + alarmTime)).filter (s.now < ·)
  sorted : s.log.Sorted
  past : ∀ m ∈ s.log, m.1 ≤ s.now
  alarm : s.server.alarm = true ↔ s.log.On s.now

variable {disk : Disk} {s s' : Timed} {t : Nat} {i : Input} {a : Nat × Input}
  {as : List (Nat × Input)}

theorem inv_start : Inv (start disk) where
  timers := rfl
  due := rfl
  sorted := List.Pairwise.nil
  past m h := by cases h
  alarm := by simpa [start, Server.start] using Log.not_on_nil

/-- The timeouts that are due can fire. -/
theorem Inv.elapse_eq (h : s.Inv) : s.elapse t = some
    { s with
      now := t
      server :=
        { s.server with
          alarm := s.server.alarm && (s.due.filter (· ≤ t)).isEmpty
          timers := s.server.timers - (s.due.filter (· ≤ t)).length }
      due := s.due.filter (t < ·) } := by
  have hlength : (s.due.filter (· ≤ t)).length ≤ s.server.timers :=
    h.timers ▸ List.length_filter_le _ _
  rw [elapse, Server.run_timeouts hlength, Option.map_some]

theorem Inv.elapse (h : s.Inv) (ht : s.now ≤ t) (helapse : s.elapse t = some s') : s'.Inv := by
  obtain rfl := Option.some.inj (h.elapse_eq.symm.trans helapse)
  constructor
  case timers =>
    have hsplit := List.length_eq_length_filter_add (l := s.due) (· ≤ t)
    have hnot : (s.due.filter fun d => !decide (d ≤ t)) = s.due.filter (t < ·) :=
      List.filter_congr fun d _ => by
        rw [← decide_not, decide_eq_decide]
        exact Nat.not_le
    rw [hnot] at hsplit
    have := h.timers
    simp only
    omega
  case due =>
    simp only
    rw [h.due, List.filter_filter]
    refine List.filter_congr fun d _ => ?_
    simp only [← Bool.decide_and, decide_eq_decide]
    omega
  case sorted => exact h.sorted
  case past => exact fun m hm => Nat.le_trans (h.past m hm) ht
  case alarm =>
    simp only
    rw [Log.on_iff_of_le ht h.past, ← h.alarm, Bool.and_eq_true, List.isEmpty_iff,
      List.filter_eq_nil_iff, h.due]
    simp

/-- The three things that an input can be. -/
theorem receive_cases (h : s.receive i = some s') :
    (∃ server, server.alarm = s.server.alarm ∧ server.timers = s.server.timers ∧
      s' = { s with server := server }) ∨
    (∃ server, server.alarm = true ∧ server.timers = s.server.timers + 1 ∧
      s' = { s with
        server := server
        due := s.due ++ [s.now + alarmTime]
        log := s.log ++ [(s.now, .press)] }) ∨
    (∃ server, server.alarm = false ∧ server.timers = s.server.timers ∧
      s' = { s with server := server, log := s.log ++ [(s.now, .ledoff)] }) := by
  obtain ⟨server, hstep, rfl⟩ := Option.map_eq_some_iff.mp h
  have hinput := Server.step_input hstep
  cases hmark : s.server.mark i with
  | none =>
    rw [hmark] at hinput
    exact .inl ⟨server, hinput.1, hinput.2, by simp [hinput.2]⟩
  | some mark =>
    rw [hmark] at hinput
    cases mark with
    | press => exact .inr (.inl ⟨server, hinput.1, hinput.2, by simp [hinput.2]⟩)
    | ledoff => exact .inr (.inr ⟨server, hinput.1, hinput.2, by simp [hinput.2]⟩)

/-- A mark is made at the present time. -/
theorem Inv.concat (h : s.Inv) {mark : Mark} :
    Log.Sorted (s.log ++ [(s.now, mark)]) ∧ ∀ m ∈ s.log ++ [(s.now, mark)], m.1 ≤ s.now := by
  constructor
  · exact List.pairwise_append.mpr ⟨h.sorted, List.pairwise_singleton _ _, by simpa using h.past⟩
  · intro m hm
    obtain hm | hm := List.mem_append.mp hm
    · exact h.past m hm
    · exact Nat.le_of_eq (congrArg Prod.fst (List.mem_singleton.mp hm))

theorem Inv.receive (h : s.Inv) (hreceive : s.receive i = some s') : s'.Inv := by
  obtain ⟨server, halarm, htimers, rfl⟩ | ⟨server, halarm, htimers, rfl⟩ |
    ⟨server, halarm, htimers, rfl⟩ := receive_cases hreceive
  · exact
      { timers := htimers.trans h.timers
        due := h.due
        sorted := h.sorted
        past := h.past
        alarm := halarm ▸ h.alarm }
  · exact
      { timers := by simp [htimers, h.timers]
        due := by simp [Log.presses_concat_press, h.due, alarmTime]
        sorted := h.concat.1
        past := h.concat.2
        alarm := iff_of_true halarm Log.on_concat_press }
  · exact
      { timers := htimers.trans h.timers
        due := by simp [Log.presses_concat_ledoff, h.due]
        sorted := h.concat.1
        past := h.concat.2
        alarm := iff_of_false (by simp [halarm]) Log.not_on_concat_ledoff }

theorem step_eq_some : s.step a = some s' ↔
    s.now ≤ a.1 ∧ ∃ u, s.elapse a.1 = some u ∧ u.receive a.2 = some s' := by
  simp [step, Option.bind_eq_some_iff]

theorem elapse_eq (h : s.elapse t = some s') : s'.now = t ∧ s'.log = s.log := by
  obtain ⟨server, -, rfl⟩ := Option.map_eq_some_iff.mp h
  exact ⟨rfl, rfl⟩

theorem Inv.step (h : s.Inv) (hstep : s.step a = some s') : s'.Inv := by
  obtain ⟨hle, u, helapse, hreceive⟩ := step_eq_some.mp hstep
  exact (h.elapse hle helapse).receive hreceive

theorem inv_of_run (hrun : run step (start disk) as = some s) : s.Inv :=
  run_invariant (fun _ _ _ h hstep => h.step hstep) inv_start hrun

/-! ## The log of a part of a run -/

/-- A step makes its marks at the time of its input. -/
theorem log_of_step (h : s.step a = some s') :
    s'.now = a.1 ∧ ∃ new, s'.log = s.log ++ new ∧ ∀ m ∈ new, m.1 = a.1 := by
  obtain ⟨-, u, helapse, hreceive⟩ := step_eq_some.mp h
  obtain ⟨hnow, hlog⟩ := elapse_eq helapse
  obtain ⟨server, -, rfl⟩ := Option.map_eq_some_iff.mp hreceive
  refine ⟨hnow, _, by rw [hlog], ?_⟩
  simp [hnow]

theorem log_of_run (hrun : run step s as = some s') :
    ∃ new, s'.log = s.log ++ new ∧ ∀ m ∈ new, s.now ≤ m.1 := by
  induction as generalizing s with
  | nil =>
    obtain rfl : s = s' := by simpa using hrun
    exact ⟨[], by simp⟩
  | cons a as ih =>
    obtain ⟨u, hstep, hrest⟩ := run_cons_eq_some.mp hrun
    have hle := (step_eq_some.mp hstep).1
    obtain ⟨hnow, new, hnew, hnewtime⟩ := log_of_step hstep
    obtain ⟨later, hlater, hlatertime⟩ := ih hrest
    refine ⟨new ++ later, by rw [hlater, hnew, List.append_assoc], fun m hm => ?_⟩
    obtain hm | hm := List.mem_append.mp hm
    · rw [hnewtime m hm]
      exact hle
    · have := hlatertime m hm
      omega

/-- The inputs up to a time make the marks up to that time. -/
theorem run_takeWhile (hrun : run step s as = some s') (hs : s.now ≤ t)
    (hpast : ∀ m ∈ s.log, m.1 ≤ t) : ∃ u, run step s (as.takeWhile (·.1 ≤ t)) = some u ∧
      u.now ≤ t ∧ u.log = s'.log.upTo t := by
  induction as generalizing s with
  | nil =>
    obtain rfl : s = s' := by simpa using hrun
    exact ⟨s, rfl, hs, (Log.upTo_eq_self hpast).symm⟩
  | cons a as ih =>
    obtain ⟨v, hstep, hrest⟩ := run_cons_eq_some.mp hrun
    obtain ⟨hnow, new, hnew, hnewtime⟩ := log_of_step hstep
    by_cases ha : a.1 ≤ t
    · obtain ⟨u, hu, hle, hlog⟩ := ih hrest (hnow ▸ ha) fun m hm => by
        rw [hnew] at hm
        obtain hm | hm := List.mem_append.mp hm
        · exact hpast m hm
        · exact hnewtime m hm ▸ ha
      refine ⟨u, ?_, hle, hlog⟩
      have hkeep : (a :: as).takeWhile (·.1 ≤ t) = a :: as.takeWhile (·.1 ≤ t) :=
        List.takeWhile_cons_of_pos (by simpa using ha)
      rw [hkeep, run, hstep]
      exact hu
    · refine ⟨s, by simp [ha], hs, ?_⟩
      -- every mark of the rest is later than `t`
      obtain ⟨later, hlater, hlatertime⟩ := log_of_run hrest
      have hnew' : ∀ m ∈ new ++ later, t < m.1 := fun m hm => by
        obtain hm | hm := List.mem_append.mp hm
        · have := hnewtime m hm
          omega
        · have := hlatertime m hm
          omega
      rw [hlater, hnew, List.append_assoc, Log.upTo_append_of_lt hnew', Log.upTo_eq_self hpast]

/-- At every time the alarm is what the timeouts of the presses up to then make it. -/
theorem stateAt_eq (hrun : run step (start disk) as = some s) : ∃ u, stateAt disk as t = some u ∧
    u.log = s.log.upTo t ∧ (u.server.alarm = true ↔ u.log.On t) := by
  obtain ⟨v, hv, hle, hlog⟩ := run_takeWhile hrun (Nat.zero_le t) fun m hm => by cases hm
  obtain ⟨u, hu⟩ : ∃ u, v.elapse t = some u := ⟨_, (inv_of_run hv).elapse_eq⟩
  obtain ⟨hnow, hlog'⟩ := elapse_eq hu
  refine ⟨u, by rw [stateAt, hv, Option.bind_some, hu], hlog'.trans hlog, ?_⟩
  rw [((inv_of_run hv).elapse hle hu).alarm, hnow]

end Timed

/-- Every press sounds for its full time if and only if no timeout cuts a later press
short: when the timeout of a press fires, the last press or `ledoff` is not a later press. -/
theorem sounds_in_full_iff (disk : Disk) (as : List (Nat × Input)) (s : Timed)
    (hrun : run Timed.step (.start disk) as = some s) :
    SoundsInFull disk as ↔ s.log.Undisturbed := by
  rw [← Log.on_iff_shouldSound (Timed.inv_of_run hrun).sorted]
  refine forall_congr' fun t => ?_
  obtain ⟨u, hu, hlog, halarm⟩ := @Timed.stateAt_eq _ _ t _ hrun
  simp [hu, halarm, hlog]

/-- Only the setting of the help button is "on". -/
def helpOn : Disk where
  phone := .missing
  savedbt := .missing
  newbt := .missing
  settings := .text fun key => if key = "alarmhelp" then some (.str "on") else none
  notes := .missing

/-- The help button is pressed twice, the second time `ms` after the first. -/
def pressedTwice (ms : Nat) : List (Nat × Input) :=
  [(0, .read .settings), (0, .request true .helpbut), (ms, .request true .helpbut)]

theorem sounds_in_full_six : SoundsInFull helpOn (pressedTwice 6000) :=
  (sounds_in_full_iff helpOn (pressedTwice 6000) _ rfl).mpr (by decide)

/-- The timeout of the first press cuts the second one short. -/
theorem second_press_cut_short : ¬ SoundsInFull helpOn (pressedTwice 3000) := by
  intro hsounds
  obtain ⟨s, hs, halarm⟩ := hsounds 5000
  obtain rfl := Option.some.inj hs
  have hshould : Log.ShouldSound [(0, .press), (3000, .press)] 5000 :=
    ⟨[(0, .press)], 3000, [], rfl, by decide, by simp⟩
  cases halarm.mpr hshould

end SmartDoor.Router
