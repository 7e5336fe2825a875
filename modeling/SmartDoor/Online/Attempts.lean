-- SUMMARY: The retries of an emergency call and how often its mode is written: what the failed and refused attempts decide.
import SmartDoor.Base.Lists
import SmartDoor.Online.Service

/-!
# Attempts of an emergency call

`emergencycount` is set to 0 by every call and never counted up, so the test
`emergencycount < 3` always passes: every failure of an emergency call is
followed by one more attempt. A refused attempt leaves its callback on the
socket, and the next attempt that succeeds runs all of them.
-/

namespace SmartDoor.Online

open Lists

/-- The call that the move is about. -/
def ServiceAction.call? : ServiceAction → Option Nat
  | .dispatch _ => none
  | .connected i | .refused i | .data i | .broken i | .timeout i => some i

/-- An attempt of the `i`th call fails, or its connection does. -/
def Failure (i : Nat) (a : ServiceAction) : Prop := a = .refused i ∨ a = .broken i

instance {i : Nat} : DecidablePred (Failure i) := fun _ => inferInstanceAs (Decidable (_ ∨ _))

/-- If the move is a successful attempt of the `i`th call, the mode is written
once. -/
def WritesOnce (cfg : DoorConfig) (i : Nat) (s : Sockets) (a : ServiceAction) : Prop :=
  a = .connected i → ∀ s' ∈ s.step cfg a, s'.written = s.written ++ [i]

/-- The move is not a successful attempt of the `i`th call behind a refused one. -/
def NotAfterRefusal (i : Nat) (pre : List ServiceAction) (a : ServiceAction) : Prop :=
  a = .connected i → .refused i ∉ pre

variable {cfg : DoorConfig} {s s' : Sockets} {as : List ServiceAction} {a : ServiceAction}
  {i : Nat} {c : Call}

/-! ## What a move does to the calls -/

/-- A call that has just been made. -/
structure New (c : Call) : Prop where
  phase : c.phase = .connecting
  errors : c.errors = 0
  listeners : c.listeners = 1

theorem applyService_cases (cfg : DoorConfig) (s : Sockets) (service : Service) (mode : String)
    (emergency : Bool) :
    (s.applyService cfg service mode emergency).emergencycount = 0 ∧
      ∃ new, (s.applyService cfg service mode emergency).calls = s.calls ++ new ∧
        ∀ c ∈ new, New c := by
  unfold Sockets.applyService
  dsimp only
  split
  · exact ⟨rfl, [], by simp, by simp⟩
  · refine ⟨rfl, _, rfl, fun c hc => ?_⟩
    obtain rfl := List.mem_singleton.mp hc
    exact ⟨rfl, rfl, rfl⟩

/-- A dispatched command adds new calls, and leaves the others alone. -/
theorem dispatch_cases (cfg : DoorConfig) (command : Command) (h : s.emergencycount = 0) :
    (s.dispatch cfg command).emergencycount = 0 ∧
      ∃ new, (s.dispatch cfg command).calls = s.calls ++ new ∧ ∀ c ∈ new, New c := by
  have hfold : ∀ (l : List (Service × String × Bool)) (t : Sockets), t.emergencycount = 0 →
      (l.foldl (fun s call => s.applyService cfg call.1 call.2.1 call.2.2) t).emergencycount = 0 ∧
      ∃ new, (l.foldl (fun s call => s.applyService cfg call.1 call.2.1 call.2.2) t).calls =
        t.calls ++ new ∧ ∀ c ∈ new, New c := by
    intro l
    induction l with
    | nil => exact fun t ht => ⟨ht, [], by simp, by simp⟩
    | cons x l ih =>
      intro t _
      obtain ⟨hcount, new, hnew, hfresh⟩ := applyService_cases cfg t x.1 x.2.1 x.2.2
      obtain ⟨hcount', new', hnew', hfresh'⟩ := ih _ hcount
      refine ⟨hcount', new ++ new', by rw [List.foldl_cons, hnew', hnew, List.append_assoc], ?_⟩
      intro c hc
      rcases List.mem_append.mp hc with hc | hc
      · exact hfresh c hc
      · exact hfresh' c hc
  exact hfold _ { s with dispatched := s.dispatched ++ [command] } h

/-- Where a call stands after a move about it, when nothing has been counted. -/
inductive CallMoves (i : Nat) (c : Call) : ServiceAction → Call → Prop
  | connected (h : c.phase = .connecting) :
    CallMoves i c (.connected i) { c with listeners := 0, phase := .connected }
  | refused (h : c.phase = .connecting) : CallMoves i c (.refused i)
    { c with errors := c.errors + 1, phase := if c.emergency then .waiting else .closed }
  | data (h : c.phase = .connected) : CallMoves i c (.data i) { c with phase := .closed }
  | broken (h : c.phase = .connected) : CallMoves i c (.broken i)
    { c with errors := c.errors + 1, phase := if c.emergency then .waiting else .closed }
  | timeout (h : c.phase = .waiting) : CallMoves i c (.timeout i)
    { c with listeners := c.listeners + 1, phase := .connecting }

/-- A move either dispatches a command, or moves one call. -/
theorem step_calls (hcount : s.emergencycount = 0) (h : s.step cfg a = some s') :
    s'.emergencycount = 0 ∧
      ((a.call? = none ∧ ∃ new, s'.calls = s.calls ++ new ∧ ∀ c ∈ new, New c) ∨
        ∃ i c c', s.calls[i]? = some c ∧ a.call? = some i ∧ CallMoves i c a c' ∧
          s'.calls = s.calls.set i c') := by
  cases a with
  | dispatch command =>
    obtain rfl := Option.some.inj h
    obtain ⟨hcount', hnew⟩ := dispatch_cases cfg command hcount
    exact ⟨hcount', .inl ⟨rfl, hnew⟩⟩
  | connected i =>
    obtain ⟨c, hi, hphase, rfl⟩ := onCall_eq_some.mp h
    exact ⟨hcount, .inr ⟨i, c, _, hi, rfl, .connected hphase, rfl⟩⟩
  | refused i =>
    obtain ⟨c, hi, hphase, rfl⟩ := onCall_eq_some.mp h
    refine ⟨hcount, .inr ⟨i, c, _, hi, rfl, .refused hphase, ?_⟩⟩
    simp [Sockets.onError, hcount]
  | data i =>
    obtain ⟨c, hi, hphase, rfl⟩ := onCall_eq_some.mp h
    exact ⟨hcount, .inr ⟨i, c, _, hi, rfl, .data hphase, rfl⟩⟩
  | broken i =>
    obtain ⟨c, hi, hphase, rfl⟩ := onCall_eq_some.mp h
    refine ⟨hcount, .inr ⟨i, c, _, hi, rfl, .broken hphase, ?_⟩⟩
    simp [Sockets.onError, hcount]
  | timeout i =>
    obtain ⟨c, hi, hphase, rfl⟩ := onCall_eq_some.mp h
    exact ⟨hcount, .inr ⟨i, c, _, hi, rfl, .timeout hphase, rfl⟩⟩

/-! ## What a run says about a call -/

/-- The callbacks of a call after a run without a refused attempt, and after one
with a refused attempt that none has succeeded behind. -/
structure Listening (as : List ServiceAction) (i : Nat) (c : Call) : Prop where
  connecting : .refused i ∉ as → c.phase = .connecting → c.listeners = 1
  other : .refused i ∉ as → c.phase ≠ .connecting → c.listeners = 0
  again : .refused i ∈ as → Everywhere (NotAfterRefusal i) as →
    c.phase = .connecting → 2 ≤ c.listeners
  waiting : .refused i ∈ as → Everywhere (NotAfterRefusal i) as →
    c.phase = .waiting → 1 ≤ c.listeners
  unconnected : .refused i ∈ as → Everywhere (NotAfterRefusal i) as → c.phase ≠ .connected

/-- What a run has done to a call. -/
structure Tally (cfg : DoorConfig) (as : List ServiceAction) (i : Nat) (c : Call) : Prop where
  failures : as.countP (Failure i) = c.errors
  retries : c.emergency = true →
    as.count (.timeout i) + (if c.phase = .waiting then 1 else 0) = c.errors
  listening : Listening as i c
  once : Transition.Meets (Sockets.step cfg) (WritesOnce cfg i) .init as ↔
    Everywhere (NotAfterRefusal i) as

/-- A run that does not move a call says nothing about it. -/
theorem tally_new (hc : New c) (h : ∀ a ∈ as, a.call? ≠ some i) : Tally cfg as i c := by
  have hmem {a : ServiceAction} (ha : a.call? = some i) : a ∉ as := fun hin => h a hin ha
  refine ⟨?_, fun _ => ?_, ⟨fun _ _ => hc.listeners, fun _ hne => absurd hc.phase hne, ?_, ?_, ?_⟩,
    iff_of_true ?_ ?_⟩
  · rw [hc.errors, List.countP_eq_zero]
    intro a ha
    simp only [decide_eq_true_eq]
    rintro (rfl | rfl)
    · exact hmem rfl ha
    · exact hmem rfl ha
  · rw [hc.errors, hc.phase, List.count_eq_zero.mpr (hmem rfl)]
    rfl
  · exact fun hr => absurd hr (hmem rfl)
  · exact fun hr => absurd hr (hmem rfl)
  · exact fun hr => absurd hr (hmem rfl)
  · refine Transition.meets_of_forall fun a ha _ hconn => ?_
    exact absurd ha (hmem (by rw [hconn]; rfl))
  · rintro pre a post rfl rfl
    exact absurd (by simp) (hmem (a := .connected i) rfl)

/-- A move that is not about the call. -/
theorem Tally.other (h : Tally cfg as i c)
    (hrun : Transition.run (Sockets.step cfg) .init as = some s) (ha : a.call? ≠ some i) :
    Tally cfg (as ++ [a]) i c := by
  have hne {b : ServiceAction} (hb : b.call? = some i) : a ≠ b := fun hab => ha (hab ▸ hb)
  have hrefused : .refused i ∈ as ++ [a] ↔ .refused i ∈ as := by
    simp [(hne (b := .refused i) rfl).symm]
  have hquiet : Everywhere (NotAfterRefusal i) (as ++ [a]) ↔ Everywhere (NotAfterRefusal i) as := by
    rw [everywhere_concat, and_iff_left]
    exact fun hconn => absurd hconn (hne rfl)
  obtain ⟨hfail, hretry, ⟨h₁, h₂, h₃, h₄, h₅⟩, honce⟩ := h
  refine ⟨?_, fun hem => ?_, ⟨?_, ?_, ?_, ?_, ?_⟩, ?_⟩
  · have hnot : ¬ Failure i a := by
      rintro (hab | hab)
      · exact hne rfl hab
      · exact hne rfl hab
    simpa [List.countP_append, hnot] using hfail
  · have hnone : [a].count (.timeout i) = 0 :=
      List.count_eq_zero.mpr (by simpa using (hne (b := .timeout i) rfl).symm)
    rw [← hretry hem, List.count_append, hnone, Nat.add_zero]
  · rwa [hrefused]
  · rwa [hrefused]
  · rwa [hrefused, hquiet]
  · rwa [hrefused, hquiet]
  · rwa [hrefused, hquiet]
  · rw [Transition.meets_concat hrun, hquiet, ← honce, and_iff_left]
    exact fun hconn => absurd hconn (hne rfl)

/-- A successful attempt of the call writes its mode once exactly if no refused
attempt came before it, or an earlier one has succeeded behind it. -/
theorem Tally.connected (h : Tally cfg as i c)
    (hrun : Transition.run (Sockets.step cfg) .init as = some s) (hi : s.calls[i]? = some c)
    (hphase : c.phase = .connecting) :
    Tally cfg (as ++ [.connected i]) i { c with listeners := 0, phase := .connected } := by
  obtain ⟨hfail, hretry, hlisten, honce⟩ := h
  have hwrites : WritesOnce cfg i s (.connected i) ↔ c.listeners = 1 := by
    simp only [WritesOnce, Sockets.step, Sockets.onCall, hi, hphase, if_true, Option.mem_def,
      Option.some.injEq, forall_eq', true_imp_iff, Sockets.connected, List.append_cancel_left_eq]
    constructor
    · intro h
      simpa using congrArg List.length h
    · intro h
      rw [h]
      rfl
  have hquiet : Everywhere (NotAfterRefusal i) (as ++ [.connected i]) ↔
      Everywhere (NotAfterRefusal i) as ∧ .refused i ∉ as := by
    rw [everywhere_concat]
    simp [NotAfterRefusal]
  refine ⟨?_, fun hem => ?_, ⟨?_, ?_, ?_, ?_, ?_⟩, ?_⟩
  · simpa [List.countP_append, Failure] using hfail
  · simpa [List.count_append, hphase] using hretry hem
  · exact fun _ hconn => nomatch hconn
  · exact fun _ _ => rfl
  · exact fun _ _ hconn => nomatch hconn
  · exact fun _ _ hwait => nomatch hwait
  · intro hr hall
    rw [hquiet] at hall
    exact absurd (by simpa using hr) hall.2
  · rw [Transition.meets_concat hrun, hquiet, ← honce, hwrites]
    refine and_congr_right fun hall => ?_
    by_cases hr : .refused i ∈ as
    · have htwo := hlisten.again hr (honce.mp hall) hphase
      exact iff_of_false (by omega) (not_not_intro hr)
    · exact iff_of_true (hlisten.connecting hr hphase) hr

/-- Any other move of the call. -/
theorem Tally.moved (h : Tally cfg as i c) {c' : Call}
    (hrun : Transition.run (Sockets.step cfg) .init as = some s) (hmove : CallMoves i c a c')
    (ha : a ≠ .connected i) : Tally cfg (as ++ [a]) i c' := by
  obtain ⟨hfail, hretry, ⟨h₁, h₂, h₃, h₄, h₅⟩, honce⟩ := h
  have hquiet : Everywhere (NotAfterRefusal i) (as ++ [a]) ↔ Everywhere (NotAfterRefusal i) as := by
    rw [everywhere_concat, and_iff_left]
    exact fun hconn => absurd hconn ha
  have hmeets : Transition.Meets (Sockets.step cfg) (WritesOnce cfg i) .init (as ++ [a]) ↔
      Everywhere (NotAfterRefusal i) (as ++ [a]) := by
    rw [Transition.meets_concat hrun, hquiet, ← honce, and_iff_left]
    exact fun hconn => absurd hconn ha
  cases hmove with
  | connected => exact absurd rfl ha
  | refused hphase =>
    refine ⟨?_, fun hem => ?_, ⟨?_, ?_, ?_, ?_, ?_⟩, hmeets⟩
    · simpa [List.countP_append, Failure] using hfail
    · have hem' : c.emergency = true := hem
      simpa [List.count_append, hem', hphase] using hretry hem'
    · exact fun hr => absurd (by simp) hr
    · exact fun hr => absurd (by simp) hr
    · intro _ _ hconn
      exact absurd hconn (by dsimp only; split <;> simp)
    · intro _ hall _
      rw [hquiet] at hall
      by_cases hr : .refused i ∈ as
      · exact Nat.le_of_succ_le (h₃ hr hall hphase)
      · exact Nat.le_of_eq (h₁ hr hphase).symm
    · intro _ _
      dsimp only
      split <;> simp
  | data hphase =>
    refine ⟨?_, fun hem => ?_, ⟨?_, ?_, ?_, ?_, ?_⟩, hmeets⟩
    · simpa [List.countP_append, Failure] using hfail
    · simpa [List.count_append, hphase] using hretry hem
    · exact fun _ hconn => nomatch hconn
    · intro hr _
      exact h₂ (by simpa using hr) (by simp [hphase])
    · exact fun _ _ hconn => nomatch hconn
    · exact fun _ _ hwait => nomatch hwait
    · exact fun _ _ => nofun
  | broken hphase =>
    refine ⟨?_, fun hem => ?_, ⟨?_, ?_, ?_, ?_, ?_⟩, hmeets⟩
    · simpa [List.countP_append, Failure] using hfail
    · have hem' : c.emergency = true := hem
      simpa [List.count_append, hem', hphase] using hretry hem'
    · intro _ hconn
      exact absurd hconn (by dsimp only; split <;> simp)
    · intro hr _
      exact h₂ (by simpa using hr) (by simp [hphase])
    · intro _ _ hconn
      exact absurd hconn (by dsimp only; split <;> simp)
    · intro hr hall _
      exact absurd hphase (h₅ (by simpa using hr) (hquiet.mp hall))
    · intro _ _
      dsimp only
      split <;> simp
  | timeout hphase =>
    refine ⟨?_, fun hem => ?_, ⟨?_, ?_, ?_, ?_, ?_⟩, hmeets⟩
    · simpa [List.countP_append, Failure] using hfail
    · simpa [List.count_append, hphase] using hretry hem
    · intro hr _
      exact congrArg (· + 1) (h₂ (by simpa using hr) (by simp [hphase]))
    · exact fun _ hne => absurd rfl hne
    · intro hr hall _
      exact Nat.succ_le_succ (h₄ (by simpa using hr) (hquiet.mp hall) hphase)
    · exact fun _ _ hwait => nomatch hwait
    · exact fun _ _ => nofun

/-! ## Every run -/

/-- Nothing has been counted, and the run says of each call what has happened to it. -/
structure Attempted (cfg : DoorConfig) (as : List ServiceAction) (s : Sockets) : Prop where
  count : s.emergencycount = 0
  absent : ∀ i, s.calls.length ≤ i → ∀ a ∈ as, a.call? ≠ some i
  tally : ∀ i c, s.calls[i]? = some c → Tally cfg as i c

theorem Attempted.step (h : Attempted cfg as s)
    (hrun : Transition.run (Sockets.step cfg) .init as = some s) (ha : s.step cfg a = some s') :
    Attempted cfg (as ++ [a]) s' := by
  obtain ⟨hcount, hcalls⟩ := step_calls h.count ha
  refine ⟨hcount, fun i hi b hb => ?_, fun i c hi => ?_⟩
  · rcases List.mem_append.mp hb with hb | hb
    · refine h.absent i (Nat.le_trans ?_ hi) b hb
      obtain ⟨-, new, hnew, -⟩ | ⟨_, _, _, -, -, -, hset⟩ := hcalls
      · simp [hnew]
      · simp [hset]
    · obtain rfl := List.mem_singleton.mp hb
      obtain ⟨hnone, -⟩ | ⟨j, c, c', hj, hcall, -, hset⟩ := hcalls
      · simp [hnone]
      · have hlt : j < s.calls.length := (List.getElem?_eq_some_iff.mp hj).1
        rw [hset, List.length_set] at hi
        rw [hcall]
        exact fun hij => Nat.ne_of_lt (Nat.lt_of_lt_of_le hlt hi) (Option.some.inj hij)
  · obtain ⟨hnone, new, hnew, hfresh⟩ | ⟨j, d, d', hj, hcall, hmove, hset⟩ := hcalls
    · rw [hnew, List.getElem?_append] at hi
      split at hi
      · exact (h.tally i c hi).other hrun (by simp [hnone])
      · next hge =>
        refine tally_new (hfresh c (List.mem_of_getElem? hi)) fun b hb => ?_
        rcases List.mem_append.mp hb with hb | hb
        · exact h.absent i (Nat.le_of_not_lt hge) b hb
        · obtain rfl := List.mem_singleton.mp hb
          simp [hnone]
    · rw [hset] at hi
      rcases (getElem?_set_eq_some hj).mp hi with ⟨rfl, rfl⟩ | ⟨hne, hi⟩
      · have htally := h.tally i d hj
        by_cases hconn : a = .connected i
        · subst hconn
          cases hmove with
          | connected hphase => exact htally.connected hrun hj hphase
        · exact htally.moved hrun hmove hconn
      · exact (h.tally i c hi).other hrun (by simpa [hcall] using hne.symm)

theorem attempted_of_run (hrun : Transition.run (Sockets.step cfg) .init as = some s) :
    Attempted cfg as s := by
  refine Transition.run_induction (I := Attempted cfg) ?_ ?_ hrun
  · exact ⟨rfl, by simp, by simp [Sockets.init]⟩
  · exact fun as t a t' hrun h ha => h.step hrun ha

/-- An emergency call keeps to three retries, and each of its successful attempts
writes the mode once, exactly if its socket has failed at most three times, not
counting a failure whose timeout has not fired yet, and no attempt has succeeded
behind a refused one. -/
theorem attempts_iff (hrun : Transition.run (Sockets.step cfg) .init as = some s)
    (hi : s.calls[i]? = some c) (hc : c.emergency = true) :
    (as.count (.timeout i) ≤ 3 ∧
      Transition.Meets (Sockets.step cfg) (WritesOnce cfg i) .init as) ↔
    as.countP (Failure i) ≤ 3 + (if c.phase = .waiting then 1 else 0) ∧
      Everywhere (NotAfterRefusal i) as := by
  have htally := (attempted_of_run hrun).tally i c hi
  have hretries := htally.retries hc
  rw [htally.once, htally.failures]
  refine and_congr_left fun _ => ?_
  omega

/-- Four failed attempts to open the motor in an emergency, then a successful one. -/
def fiveAttempts : List ServiceAction :=
  [.dispatch .Emergency, .refused 0, .timeout 0, .refused 0, .timeout 0, .refused 0, .timeout 0,
    .refused 0, .timeout 0, .connected 0]

theorem attempts_iff_fiveAttempts :
    ∃ s c, Transition.run (Sockets.step doorconfig) .init fiveAttempts = some s ∧
      s.calls[0]? = some c ∧ c.emergency = true ∧
      ((fiveAttempts.count (.timeout 0) ≤ 3 ∧
          Transition.Meets (Sockets.step doorconfig) (WritesOnce doorconfig 0) .init
            fiveAttempts) ↔
        fiveAttempts.countP (Failure 0) ≤ 3 + (if c.phase = .waiting then 1 else 0) ∧
          Everywhere (NotAfterRefusal 0) fiveAttempts) :=
  ⟨_, _, rfl, rfl, rfl, attempts_iff rfl rfl rfl⟩

/-- The call retries four times, and its one successful attempt writes "Open"
five times. -/
theorem mode_written_five_times :
    ∃ s c, Transition.run (Sockets.step doorconfig) .init fiveAttempts = some s ∧
      s.calls[0]? = some c ∧ c.service = .Motor ∧ c.mode = "Open" ∧ c.emergency = true ∧
      s.written = [0, 0, 0, 0, 0] ∧ ¬ fiveAttempts.count (.timeout 0) ≤ 3 ∧
      ¬ Transition.Meets (Sockets.step doorconfig) (WritesOnce doorconfig 0) .init
        fiveAttempts := by
  refine ⟨_, _, rfl, rfl, rfl, rfl, rfl, rfl, by decide, ?_⟩
  have hall : Attempted doorconfig fiveAttempts _ := attempted_of_run rfl
  rw [(hall.tally 0 _ rfl).once]
  intro h
  exact h (fiveAttempts.take 9) (.connected 0) [] rfl rfl (by decide)

end SmartDoor.Online
