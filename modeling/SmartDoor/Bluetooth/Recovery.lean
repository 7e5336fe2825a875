-- SUMMARY: When the Bluetooth recovery follows a real silence: the two counters against what was sent and received.
import Mathlib.Data.List.DropRight
import SmartDoor.Base.Lists
import SmartDoor.Bluetooth.Answers
import SmartDoor.Bluetooth.Device

/-!
# Recovery and silence

A tick enters recovery when one of two counters reaches three. `failcount` with
the flag `receivedpong` measures the ticks since the last pong, one tick late;
after the start there is no pong to be late for, and the third tick already
recovers. A pong that shares its chunk with another byte leaves both alone.
`btwaitfailcount` measures the ticks of a wait, and a request that replaces an
outstanding one takes over its count.
-/

namespace SmartDoor.Bluetooth

variable {K : Type}

/-- The service after its start-up and the events. -/
def served (es : List (Event K)) : KeepAlive K := exec .init es

/-- The data contain a '4' or a '5', alone or among other bytes. -/
def Event.hasPong : Event K → Bool
  | .data chunk => chunk.contains '4' || chunk.contains '5'
  | _ => false

/-- The data are a '4' or a '5' alone. -/
def Event.isPong : Event K → Bool
  | .data chunk => chunk = ['4'] || chunk = ['5']
  | _ => false

/-- A request for a mode. -/
def Event.isRequest (e : Event K) : Bool := e.accepted?.isSome

def Event.isTick : Event K → Bool
  | .tick => true
  | _ => false

/-- The events up to the last one with the property, if there is one. -/
def upTo (P : Event K → Bool) (es : List (Event K)) : List (Event K) :=
  es.rdropWhile fun e => !P e

/-- The events since the last one with the property, or since the start. -/
def since (P : Event K → Bool) (es : List (Event K)) : List (Event K) :=
  es.rtakeWhile fun e => !P e

/-- The pings written to the port. -/
def pings (es : List (Event K)) : Nat := (served es).port.count '3'

/-- At least three pings have been written since the last pong was received, or
since the start. -/
def Silence (es : List (Event K)) : Prop := pings (upTo Event.hasPong es) + 3 ≤ pings es

/-- A request is pending, and with the tick that follows `es` it has been sent
again by at least three ticks. -/
def Resent (es : List (Event K)) : Prop :=
  (served es).btwait = true ∧ 3 ≤ (since Event.isRequest es).countP Event.isTick + 1

/-- The event `e` after `es` is the first tick that enters recovery. -/
def Recovers (es : List (Event K)) (e : Event K) : Prop :=
  e = .tick ∧ (served es).recoveries = 0 ∧ (served (es ++ [e])).recoveries ≠ 0

def Justified (es : List (Event K)) (e : Event K) : Prop := Recovers es e → Silence es ∨ Resent es

/-! ## What the recovery depends on -/

/-- In the tick interval of the last '4' or '5' one has come alone. Not so after a
start-up without a pong, and not if the last pong shared its chunk and none came
alone after the tick before it. -/
def Heard (es : List (Event K)) : Prop :=
  ∃ e ∈ since Event.isTick (upTo Event.hasPong es), e.isPong = true

/-- The service waits, and a tick has sent a request again in the course of the wait. -/
def Repeated (es : List (Event K)) : Prop :=
  ∃ pre mid, es = pre ++ .tick :: mid ∧ ∀ p, p <+: mid → (served (pre ++ .tick :: p)).btwait = true

/-- The last request was made in a wait in which one had been sent again. -/
def Replaced (es : List (Event K)) : Prop := Repeated (upTo Event.isRequest es).dropLast

namespace KeepAlive

/-- The two counters when a tick checks them. -/
def fails (s : KeepAlive K) : Int :=
  if s.receivedpong = 0 then s.failcount + 1 else s.failcount

def waitfails (s : KeepAlive K) : Int :=
  if s.btwait then s.btwaitfailcount + 1 else s.btwaitfailcount

end KeepAlive

/-- The condition on a tick before the first recovery. If one of the counters is
at three, then either that of the pongs is and the last pong has been heard, or
that of the wait is and the pending request was not made in a wait with
repetitions. -/
def Counted (es : List (Event K)) (e : Event K) : Prop :=
  e = .tick → (served es).recoveries = 0 →
    (served es).fails ≥ 3 ∨ (served es).waitfails ≥ 3 →
    ((served es).fails ≥ 3 ∧ Heard es) ∨ ((served es).waitfails ≥ 3 ∧ ¬ Replaced es)

/-! ## What a tick does to the counters -/

namespace KeepAlive

/-- The state in which a tick checks the counters. -/
def checked (s : KeepAlive K) : KeepAlive K :=
  { s with
    failcount := s.fails
    btwaitfailcount := s.waitfails
    port := if s.btwait then s.port ++ s.btdata else s.port }

/-- The check, and what follows it. -/
def check (s : KeepAlive K) : KeepAlive K :=
  let s := if s.failcount ≥ 3 ∨ s.btwaitfailcount ≥ 3 then
      { s with
        bt := .Off, recoveries := s.recoveries + 1
        failcount := -1000, btwaitfailcount := -1000 }
    else s
  let s := if s.receivedpong = 1 then { s with receivedpong := 0 } else s
  { s with port := s.port ++ ['3'] }

theorem tick_eq (s : KeepAlive K) : s.tick = s.checked.check := by
  have hchecked : s.checked =
      (let s := if s.receivedpong = 0 then { s with failcount := s.failcount + 1 } else s
       if s.btwait then
        { s with btwaitfailcount := s.btwaitfailcount + 1, port := s.port ++ s.btdata }
       else s) := by
    unfold checked fails waitfails
    split
    · dsimp only
      split
      · rfl
      · rfl
    · dsimp only
      split
      · rfl
      · rfl
  rw [hchecked]
  rfl

theorem tick_recoveries (s : KeepAlive K) : s.tick.recoveries =
    if s.fails ≥ 3 ∨ s.waitfails ≥ 3 then s.recoveries + 1 else s.recoveries := by
  rw [tick_eq]
  simp only [check, apply_ite KeepAlive.recoveries, ite_self]
  rfl

/-- A tick that does not recover. -/
theorem tick_counters {s : KeepAlive K} (h : ¬ (s.fails ≥ 3 ∨ s.waitfails ≥ 3)) :
    s.tick.receivedpong = (if s.receivedpong = 1 then 0 else s.receivedpong) ∧
    s.tick.failcount = s.fails ∧ s.tick.btwaitfailcount = s.waitfails := by
  have hchecked : ¬ (s.checked.failcount ≥ 3 ∨ s.checked.btwaitfailcount ≥ 3) := h
  rw [tick_eq, check, if_neg hchecked]
  by_cases hpong : s.receivedpong = 1
  · have hc : s.checked.receivedpong = 1 := hpong
    rw [if_pos hc, if_pos hpong]
    exact ⟨rfl, rfl, rfl⟩
  · have hc : ¬ s.checked.receivedpong = 1 := hpong
    rw [if_neg hc, if_neg hpong]
    exact ⟨rfl, rfl, rfl⟩

/-! ## What the other events do to them -/

/-- A chunk is a pong, or the echo that ends the wait, or does not matter. -/
theorem onData_counters (s : KeepAlive K) (chunk : List Char) :
    ((s.onData chunk).receivedpong = 1 ∧ (s.onData chunk).failcount = 0 ∧
        (Event.data chunk : Event K).isPong = true ∨
      (s.onData chunk).receivedpong = s.receivedpong ∧
        (s.onData chunk).failcount = s.failcount ∧
        (Event.data chunk : Event K).isPong = false) ∧
    ((s.onData chunk).btwait = s.btwait ∧
        (s.onData chunk).btwaitfailcount = s.btwaitfailcount ∨
      (s.onData chunk).btwait = false ∧ (s.onData chunk).btwaitfailcount = 0) ∧
    (s.onData chunk).recoveries = s.recoveries := by
  by_cases h4 : chunk = ['4']
  · subst h4
    rw [onData_four]
    exact ⟨.inl ⟨rfl, rfl, rfl⟩, .inl ⟨rfl, rfl⟩, rfl⟩
  by_cases h5 : chunk = ['5']
  · subst h5
    rw [onData_five]
    exact ⟨.inl ⟨rfl, rfl, rfl⟩, .inl ⟨rfl, rfl⟩, rfl⟩
  have hno : (Event.data chunk : Event K).isPong = false := by
    simp [Event.isPong, h4, h5]
  by_cases hm : ∃ m : Mode, chunk = [m.byte]
  · obtain ⟨m, rfl⟩ := hm
    rw [onData_byte]
    split
    · unfold ack answer
      split
      · exact ⟨.inr ⟨rfl, rfl, hno⟩, .inr ⟨rfl, rfl⟩, rfl⟩
      · exact ⟨.inr ⟨rfl, rfl, hno⟩, .inr ⟨rfl, rfl⟩, rfl⟩
    · exact ⟨.inr ⟨rfl, rfl, hno⟩, .inl ⟨rfl, rfl⟩, rfl⟩
  · rw [onData_other s h4 h5 fun m h => hm ⟨m, h⟩]
    exact ⟨.inr ⟨rfl, rfl, hno⟩, .inl ⟨rfl, rfl⟩, rfl⟩

theorem onData_frame (s : KeepAlive K) (chunk : List Char) :
    (s.onData chunk).port = s.port ∧ (s.onData chunk).btdata = s.btdata := by
  by_cases hlen : chunk.length = 1
  · obtain ⟨c, rfl⟩ := List.length_eq_one_iff.mp hlen
    obtain ⟨hdata, hport, -⟩ := onData_singleton s c
    exact ⟨hport, hdata⟩
  · rw [onData_of_length_ne_one s hlen]
    exact ⟨rfl, rfl⟩

/-- A request leaves the counters alone; only one for a mode begins or keeps a wait. -/
theorem onRequest_counters (s : KeepAlive K) (socket : K) (text : String) :
    (s.onRequest socket text).receivedpong = s.receivedpong ∧
    (s.onRequest socket text).failcount = s.failcount ∧
    (s.onRequest socket text).btwaitfailcount = s.btwaitfailcount ∧
    (s.onRequest socket text).recoveries = s.recoveries ∧
    ((Event.request socket text).isRequest = false → (s.onRequest socket text).btwait = s.btwait) ∧
    (s.btwait = true → (s.onRequest socket text).btwait = true) := by
  unfold onRequest
  split
  case isTrue h =>
    refine ⟨rfl, rfl, rfl, rfl, fun hno => ?_, fun _ => rfl⟩
    simp [Event.isRequest, Event.accepted?, h] at hno
  case isFalse h => exact ⟨rfl, rfl, rfl, rfl, fun _ => rfl, fun hw => hw⟩

theorem tick_receivedpong (s : KeepAlive K) : s.tick.receivedpong ≠ 1 := by
  rw [tick_eq]
  simp only [check, apply_ite KeepAlive.receivedpong, ite_self]
  split
  · decide
  · next hno => exact hno

end KeepAlive

/-- Only a pong sets the flag, and only a tick clears it. -/
theorem handle_receivedpong (s : KeepAlive K) (e : Event K) :
    (e.handle s).receivedpong = 1 ↔
      e.isTick = false ∧ (e.isPong = true ∨ s.receivedpong = 1) := by
  cases e with
  | data chunk =>
    obtain ⟨hone, -, hpong⟩ | ⟨heq, -, hno⟩ := (s.onData_counters chunk).1
    · simp [Event.handle, Event.isTick, hone, hpong]
    · simp [Event.handle, Event.isTick, heq, hno]
  | request socket text =>
    have heq := (s.onRequest_counters socket text).1
    simp [Event.handle, Event.isTick, Event.isPong, heq]
  | tick => simp [Event.handle, Event.isTick, s.tick_receivedpong]

/-! ## The counters before the first recovery -/

structure KeepAlive.Counts (s : KeepAlive K) : Prop where
  pong : s.receivedpong = 0 ∨ s.receivedpong = 1 ∧ s.failcount = 0
  fail : 0 ≤ s.failcount ∧ s.failcount < 3
  wait : 0 ≤ s.btwaitfailcount ∧ s.btwaitfailcount < 3
  idle : s.btwait = false → s.btwaitfailcount = 0

theorem served_concat {es : List (Event K)} {e : Event K} :
    served (es ++ [e]) = e.handle (served es) := by
  simp [served, exec]

theorem handle_recoveries (s : KeepAlive K) (e : Event K) :
    s.recoveries ≤ (e.handle s).recoveries := by
  cases e with
  | data chunk => exact Nat.le_of_eq (s.onData_counters chunk).2.2.symm
  | request socket text => exact Nat.le_of_eq (s.onRequest_counters socket text).2.2.2.1.symm
  | tick =>
    rw [Event.handle, s.tick_recoveries]
    split
    · exact Nat.le_succ _
    · exact Nat.le_refl _

/-- A tick that leaves the number of recoveries alone has found both counters low. -/
theorem tick_quiet {s : KeepAlive K} (h : s.tick.recoveries = s.recoveries) :
    ¬ (s.fails ≥ 3 ∨ s.waitfails ≥ 3) := by
  intro hge
  rw [s.tick_recoveries, if_pos hge] at h
  omega

/-- The count grows at the ticks of a wait, and only a wait has one. -/
theorem handle_btwaitfailcount {s : KeepAlive K} {e : Event K}
    (hidle : s.btwait = false → s.btwaitfailcount = 0)
    (hr : (e.handle s).recoveries = s.recoveries) :
    (e.handle s).btwaitfailcount = if (e.handle s).btwait then
      s.btwaitfailcount + (if e.isTick then 1 else 0) else 0 := by
  cases e with
  | data chunk =>
    obtain ⟨hbt, heq⟩ | ⟨hbt, heq⟩ := (s.onData_counters chunk).2.1
    · rw [Event.handle, hbt, heq]
      cases hw : s.btwait with
      | false => simp [hidle hw]
      | true => simp [Event.isTick]
    · simp [Event.handle, hbt, heq]
  | request socket text =>
    obtain ⟨-, -, heq, -, -, hkeep⟩ := s.onRequest_counters socket text
    rw [Event.handle, heq]
    cases hw : s.btwait with
    | false => simp [Event.isTick, hidle hw]
    | true => simp [Event.isTick, hkeep hw]
  | tick =>
    obtain ⟨-, -, heq⟩ := KeepAlive.tick_counters (tick_quiet hr)
    rw [Event.handle, heq, (tick_frame s).2.1, KeepAlive.waitfails]
    cases hw : s.btwait with
    | false => simp [hidle hw]
    | true => rfl

theorem KeepAlive.Counts.handle {s : KeepAlive K} {e : Event K} (h : s.Counts)
    (hr : (e.handle s).recoveries = s.recoveries) : (e.handle s).Counts := by
  obtain ⟨hpong, hfail, hwait, hidle⟩ := h
  have hidle' : (e.handle s).btwait = false → (e.handle s).btwaitfailcount = 0 := by
    intro hno
    rw [handle_btwaitfailcount hidle hr, hno]
    rfl
  cases e with
  | data chunk =>
    obtain ⟨hp, hw, -⟩ := s.onData_counters chunk
    refine ⟨?_, ?_, ?_, hidle'⟩
    · simp only [Event.handle]
      omega
    · simp only [Event.handle]
      omega
    · simp only [Event.handle]
      omega
  | request socket text =>
    obtain ⟨hp, hf, hw, -⟩ := s.onRequest_counters socket text
    exact ⟨by rw [Event.handle, hp, hf]; exact hpong, by rw [Event.handle, hf]; exact hfail,
      by rw [Event.handle, hw]; exact hwait, hidle'⟩
  | tick =>
    have hquiet := tick_quiet hr
    obtain ⟨hp, hf, hw⟩ := KeepAlive.tick_counters hquiet
    rw [not_or] at hquiet
    have hfails : 0 ≤ s.fails := by
      unfold KeepAlive.fails
      split <;> omega
    have hwaitfails : 0 ≤ s.waitfails := by
      unfold KeepAlive.waitfails
      split <;> omega
    refine ⟨.inl ?_, ?_, ?_, hidle'⟩
    · rw [Event.handle, hp]
      obtain hzero | ⟨hone, -⟩ := hpong
      · simp [hzero]
      · simp [hone]
    · rw [Event.handle, hf]
      omega
    · rw [Event.handle, hw]
      omega

theorem served_recoveries {pre post : List (Event K)}
    (h : (served (pre ++ post)).recoveries = 0) : (served pre).recoveries = 0 := by
  induction post using List.reverseRecOn with
  | nil => simpa using h
  | append_singleton post e ih =>
    rw [← List.append_assoc, served_concat] at h
    have hle := handle_recoveries (served (pre ++ post)) e
    exact ih (by omega)

theorem counts_served {es : List (Event K)} (h : (served es).recoveries = 0) :
    (served es).Counts := by
  induction es using List.reverseRecOn with
  | nil =>
    refine ⟨.inl rfl, ?_, ?_, fun _ => rfl⟩
    · simp [served, exec, KeepAlive.init]
    · simp [served, exec, KeepAlive.init]
  | append_singleton es e ih =>
    have hes := served_recoveries h
    rw [served_concat] at h ⊢
    exact (ih hes).handle (h.trans hes.symm)

/-! ## Pings -/

theorem handle_pings {s : KeepAlive K} (e : Event K) (h : '3' ∉ s.btdata) :
    '3' ∉ (e.handle s).btdata ∧
      (e.handle s).port.count '3' = s.port.count '3' + if e.isTick then 1 else 0 := by
  cases e with
  | data chunk =>
    obtain ⟨hport, hdata⟩ := s.onData_frame chunk
    rw [Event.handle, hport, hdata]
    exact ⟨h, rfl⟩
  | request socket text =>
    by_cases hm : ∃ m : Mode, text = m.text
    · obtain ⟨m, rfl⟩ := hm
      rw [Event.handle, KeepAlive.onRequest_text]
      have hbyte := three_ne_byte m
      simp [Event.isTick, hbyte, hbyte.symm]
    · rw [Event.handle, KeepAlive.onRequest_of_ne_text socket fun m heq => hm ⟨m, heq⟩]
      exact ⟨h, rfl⟩
  | tick =>
    obtain ⟨hdata, -, hport⟩ := tick_frame s
    rw [Event.handle, hdata, hport]
    refine ⟨h, ?_⟩
    have hresend : (if s.btwait = true then s.btdata else []).count '3' = 0 := by
      split
      · exact List.count_eq_zero.mpr h
      · rfl
    rw [List.count_append, List.count_append, hresend]
    rfl

/-- Every tick writes one ping, and nothing else does. -/
theorem pings_eq {es : List (Event K)} : pings es = es.countP Event.isTick := by
  have hinv : '3' ∉ (served es).btdata ∧ pings es = es.countP Event.isTick := by
    induction es using List.reverseRecOn with
    | nil => simp [pings, served, exec, KeepAlive.init]
    | append_singleton es e ih =>
      obtain ⟨hdata, hcount⟩ := handle_pings e ih.1
      unfold pings
      rw [served_concat, hcount, List.countP_append, List.countP_singleton]
      exact ⟨hdata, by rw [← ih.2, pings]⟩
  exact hinv.2

/-! ## The last event with a property -/

section Last

variable {P : Event K → Bool}

theorem upTo_append_since (P : Event K → Bool) (es : List (Event K)) :
    upTo P es ++ since P es = es := List.rdropWhile_append_rtakeWhile ..

theorem not_of_mem_since {es : List (Event K)} {e : Event K} (h : e ∈ since P es) :
    P e = false := by
  have hneg := List.mem_rtakeWhile_imp h
  simpa using hneg

theorem since_concat {es : List (Event K)} {e : Event K} :
    since P (es ++ [e]) = if P e then [] else since P es ++ [e] := by
  unfold since
  rw [List.rtakeWhile_concat]
  cases P e <;> rfl

theorem upTo_eq_nil_or (P : Event K → Bool) (es : List (Event K)) :
    upTo P es = [] ∨ ∃ pre e, upTo P es = pre ++ [e] ∧ P e = true := by
  refine or_iff_not_imp_left.mpr fun hne => ?_
  have hlast := List.rdropWhile_last_not (fun e => !P e) es hne
  exact ⟨_, _, (List.dropLast_append_getLast hne).symm, by simpa [upTo] using hlast⟩

end Last

/-! ## The missing pongs -/

/-- How long the service has heard nothing: each tick adds one, a pong sets it to -1. -/
def KeepAlive.silence (s : KeepAlive K) : Int := if s.receivedpong = 1 then -1 else s.failcount

theorem hasPong_of_isPong {e : Event K} (h : e.isPong = true) : e.hasPong = true := by
  cases e with
  | data chunk =>
    obtain rfl | rfl : chunk = ['4'] ∨ chunk = ['5'] := by simpa [Event.isPong] using h
    · rfl
    · rfl
  | _ => cases h

theorem handle_silence {s : KeepAlive K} {e : Event K} (h : s.Counts) (hpong : e.hasPong = false)
    (hr : (e.handle s).recoveries = s.recoveries) :
    (e.handle s).silence = s.silence + if e.isTick then 1 else 0 := by
  unfold KeepAlive.silence
  cases e with
  | data chunk =>
    obtain ⟨-, -, halone⟩ | ⟨hp, hf, -⟩ := (s.onData_counters chunk).1
    · rw [hasPong_of_isPong halone] at hpong
      cases hpong
    · rw [Event.handle, hp, hf]
      exact (Int.add_zero _).symm
  | request socket text =>
    obtain ⟨hp, hf, -⟩ := s.onRequest_counters socket text
    rw [Event.handle, hp, hf]
    exact (Int.add_zero _).symm
  | tick =>
    obtain ⟨hp, hf, -⟩ := KeepAlive.tick_counters (tick_quiet hr)
    rw [Event.handle, hp, hf, KeepAlive.fails]
    obtain hzero | ⟨hone, hfail⟩ := h.pong
    · simp [hzero, Event.isTick]
    · simp [hone, hfail, Event.isTick]

theorem silence_served (pre : List (Event K)) {post : List (Event K)}
    (hpong : ∀ e ∈ post, e.hasPong = false) (h : (served (pre ++ post)).recoveries = 0) :
    (served (pre ++ post)).silence = (served pre).silence + post.countP Event.isTick := by
  induction post using List.reverseRecOn with
  | nil => simp
  | append_singleton post e ih =>
    rw [← List.append_assoc] at h ⊢
    have hprev := served_recoveries h
    obtain ⟨hpost, he⟩ := List.forall_mem_append.mp hpong
    rw [served_concat] at h ⊢
    rw [handle_silence (counts_served hprev) (he e (List.mem_singleton_self e))
      (h.trans hprev.symm), ih hpost hprev, List.countP_append, List.countP_singleton]
    split
    · omega
    · omega

/-- The flag is set while a pong has come alone since the last tick. -/
theorem receivedpong_iff {es : List (Event K)} :
    (served es).receivedpong = 1 ↔ ∃ e ∈ since Event.isTick es, e.isPong = true := by
  induction es using List.reverseRecOn with
  | nil => simp [served, exec, KeepAlive.init, since]
  | append_singleton es e ih =>
    rw [served_concat, handle_receivedpong, ih, since_concat]
    cases e.isTick with
    | true => simp
    | false => simp [or_comm, or_and_right, exists_or]

/-- There have been three pings without a pong exactly if the counter says so and
the last pong has been heard. -/
theorem silence_iff {es : List (Event K)} (h : (served es).recoveries = 0) :
    Silence es ↔ (served es).fails ≥ 3 ∧ Heard es := by
  have hsplit := upTo_append_since Event.hasPong es
  have hpre : (served (upTo Event.hasPong es)).recoveries = 0 :=
    served_recoveries (hsplit.symm ▸ h)
  have hsilence := silence_served (upTo Event.hasPong es) (fun e he => not_of_mem_since he)
    (hsplit.symm ▸ h)
  rw [hsplit] at hsilence
  have hpings : pings es =
      pings (upTo Event.hasPong es) + (since Event.hasPong es).countP Event.isTick := by
    rw [pings_eq, pings_eq, ← List.countP_append, hsplit]
  unfold Silence Heard
  rw [hpings, ← receivedpong_iff]
  obtain ⟨hpong, hfail, -, -⟩ := counts_served h
  have hfail₀ := (counts_served hpre).fail
  unfold KeepAlive.silence at hsilence
  unfold KeepAlive.fails
  split at hsilence
  · split at hsilence <;> omega
  · split at hsilence <;> omega

/-! ## The repeated request -/

/-- Without a request the wait has begun before. -/
theorem btwait_of_handle {s : KeepAlive K} {e : Event K} (hrequest : e.isRequest = false)
    (hwait : (e.handle s).btwait = true) : s.btwait = true := by
  cases e with
  | data chunk =>
    rw [Event.handle] at hwait
    obtain ⟨hbt, -⟩ | ⟨hbt, -⟩ := (s.onData_counters chunk).2.1
    · rwa [hbt] at hwait
    · rw [hbt] at hwait
      cases hwait
  | request socket text =>
    obtain ⟨-, -, -, -, hbt, -⟩ := s.onRequest_counters socket text
    rwa [Event.handle, hbt hrequest] at hwait
  | tick => rwa [Event.handle, (tick_frame s).2.1] at hwait

theorem wait_served (pre : List (Event K)) {post : List (Event K)}
    (hrequest : ∀ e ∈ post, e.isRequest = false)
    (h : (served (pre ++ post)).recoveries = 0) (hwait : (served (pre ++ post)).btwait = true) :
    (served (pre ++ post)).btwaitfailcount =
      (served pre).btwaitfailcount + post.countP Event.isTick := by
  induction post using List.reverseRecOn with
  | nil => simp
  | append_singleton post e ih =>
    rw [← List.append_assoc] at h hwait ⊢
    have hprev := served_recoveries h
    obtain ⟨hpost, he⟩ := List.forall_mem_append.mp hrequest
    rw [served_concat] at h hwait ⊢
    have hbt := btwait_of_handle (he e (List.mem_singleton_self e)) hwait
    rw [handle_btwaitfailcount (counts_served hprev).idle (h.trans hprev.symm), if_pos hwait,
      ih hpost hprev hbt, List.countP_append, List.countP_singleton]
    split
    · omega
    · omega

theorem repeated_concat {es : List (Event K)} {e : Event K} :
    Repeated (es ++ [e]) ↔
      (served (es ++ [e])).btwait = true ∧ (e.isTick = true ∨ Repeated es) := by
  constructor
  · rintro ⟨pre, mid, heq, hwait⟩
    obtain rfl | ⟨mid, e', rfl⟩ := List.eq_nil_or_concat' mid
    · obtain ⟨rfl, he⟩ := List.append_inj' heq rfl
      obtain rfl := List.singleton_inj.mp he
      exact ⟨hwait [] List.prefix_rfl, .inl rfl⟩
    · have hsplit : es ++ [e] = (pre ++ .tick :: mid) ++ [e'] := by simpa using heq
      obtain ⟨rfl, -⟩ := List.append_inj' hsplit rfl
      refine ⟨heq ▸ hwait _ List.prefix_rfl, .inr ⟨pre, mid, rfl, fun p hp => ?_⟩⟩
      exact hwait p (hp.trans (List.prefix_append mid [e']))
  · rintro ⟨hwait, htick | ⟨pre, mid, rfl, hmid⟩⟩
    · cases e with
      | tick =>
        refine ⟨es, [], rfl, fun p hp => ?_⟩
        rw [List.prefix_nil.mp hp]
        exact hwait
      | _ => cases htick
    · refine ⟨pre, mid ++ [e], by simp, fun p hp => ?_⟩
      obtain rfl | hp := List.prefix_concat_iff.mp hp
      · simpa using hwait
      · exact hmid p hp

/-- The count is positive exactly in a wait in which a request has been sent again. -/
theorem btwaitfailcount_ne_zero_iff {es : List (Event K)} (h : (served es).recoveries = 0) :
    (served es).btwaitfailcount ≠ 0 ↔ Repeated es := by
  induction es using List.reverseRecOn with
  | nil => simp [served, exec, KeepAlive.init, Repeated]
  | append_singleton es e ih =>
    have hes := served_recoveries h
    rw [served_concat] at h
    have hcounts := counts_served hes
    have hpos := hcounts.wait
    rw [repeated_concat, ← ih hes, served_concat,
      handle_btwaitfailcount hcounts.idle (h.trans hes.symm)]
    split
    · next hwait =>
      cases e.isTick with
      | false => simp [hwait]
      | true =>
        have hsucc : (served es).btwaitfailcount + 1 ≠ 0 := by omega
        simpa [hwait] using hsucc
    · next hno => simp [hno]

/-- The request itself leaves the count as it was. -/
theorem btwaitfailcount_upTo_request (es : List (Event K)) :
    (served (upTo Event.isRequest es)).btwaitfailcount =
      (served (upTo Event.isRequest es).dropLast).btwaitfailcount := by
  obtain hnil | ⟨pre, e, heq, he⟩ := upTo_eq_nil_or Event.isRequest es
  · rw [hnil, List.dropLast_nil]
  · rw [heq, List.dropLast_concat, served_concat]
    cases e with
    | request socket text => exact ((served pre).onRequest_counters socket text).2.2.1
    | _ => cases he

/-- The pending request has been repeated three times exactly if the counter says
so and it was not made in a wait with repetitions. -/
theorem resent_iff {es : List (Event K)} (h : (served es).recoveries = 0) :
    Resent es ↔ (served es).waitfails ≥ 3 ∧ ¬ Replaced es := by
  have hsplit := upTo_append_since Event.isRequest es
  have hpre : (served (upTo Event.isRequest es)).recoveries = 0 :=
    served_recoveries (hsplit.symm ▸ h)
  have hbefore : (served (upTo Event.isRequest es).dropLast).recoveries = 0 := by
    obtain ⟨post, hpost⟩ := List.dropLast_prefix (upTo Event.isRequest es)
    exact served_recoveries (hpost.symm ▸ hpre)
  have hlt := (counts_served h).wait
  have hlt₀ := (counts_served hpre).wait
  unfold Resent Replaced KeepAlive.waitfails
  rw [← btwaitfailcount_ne_zero_iff hbefore, ← btwaitfailcount_upTo_request, not_not]
  cases hwait : (served es).btwait with
  | false =>
    simp only [Bool.false_eq_true, if_false, false_and, false_iff]
    omega
  | true =>
    have hcount := wait_served (upTo Event.isRequest es) (fun e he => not_of_mem_since he)
      (hsplit.symm ▸ h) (hsplit.symm ▸ hwait)
    rw [hsplit] at hcount
    simp only [if_true, true_and]
    omega

/-! ## Every run -/

theorem recovers_iff {es : List (Event K)} {e : Event K} :
    Recovers es e ↔ e = .tick ∧ (served es).recoveries = 0 ∧
      ((served es).fails ≥ 3 ∨ (served es).waitfails ≥ 3) := by
  unfold Recovers
  refine and_congr_right fun htick => and_congr_right fun hzero => ?_
  rw [served_concat, htick, Event.handle, KeepAlive.tick_recoveries, hzero]
  split
  · next hge => exact iff_of_true (by decide) hge
  · next hno => exact iff_of_false (fun h => h rfl) hno

/-- In every run the first recovery follows three unanswered pings, or three
repetitions of the pending request, exactly if at each tick that finds a counter
at three the last pong has been heard, for the first counter, or the pending
request was not made in a wait with repetitions, for the second. -/
theorem justified_iff_counted {es : List (Event K)} :
    Lists.Everywhere Justified es ↔ Lists.Everywhere Counted es := by
  have hiff : ∀ pre (e : Event K), Justified pre e ↔ Counted pre e := by
    intro pre e
    unfold Justified Counted
    rw [recovers_iff, and_imp, and_imp]
    refine forall_congr' fun _ => forall_congr' fun hzero => ?_
    rw [silence_iff hzero, resent_iff hzero]
  exact ⟨fun h => h.mono fun pre e => (hiff pre e).mp, fun h => h.mono fun pre e => (hiff pre e).mpr⟩

/-- After the start two pings without an answer are enough. -/
theorem recovers_after_two_pings :
    ¬ Lists.Everywhere Justified [.tick, .tick, (.tick : Event Unit)] := by
  intro h
  have hrec : Recovers [.tick, .tick] (.tick : Event Unit) := ⟨rfl, rfl, by decide⟩
  obtain hsilence | ⟨hwait, -⟩ := h [.tick, .tick] .tick [] rfl hrec
  · have hpings : ¬ Silence [.tick, (.tick : Event Unit)] := by
      unfold Silence
      decide
    exact hpings hsilence
  · cases hwait

end SmartDoor.Bluetooth
