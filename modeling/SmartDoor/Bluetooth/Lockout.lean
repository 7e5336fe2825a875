-- SUMMARY: How often the service can enter recovery: what the reset of its counters to -1000 allows.
import SmartDoor.Bluetooth.Recovery

/-!
# Recoveries are rare

A recovery sets both counters to -1000, so the larger of them has to come back to
three before the next one. A tick raises it by one; a pong or an awaited echo may
raise it to zero at once.
-/

namespace SmartDoor.Bluetooth

variable {K : Type} {s : KeepAlive K}

/-- The data are one byte that the service may react to. -/
def Event.resets : Event K → Bool
  | .data chunk => chunk = ['4'] || chunk = ['5'] || chunk = ['1'] || chunk = ['0']
  | _ => false

/-- The counter that is closer to a recovery. -/
def KeepAlive.urgency (s : KeepAlive K) : Int := max s.failcount s.btwaitfailcount

theorem urgency_onData (s : KeepAlive K) (chunk : List Char) (hlow : -1000 ≤ s.urgency) :
    -1000 ≤ (s.onData chunk).urgency ∧ (s.onData chunk).urgency ≤ s.urgency +
      if (Event.data chunk : Event K).resets then 1000 else 0 := by
  obtain ⟨hp, hw, -⟩ := s.onData_counters chunk
  unfold KeepAlive.urgency at hlow ⊢
  split
  · omega
  · next hno =>
    have hignored : s.onData chunk = s := by
      have hne : chunk ≠ ['4'] ∧ chunk ≠ ['5'] ∧ chunk ≠ ['1'] ∧ chunk ≠ ['0'] := by
        simpa [Event.resets, and_assoc] using hno
      exact s.onData_other hne.1 hne.2.1 fun m => by cases m <;> simp [Mode.byte, hne]
    rw [hignored]
    omega

theorem urgency_tick (s : KeepAlive K) (hlow : -1000 ≤ s.urgency) :
    -1000 ≤ s.tick.urgency ∧
      1003 * (s.tick.recoveries : Int) + s.tick.urgency ≤ 1003 * s.recoveries + s.urgency + 1 := by
  have hchecked : s.fails ≤ s.failcount + 1 ∧ s.failcount ≤ s.fails ∧
      s.waitfails ≤ s.btwaitfailcount + 1 ∧ s.btwaitfailcount ≤ s.waitfails := by
    unfold KeepAlive.fails KeepAlive.waitfails
    split <;> split <;> omega
  unfold KeepAlive.urgency at hlow ⊢
  rw [s.tick_recoveries]
  split
  · next hrecover =>
    -- both counters fall to -1000
    have hreset : s.tick.failcount = -1000 ∧ s.tick.btwaitfailcount = -1000 := by
      have hge : s.checked.failcount ≥ 3 ∨ s.checked.btwaitfailcount ≥ 3 := hrecover
      rw [s.tick_eq, KeepAlive.check, if_pos hge]
      constructor
      · simp only [apply_ite KeepAlive.failcount, ite_self]
      · simp only [apply_ite KeepAlive.btwaitfailcount, ite_self]
    omega
  · next hquiet =>
    obtain ⟨-, hf, hw⟩ := KeepAlive.tick_counters hquiet
    omega

/-- Each recovery is paid for by 1003 steps of the counters. -/
theorem recoveries_add_urgency (es : List (Event K)) :
    -1000 ≤ (served es).urgency ∧ 1003 * ((served es).recoveries : Int) + (served es).urgency ≤
      es.countP Event.isTick + 1000 * es.countP Event.resets := by
  induction es using List.reverseRecOn with
  | nil => simp [served, exec, KeepAlive.init, KeepAlive.urgency]
  | append_singleton es e ih =>
    obtain ⟨hlow, hpaid⟩ := ih
    rw [served_concat, List.countP_append, List.countP_append, List.countP_singleton,
      List.countP_singleton]
    cases e with
    | data chunk =>
      obtain ⟨hlow', hle⟩ := urgency_onData (served es) chunk hlow
      have hrec := ((served es).onData_counters chunk).2.2
      have htick : ¬ (Event.data chunk : Event K).isTick = true := Bool.false_ne_true
      simp only [Event.handle, hrec, if_neg htick]
      refine ⟨hlow', ?_⟩
      split at hle
      · next hresets =>
        rw [if_pos hresets]
        omega
      · next hno =>
        rw [if_neg hno]
        omega
    | request socket text =>
      obtain ⟨-, hf, hw, hrec, -⟩ := (served es).onRequest_counters socket text
      unfold KeepAlive.urgency at hlow hpaid ⊢
      simp only [Event.handle, hf, hw, hrec, Event.isTick, Event.resets]
      exact ⟨hlow, by simpa using hpaid⟩
    | tick =>
      obtain ⟨hlow', hle⟩ := urgency_tick (served es) hlow
      simp only [Event.handle, Event.isTick, Event.resets]
      refine ⟨hlow', ?_⟩
      simp
      omega

/-- In every run the service recovers at most once in 1003 ticks, the first time after
three, but for what pongs and echoes add: each chunk that is one of the four bytes it
knows can bring the next recovery nearer by 1000 ticks. -/
theorem recoveries_le (es : List (Event K)) :
    1003 * (served es).recoveries ≤
      1000 + es.countP Event.isTick + 1000 * es.countP Event.resets := by
  obtain ⟨hlow, hpaid⟩ := recoveries_add_urgency es
  omega

end SmartDoor.Bluetooth
