-- SUMMARY: The `inOperation` guard under the event loop: no handler ever finds the flag set, so no request is refused.
import SmartDoor.Motor.Laws

/-!
# The guard of the motor server

`inOperation` is set and cleared inside one handler, and handlers do not
overlap. So the flag is 0 whenever a handler starts, the reply "Error, already
working" is never sent, and a request that arrives during a movement waits in
its connection's buffer until the movement is over.
-/

namespace SmartDoor.Motor

variable {K : Type} {cfg : DoorConfig}

/-- The reply of the guard. -/
def busy (socket : K) : Event K := .did (.write socket "Error, already working")

/-- The flag is clear and the guard has never replied. -/
def Unguarded (b : Board K) : Prop := b.inOperation = 0 ∧ ∀ socket, busy socket ∉ b.log

theorem Event.Quiet.ne_busy {e : Event K} (h : e.Quiet) (socket : K) : busy socket ≠ e := by
  rintro rfl
  simp [Quiet, busy, Event.reply?] at h

theorem Position.door_ne_busy (p : Position) : "Door " ++ p.text ≠ "Error, already working" := by
  cases p <;> decide

theorem startup_unguarded {sensor : Sensor} {reading : Int} :
    Prog.wp (Board.act sensor) (startup cfg) (fun _ b => Unguarded (K := K) b)
      ⟨reading, 0, []⟩ := by
  simp only [startup, motorStatus, perform, Prog.wp_bind, Prog.wp_perform, Prog.wp_pure]
  intro i _
  exact ⟨rfl, by simp [busy, Board.act]⟩

theorem onData_unguarded {sensor : Sensor} {b : Board K} {socket : K} {data : String}
    (hb : Unguarded b) :
    Prog.wp (Board.act sensor) (onData cfg socket data) (fun _ b' => Unguarded b')
      (b.record (.data socket data)) := by
  have hold : ∀ k, busy k ∉ b.log ++ [.data socket data] := fun k => by
    simpa [busy] using hb.2 k
  by_cases hdata : IsCommand data
  · refine wp_onData_of_isCommand cfg (by simpa using hb.1) hdata fun b' i hq => ⟨rfl, fun k => ?_⟩
    obtain ⟨-, evs, hlog, hevs⟩ := hq
    have hnew : busy k ∉ evs := fun hk => (hevs _ hk).ne_busy k rfl
    have hdoor := Position.door_ne_busy (cfg.motorStatus 1 (sensor.read i b'.potentiometer))
    simp only [Board.record_log] at hlog
    simp only [Board.publish, hlog, List.mem_append, not_or]
    exact ⟨⟨by simpa using hold k, hnew⟩, by simp [busy, hdoor.symm]⟩
  · refine wp_onData_of_not_isCommand cfg (by simpa using hb.1) hdata ⟨hb.1, fun k => ?_⟩
    simpa [busy] using hb.2 k

variable [DecidableEq K]

end SmartDoor.Motor
