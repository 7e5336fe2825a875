-- SUMMARY: Which effects the motor's programs use, the weakest precondition of the data handler, and the idle-state rule of the server.
import SmartDoor.Motor.Server

/-!
# Laws of the motor server

`doorCom` moves the lock and reports on the way, but it never replies, never
writes `doorneedtobe` and never touches `inOperation`; this is read off its
effects once (`doorCom_uses`). The handler's weakest precondition follows, and
with it the rule for the whole server: what the start-up establishes and every
handler keeps holds whenever no handler is running.
-/

namespace SmartDoor.Motor

variable {K : Type} (cfg : DoorConfig)

/-! ## The effects of doorCom -/

/-- The effects that `doorCom` and what it calls are made of. -/
def Effect.InDoorCom : Effect K → Prop
  | .setDoorneedtobe _ | .getInOperation | .setInOperation _ | .write _ _ => False
  | _ => True

theorem motorStatus_uses {precision : Int} :
    (motorStatus (K := K) cfg precision).Uses Effect.InDoorCom := by
  refine Prog.uses_bind ?_ fun _ => Prog.uses_pure
  simp [perform, Effect.InDoorCom]

theorem printDoorStatus_uses {msg : String} :
    (printDoorStatus (K := K) msg).Uses Effect.InDoorCom := by
  simp [printDoorStatus, perform, Effect.InDoorCom]

theorem reached_uses {direction : String} {p : Position} :
    (reached (K := K) cfg direction p).Uses Effect.InDoorCom := by
  refine Prog.uses_ite ?_ Prog.uses_pure
  exact Prog.uses_bind (motorStatus_uses cfg) fun _ => Prog.uses_pure

theorem shouldBreak_uses {direction : String} :
    (shouldBreak (K := K) cfg direction).Uses Effect.InDoorCom := by
  refine Prog.uses_bind (reached_uses cfg) fun opened => ?_
  exact Prog.uses_ite Prog.uses_pure (reached_uses cfg)

theorem stepLoop_uses {direction : String} (n : Nat) :
    (stepLoop (K := K) cfg direction n).Uses Effect.InDoorCom := by
  induction n with
  | zero => exact Prog.uses_pure
  | succ n ih =>
    refine Prog.uses_bind (by simp [perform, Effect.InDoorCom]) fun _ => ?_
    refine Prog.uses_bind (motorStatus_uses cfg) fun _ => ?_
    refine Prog.uses_bind (shouldBreak_uses cfg) fun stop => Prog.uses_ite Prog.uses_pure ?_
    refine Prog.uses_bind (by simp [perform, Effect.InDoorCom]) fun _ => ?_
    exact Prog.uses_bind (shouldBreak_uses cfg) fun stop => Prog.uses_ite Prog.uses_pure ih

theorem stepMotor_uses {direction : String} :
    (stepMotor (K := K) cfg direction).Uses Effect.InDoorCom := by
  refine Prog.uses_bind (by simp [perform, Effect.InDoorCom]) fun _ => ?_
  refine Prog.uses_bind (by simp [perform, Effect.InDoorCom]) fun _ => ?_
  refine Prog.uses_bind (stepLoop_uses cfg _) fun _ => ?_
  simp [perform, Effect.InDoorCom]

theorem printOutcome_uses {command : String} {status : Position} :
    (printOutcome (K := K) command status).Uses Effect.InDoorCom := by
  refine Prog.uses_ite printDoorStatus_uses ?_
  exact Prog.uses_ite printDoorStatus_uses printDoorStatus_uses

theorem doorCom_uses {command : String} :
    (doorCom (K := K) cfg command).Uses Effect.InDoorCom := by
  refine Prog.uses_bind (motorStatus_uses cfg) fun status => ?_
  refine Prog.uses_ite printDoorStatus_uses (Prog.uses_ite printDoorStatus_uses ?_)
  refine Prog.uses_ite printDoorStatus_uses ?_
  refine Prog.uses_bind (Prog.uses_ite (by simp [perform, Effect.InDoorCom]) Prog.uses_pure)
    fun _ => ?_
  refine Prog.uses_bind (Prog.uses_ite (by simp [perform, Effect.InDoorCom]) Prog.uses_pure)
    fun _ => ?_
  refine Prog.uses_bind (stepMotor_uses cfg) fun _ => ?_
  exact Prog.uses_bind (motorStatus_uses cfg) fun _ => printOutcome_uses

/-! ## What doorCom adds to the board -/

/-- An entry that is neither a reply, nor a write of `doorneedtobe`, nor the
start of a handler. -/
def Event.Quiet (e : Event K) : Prop :=
  e.reply? = none ∧ e.doorneedtobe? = none ∧ e.data? = none

/-- The board went on with quiet entries only, and `inOperation` is as before. -/
def Board.Quietly (b b' : Board K) : Prop :=
  b'.inOperation = b.inOperation ∧ ∃ evs, b'.log = b.log ++ evs ∧ ∀ e ∈ evs, e.Quiet

namespace Board

theorem Quietly.refl (b : Board K) : b.Quietly b := ⟨rfl, [], by simp, by simp⟩

theorem Quietly.trans (b₁ b₂ b₃ : Board K) (h₁ : b₁.Quietly b₂) (h₂ : b₂.Quietly b₃) :
    b₁.Quietly b₃ := by
  obtain ⟨hop₁, evs₁, hlog₁, hq₁⟩ := h₁
  obtain ⟨hop₂, evs₂, hlog₂, hq₂⟩ := h₂
  refine ⟨hop₂.trans hop₁, evs₁ ++ evs₂, by simp [hlog₂, hlog₁], fun e he => ?_⟩
  rcases List.mem_append.mp he with he | he
  · exact hq₁ e he
  · exact hq₂ e he

theorem Quietly.act {sensor : Sensor} (i : Int) (b : Board K) (e : Effect K) (he : e.InDoorCom) :
    b.Quietly (b.act sensor i e).2 := by
  cases e with
  | setDoorneedtobe p => exact he.elim
  | getInOperation => exact he.elim
  | setInOperation v => exact he.elim
  | write socket msg => exact he.elim
  | readPotentiometer =>
    exact ⟨rfl, [.read (sensor.read i b.potentiometer)], rfl, by simp [Event.Quiet, Event.reply?,
      Event.doorneedtobe?, Event.data?]⟩
  | _ => exact ⟨rfl, [_], rfl, by simp [Event.Quiet, Event.reply?, Event.doorneedtobe?,
      Event.data?]⟩

end Board

/-- `doorCom` ends, and has added quiet entries only. -/
theorem wp_doorCom {sensor : Sensor} {b : Board K} {command : String} :
    Prog.wp (Board.act sensor) (doorCom cfg command) (fun _ b' => b.Quietly b') b :=
  Prog.wp_of_uses Board.Quietly.refl Board.Quietly.trans Board.Quietly.act (doorCom_uses cfg)

/-! ## The data handler -/

/-- The board after the end of an accepted request: the reading `value` is
classified, published and sent as the reply. -/
def Board.publish (b : Board K) (socket : K) (value : Int) : Board K where
  potentiometer := value
  inOperation := 0
  log := b.log ++ [.read value, .did (.setDoorstatus (.known (cfg.motorStatus 1 value))),
    .did (.setDoorneedtobe (cfg.motorStatus 1 value)),
    .did (.write socket ("Door " ++ (cfg.motorStatus 1 value).text))]

/-- An accepted request: `doorCom` runs, then the position read is published. -/
theorem wp_onData_of_isCommand {sensor : Sensor} {b : Board K} {socket : K} {data : String}
    {Q : Unit → Board K → Prop} (hop : b.inOperation = 0) (hdata : IsCommand data)
    (h : ∀ b' i, Board.Quietly { b with inOperation := 1 } b' →
      Q () (b'.publish cfg socket (sensor.read i b'.potentiometer))) :
    Prog.wp (Board.act sensor) (onData cfg socket data) Q b := by
  simp only [onData, perform, Prog.wp_bind, Prog.wp_perform, Board.act, hop]
  intro _
  simp only [Nat.zero_ne_one, if_false, if_pos hdata, Prog.wp_bind, Prog.wp_perform]
  intro _
  refine Prog.wp_mono (fun _ b' hb' => ?_) (wp_doorCom cfg)
  simp only [motorStatus, perform, Prog.wp_bind, Prog.wp_perform, Prog.wp_pure]
  intro i _ _ _ _
  simpa [Board.act, Board.publish, Board.record] using h b' i hb'

/-- Other data: one reply, and nothing else. -/
theorem wp_onData_of_not_isCommand {sensor : Sensor} {b : Board K} {socket : K} {data : String}
    {Q : Unit → Board K → Prop} (hop : b.inOperation = 0) (hdata : ¬ IsCommand data)
    (h : Q () (b.record (.did (.write socket "Error, bad command")))) :
    Prog.wp (Board.act sensor) (onData cfg socket data) Q b := by
  simp only [onData, perform, Prog.wp_bind, Prog.wp_perform, Board.act, hop]
  intro _
  simp only [Nat.zero_ne_one, if_false, if_neg hdata, Prog.wp_perform]
  exact fun _ => h

/-! ## What a step of the server can do -/

theorem Server.step_cases [DecidableEq K] {cfg : DoorConfig} {sensor : Sensor} {s s' : Server K}
    {a : Action K} (h : s.step cfg sensor a = some s') :
    (∃ socket text, a = .arrive socket text ∧ s' = { s with
      inbox := Function.update s.inbox socket (s.inbox socket ++ [text])
      arrivals := s.arrivals ++ [⟨socket, text, s.board.log.length, s.board.powered⟩] }) ∨
    (∃ socket n text inbox, a = .data socket n ∧ s.running = none ∧
      s' = ⟨inbox, some (onData cfg socket text), s.board.record (.data socket text),
        s.arrivals⟩) ∨
    (∃ i p p' board', a = .exec i ∧ s.running = some p ∧
      p.step (Board.act sensor) i s.board = some (p', board') ∧
      s' = { s with running := some p', board := board' }) ∨
    (∃ i p, a = .exec i ∧ s.running = some p ∧ p.step (Board.act sensor) i s.board = none ∧
      s' = { s with running := none }) := by
  cases a with
  | arrive socket text =>
    simp only [Server.step, Option.some.injEq] at h
    exact .inl ⟨socket, text, rfl, h.symm⟩
  | data socket n =>
    simp only [Server.step] at h
    split at h
    case isFalse => cases h
    case isTrue hc =>
      exact .inr (.inl ⟨socket, n, _, _, rfl, by simpa using hc.1, (Option.some.inj h).symm⟩)
  | exec i =>
    simp only [Server.step] at h
    split at h
    case h_1 => cases h
    case h_2 p hp =>
      split at h
      case h_1 p' board' hstep =>
        exact .inr (.inr (.inl ⟨i, p, p', board', rfl, hp, hstep, (Option.some.inj h).symm⟩))
      case h_2 hstep =>
        exact .inr (.inr (.inr ⟨i, p, rfl, hp, hstep, (Option.some.inj h).symm⟩))

/-- No effect takes back an entry of the log. -/
theorem Board.act_log_prefix {sensor : Sensor} (i : Int) (b : Board K) (e : Effect K) :
    b.log <+: (b.act sensor i e).2.log := by
  cases e <;> simp [Board.act]

/-- No step takes back an entry of the log. -/
theorem Server.step_log_prefix [DecidableEq K] {cfg : DoorConfig} {sensor : Sensor}
    {s s' : Server K} {a : Action K} (h : s.step cfg sensor a = some s') :
    s.board.log <+: s'.board.log := by
  obtain ⟨_, _, -, rfl⟩ | ⟨_, _, _, _, -, -, rfl⟩ | ⟨i, p, p', board', -, -, hstep, rfl⟩ |
    ⟨_, _, -, -, -, rfl⟩ := step_cases h
  · exact List.prefix_rfl
  · exact List.prefix_append _ _
  · cases p with
    | done a => simp [Prog.step] at hstep
    | exec e k =>
      simp only [Prog.step, Option.some.injEq, Prod.mk.injEq] at hstep
      obtain ⟨-, rfl⟩ := hstep
      exact Board.act_log_prefix i s.board e
  · exact List.prefix_rfl

/-! ## The rule for idle states -/

/-- `I` holds of the board if no handler is running, and otherwise the running
program will establish it. -/
def Server.Upholds (sensor : Sensor) (I : Board K → Prop) (s : Server K) : Prop :=
  match s.running with
  | none => I s.board
  | some p => Prog.wp (Board.act sensor) p (fun _ b => I b) s.board

variable [DecidableEq K] {cfg}

/-- Every step upholds what every handler establishes again. -/
theorem Server.Upholds.step {sensor : Sensor} {I : Board K → Prop}
    (hdata : ∀ b socket text, I b →
      Prog.wp (Board.act sensor) (onData cfg socket text) (fun _ b' => I b')
        (b.record (.data socket text)))
    {s s' : Server K} {a : Action K} (hs : s.Upholds sensor I)
    (h : s.step cfg sensor a = some s') : s'.Upholds sensor I := by
  obtain ⟨_, _, -, rfl⟩ | ⟨socket, _, text, _, -, hnone, rfl⟩ |
    ⟨i, p, p', board', -, hp, hstep, rfl⟩ | ⟨i, p, -, hp, hstep, rfl⟩ := step_cases h
  · exact hs
  · simp only [Upholds, hnone] at hs
    exact hdata s.board socket text hs
  · simp only [Upholds, hp] at hs
    exact Prog.wp_step hs hstep
  · simp only [Upholds, hp] at hs
    obtain ⟨_, _, hI⟩ := Prog.wp_of_step_eq_none hs hstep
    exact hI

/-- What the start-up establishes and every handler establishes again is upheld
in every reachable state of the server. -/
theorem Server.upholds_of_run {sensor : Sensor} {I : Board K → Prop} {reading : Int}
    (hinit : Prog.wp (Board.act sensor) (startup cfg) (fun _ b => I b) ⟨reading, 0, []⟩)
    (hdata : ∀ b socket text, I b →
      Prog.wp (Board.act sensor) (onData cfg socket text) (fun _ b' => I b')
        (b.record (.data socket text)))
    {as : List (Action K)} {s : Server K}
    (hrun : Transition.run (Server.step cfg sensor) (Server.init cfg reading) as = some s) :
    s.Upholds sensor I := by
  refine Transition.run_invariant (I := fun s => s.Upholds sensor I) ?_ hinit hrun
  exact fun _ _ _ hs h => hs.step hdata h

end SmartDoor.Motor
