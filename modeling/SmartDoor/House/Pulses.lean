-- SUMMARY: How far the motor can be driven: the pulses to one side, over a whole run, against the commands written.
import SmartDoor.House.Origin
import SmartDoor.Motor.Safety

/-!
# Pulses and commands

A message makes at most `motorThreshold` pulses, and each message has its own
command or spoken words behind it. So the pulses towards the closed position are
bounded by the `Lock`s that were written, whatever the network, the sensors and
the other processes do; those towards the open one by the `Unlock`s and the
reports of knocks, as long as nobody calls an emergency.
-/

namespace SmartDoor.Motor

open Lists

variable {K : Type} {p : Position}

def Event.isPulse (e : Event K) : Bool := e.level? 12 = some 1

/-- The message asks for `p`. -/
def Event.asksFor (p : Position) (e : Event K) : Bool := e.data?.any (·.2 = p.text)

/-- The pulses of `log` that are made while a message for `p` is handled; `past` is what
comes before. -/
def pulsesAfter (p : Position) (past : List (Event K)) : List (Event K) → Nat
  | [] => 0
  | e :: log =>
    (if e.isPulse ∧ commanded past = some p.text then 1 else 0) + pulsesAfter p (past ++ [e]) log

def pulsesTo (p : Position) (log : List (Event K)) : Nat := pulsesAfter p [] log

theorem pulsesAfter_append {past l m : List (Event K)} :
    pulsesAfter p past (l ++ m) = pulsesAfter p past l + pulsesAfter p (past ++ l) m := by
  induction l generalizing past with
  | nil => simp [pulsesAfter]
  | cons e l ih =>
    simp only [List.cons_append, pulsesAfter, ih, List.append_assoc, List.nil_append]
    omega

theorem pulsesTo_concat {log : List (Event K)} {e : Event K} :
    pulsesTo p (log ++ [e]) = pulsesTo p log +
      if e.isPulse ∧ commanded log = some p.text then 1 else 0 := by
  simp [pulsesTo, pulsesAfter_append, pulsesAfter]

theorem commanded_concat {log : List (Event K)} {e : Event K} :
    commanded (log ++ [e]) = if e.data? = none then commanded log else e.data?.map (·.2) := by
  rw [commanded_append]
  cases hd : e.data? <;> simp [commanded, hd]

/-- If no handler makes more than `limit` pulses, there are at most `limit` for each
message that asks for them. The last message may still have some left. -/
theorem pulsesTo_add_le {limit : Nat} {log : List (Event K)}
    (h : ∀ pre, pre <+: log → (current pre).countP Event.isPulse ≤ limit) :
    pulsesTo p log + (if commanded log = some p.text then limit else 0) ≤
      limit * log.countP (Event.asksFor p) +
        (if commanded log = some p.text then (current log).countP Event.isPulse else 0) := by
  induction log using List.reverseRecOn with
  | nil => simp [pulsesTo, pulsesAfter, commanded]
  | append_singleton log e ih =>
    have hprev := ih fun pre hpre => h pre (hpre.trans (List.prefix_append _ _))
    have hcur := h log (List.prefix_append _ _)
    rw [pulsesTo_concat, commanded_concat, current_concat, List.countP_append,
      List.countP_singleton]
    cases hd : e.data? with
    | none =>
      -- the message that is handled stays the same
      have hasks : e.asksFor p = false := by simp [Event.asksFor, hd]
      simp only [hasks, Bool.false_eq_true, if_false, Nat.add_zero, if_true, List.countP_append,
        List.countP_singleton]
      by_cases hcom : commanded log = some p.text
      · simp only [hcom, if_true, and_true] at hprev ⊢
        split <;> omega
      · simp only [hcom, if_false, and_false] at hprev ⊢
        simpa using hprev
    | some d =>
      have hpulse : e.isPulse = false := by
        cases e <;> simp_all [Event.isPulse, Event.level?, Event.pin?, Event.data?]
      have hbase : pulsesTo p log ≤ limit * log.countP (Event.asksFor p) := by
        split at hprev <;> omega
      by_cases htext : d.2 = p.text
      · have hasks : e.asksFor p = true := by simp [Event.asksFor, hd, htext]
        simp [hasks, hpulse, htext, Nat.mul_add, hbase]
      · have hasks : e.asksFor p = false := by simp [Event.asksFor, hd, htext]
        simpa [hasks, hpulse, htext] using hbase

/-- Every pulse is made while a message for one of the two positions is handled. -/
theorem countP_isPulse {log : List (Event K)}
    (h : Everywhere (fun pre e => e.isPulse → ∃ p : Position, p ≠ .Middle ∧
      commanded pre = some p.text) log) :
    log.countP Event.isPulse = pulsesTo .Open log + pulsesTo .Close log := by
  induction log using List.reverseRecOn with
  | nil => rfl
  | append_singleton log e ih =>
    obtain ⟨hlog, he⟩ := everywhere_concat.mp h
    rw [List.countP_append, List.countP_singleton, pulsesTo_concat, pulsesTo_concat, ih hlog]
    cases hpulse : e.isPulse with
    | false => simp
    | true =>
      obtain ⟨p, hp, hcom⟩ := he hpulse
      have hne : ∀ q : Position, commanded log = some q.text ↔ p = q := fun q => by
        rw [hcom, Option.some.injEq]
        exact ⟨Position.text_injective, congrArg _⟩
      simp only [hne, true_and, if_true]
      cases p with
      | Open | Close => simp; omega
      | Middle => exact absurd rfl hp

theorem Event.eq_of_isPulse {e : Event K} (h : e.isPulse) : e = .did (.writeStepPin 1) := by
  cases e with
  | did f => cases f <;> simp_all [Event.isPulse, Event.level?, Event.pin?]
  | _ => simp [Event.isPulse, Event.level?, Event.pin?] at h

variable [DecidableEq K] {cfg : DoorConfig} {sensor : Sensor} {reading : Int}
  {as : List (Action K)} {s : Server K}

theorem guarded_of_run
    (hrun : Transition.run (Server.step cfg sensor) (.init cfg reading) as = some s) :
    Everywhere (Guarded cfg) s.board.log := by
  obtain ⟨⟨rest, hrest⟩, -⟩ := history_of_run hrun
  exact hrest.guarded.of_append

theorem countP_isPulse_of_run
    (hrun : Transition.run (Server.step cfg sensor) (.init cfg reading) as = some s) :
    s.board.log.countP Event.isPulse =
      pulsesTo .Open s.board.log + pulsesTo .Close s.board.log := by
  refine countP_isPulse ((guarded_of_run hrun).mono fun pre e hguard he => ?_)
  obtain ⟨q, hq, hcom, -⟩ := hguard (by rw [Event.eq_of_isPulse he]; rfl)
  exact ⟨q, hq, hcom⟩

/-- The pulses to one side are bounded by the messages that ask for it. -/
theorem pulsesTo_le
    (hrun : Transition.run (Server.step cfg sensor) (.init cfg reading) as = some s)
    (p : Position) :
    pulsesTo p s.board.log ≤ cfg.motorThreshold * s.board.log.countP (Event.asksFor p) := by
  have hbudget : ∀ pre, pre <+: s.board.log →
      (current pre).countP Event.isPulse ≤ cfg.motorThreshold := by
    intro pre hpre
    refine countP_current_le ((guarded_of_run hrun).mono fun pre e hguard he => ?_) hpre
    have hstep := Event.eq_of_isPulse he
    obtain ⟨q, -, -, hdriven⟩ := hguard (by rw [hstep]; rfl)
    exact hdriven.budget hstep
  have hle := pulsesTo_add_le (p := p) hbudget
  have hlast := hbudget _ (List.prefix_refl _)
  split at hle <;> omega

end SmartDoor.Motor

namespace SmartDoor.House

open Online Motor

variable {C : Type} [DecidableEq C] {S : Setting C} {h h' : State C}

/-! ## The motor server inside the house -/

/-- A step of the house moves the motor server as it moves on its own, or not at all. -/
theorem motor_of_step {a : House.Action C} (hstep : h.step S a = some h') :
    h'.motor = h.motor ∨ ∃ b, h.motor.step S.cfg S.sensor b = some h'.motor := by
  cases a with
  | online a =>
    obtain ⟨online, -, rfl⟩ := Option.map_eq_some_iff.mp hstep
    exact .inl rfl
  | knock s | serial data | interval =>
    obtain rfl : _ = h' := Option.some.inj hstep
    exact .inl rfl
  | record | recognized result =>
    simp only [State.step] at hstep
    split at hstep
    · obtain rfl : _ = h' := Option.some.inj hstep
      exact .inl rfl
    · cases hstep
  | bytes k n =>
    simp only [State.step] at hstep
    split at hstep
    · split at hstep
      · unfold State.receive at hstep
        split at hstep
        · obtain ⟨motor, hmotor, rfl⟩ := Option.map_eq_some_iff.mp hstep
          exact .inr ⟨_, hmotor⟩
        · obtain rfl : _ = h' := Option.some.inj hstep
          exact .inl rfl
      · cases hstep
    · cases hstep
  | motor a =>
    cases a with
    | arrive socket text => cases hstep
    | data | exec =>
      obtain ⟨motor, hmotor, rfl⟩ := Option.map_eq_some_iff.mp hstep
      exact .inr ⟨_, hmotor⟩

theorem motor_of_run {reading : Int} {as : List (House.Action C)}
    (hrun : Transition.run (State.step S) (.init S.cfg reading) as = some h) :
    ∃ bs, Transition.run (Server.step S.cfg S.sensor) (.init S.cfg reading) bs = some h.motor := by
  refine Transition.run_invariant (I := fun h => ∃ bs, Transition.run
    (Server.step S.cfg S.sensor) (.init S.cfg reading) bs = some h.motor) ?_ ⟨[], rfl⟩ hrun
  rintro h a h' ⟨bs, hbs⟩ hstep
  rcases motor_of_step hstep with heq | ⟨b, hb⟩
  · exact ⟨bs, by rw [heq, hbs]⟩
  · exact ⟨bs ++ [b], Transition.run_concat_eq_some.mpr ⟨_, hbs, hb⟩⟩

/-! ## Requests and commands -/

/-- A client writes the command. -/
def writes (command : Online.Command) : Online.Event C → Bool
  | .wrote _ text => text = command.text
  | _ => false

/-- The door node's events that are a write of the command. -/
def State.written (h : State C) (command : Online.Command) : Nat :=
  h.online.node.trace.countP (writes command)

omit [DecidableEq C] in
theorem Wrote.unique {i : Nat} {command command' : Online.Command} (hw : Wrote h i command)
    (hw' : Wrote h i command') : command = command' := by
  obtain ⟨c, hc⟩ := hw
  obtain ⟨c', hc'⟩ := hw'
  have heq := Option.some.inj (hc.symm.trans hc')
  simp only [Event.wrote.injEq] at heq
  exact Command.text_injective heq.2

omit [DecidableEq C] in
theorem takenAt_of_asksFor {i : Nat} {e : Motor.Event Nat} {p : Position}
    (hi : h.motor.board.log[i]? = some e) (he : e.asksFor p) : TakenAt h i p := by
  cases e with
  | data k text =>
    obtain rfl : text = p.text := by simpa [Motor.Event.asksFor, Motor.Event.data?] using he
    exact ⟨k, hi⟩
  | _ => simp [Motor.Event.asksFor, Motor.Event.data?] at he

/-- The number of a cause: the commands come first. -/
def Cause.place (h : State C) : Cause → Nat
  | .command i => i
  | .voice j => h.online.node.trace.length + j

omit [DecidableEq C] in
theorem Cause.place_injective {toUpperCase : String → String} {p : Position} {x y : Cause}
    (hx : Causes toUpperCase h p x) (hy : Causes toUpperCase h p y)
    (heq : x.place h = y.place h) : x = y := by
  have hlt : ∀ {i}, Causes toUpperCase h p (.command i) → i < h.online.node.trace.length := by
    rintro i ⟨command, -, c, hc⟩
    exact (List.getElem?_eq_some_iff.mp hc).1
  cases x with
  | command i =>
    cases y with
    | command j => exact congrArg _ heq
    | voice j =>
      have hi := hlt hx
      simp only [Cause.place] at heq
      omega
  | voice i =>
    cases y with
    | command j =>
      have hj := hlt hy
      simp only [Cause.place] at heq
      omega
    | voice j => exact congrArg _ (Nat.add_left_cancel heq)

/-- What a report of knocks adds to what may move the lock to `p`. -/
def State.reports (h : State C) (p : Position) : Nat :=
  if p = .Open then h.knock.sent.length else 0

/-- Each message for `p` has its own write of `command` or its own report of knocks, when
no other command that asks for `p` was written. -/
theorem Inv.asked_le (hinv : Inv S h) {p : Position} {command : Online.Command}
    (hcommand : command ≠ .Emergency)
    (honly : ∀ i other, asks p other → Wrote h i other → other = command) :
    h.motor.board.log.countP (Motor.Event.asksFor p) ≤ h.written command + h.reports p := by
  have hcount : h.written command + h.reports p = (h.online.node.trace.map (writes command) ++
      List.replicate (h.reports p) true).countP id := by
    rw [List.countP_append, List.countP_map, List.countP_replicate]
    simp [State.written]
  rw [hcount]
  refine Lists.countP_le_countP (fun i => (cause h i).place h) (fun i e hi he => ?_)
    fun i j e e' hi he hj he' heq => ?_
  · obtain ⟨k, c, hb⟩ := hinv.behind_of_taken (takenAt_of_asksFor hi he)
    refine ⟨true, ?_, rfl⟩
    rw [hb.cause]
    have hcauses := hb.causes
    cases hcause : c.opener.cause h with
    | command t =>
      rw [hcause] at hcauses
      obtain ⟨other, hasks, hwrote⟩ := hcauses
      obtain rfl := honly t other hasks hwrote
      obtain ⟨d, hd⟩ := hwrote
      have hlt : t < h.online.node.trace.length := (List.getElem?_eq_some_iff.mp hd).1
      rw [List.getElem?_append_left (by simpa [Cause.place] using hlt), List.getElem?_map]
      simp [Cause.place, hd, writes]
    | voice j =>
      rw [hcause] at hcauses
      obtain ⟨rfl, hlt, -⟩ := hcauses
      rw [List.getElem?_append_right (by simp [Cause.place])]
      simpa [Cause.place, State.reports, List.getElem?_replicate] using hlt
  · obtain ⟨k, c, hb⟩ := hinv.behind_of_taken (takenAt_of_asksFor hi he)
    obtain ⟨l, d, hb'⟩ := hinv.behind_of_taken (takenAt_of_asksFor hj he')
    simp only [hb.cause, hb'.cause] at heq
    have hsame := Cause.place_injective hb.causes hb'.causes heq
    -- what repeats is an emergency, and no such command was written
    refine hinv.eq_of_cause hb hb' hsame fun hrep => ?_
    obtain ⟨t, hcause, hwrote⟩ := hb.again hrep
    have hcauses := hb.causes
    rw [hcause] at hcauses
    obtain ⟨other, hasks, hother⟩ := hcauses
    exact hcommand ((honly t other hasks hother).symm.trans (hother.unique hwrote))

/-- In every reachable state of the house, the motor has made all its pulses to one of the
two sides: at most `motorThreshold` to the closed one for each `Lock` that was written, and,
where no emergency was called, to the open one for each `Unlock` and each report of knocks. -/
theorem pulses_bounded {reading : Int} {as : List (House.Action C)}
    (hrun : Transition.run (State.step S) (.init S.cfg reading) as = some h) :
    h.motor.board.log.countP Motor.Event.isPulse =
      pulsesTo .Open h.motor.board.log + pulsesTo .Close h.motor.board.log ∧
    pulsesTo .Close h.motor.board.log ≤ S.cfg.motorThreshold * h.written .Lock ∧
    ((∀ i, ¬ Wrote h i .Emergency) → pulsesTo .Open h.motor.board.log ≤
      S.cfg.motorThreshold * (h.written .Unlock + h.knock.sent.length)) := by
  have hinv : Inv S h := inv_of_run hrun
  obtain ⟨bs, hbs⟩ := motor_of_run hrun
  refine ⟨countP_isPulse_of_run hbs, ?_, fun hcalm => ?_⟩
  · refine (pulsesTo_le hbs .Close).trans (Nat.mul_le_mul_left _ ?_)
    refine hinv.asked_le (show Online.Command.Lock ≠ .Emergency by decide) fun i other hasks _ => ?_
    rcases hasks with ⟨-, hother⟩ | ⟨hp, -⟩
    · exact hother
    · cases hp
  · refine (pulsesTo_le hbs .Open).trans (Nat.mul_le_mul_left _ ?_)
    refine hinv.asked_le (show Online.Command.Unlock ≠ .Emergency by decide)
      fun i other hasks hwrote => ?_
    rcases hasks with ⟨hp, -⟩ | ⟨-, hother | rfl⟩
    · cases hp
    · exact hother
    · exact absurd hwrote (hcalm i)

/-- After `lockTaken`, the motor makes its first pulse. -/
def lockPulsed : List (House.Action Unit) :=
  lockTaken ++ List.replicate 10 (.motor (.exec 960))

theorem pulses_bounded_lockPulsed :
    ∃ h, Transition.run (State.step ⟨doorconfig, fun _ => "guest", .free, id⟩)
        (.init doorconfig 960) lockPulsed = some h ∧
      pulsesTo .Close h.motor.board.log = 1 ∧ h.written .Lock = 1 ∧
      pulsesTo .Close h.motor.board.log ≤ doorconfig.motorThreshold * h.written .Lock := by
  obtain ⟨h, hrun, hpulses, hwritten⟩ : ∃ h, Transition.run
      (State.step ⟨doorconfig, fun _ => "guest", .free, id⟩) (.init doorconfig 960) lockPulsed
        = some h ∧ pulsesTo .Close h.motor.board.log = 1 ∧ h.written .Lock = 1 := ⟨_, rfl, rfl, rfl⟩
  exact ⟨h, hrun, hpulses, hwritten, (pulses_bounded hrun).2.1⟩

end SmartDoor.House
