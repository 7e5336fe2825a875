-- SUMMARY: Rising edges of the step pin: which exit of the loop leaves the pin high, and exactly when every pulse is a real step.
import SmartDoor.Motor.Safety

/-!
# Rising edges of the step pin

An iteration of `StepMotor`'s loop writes 1 to the step pin once, as its first
effect. The driver of the motor steps on the rising edge, so the write moves
the lock only if the pin was low. The first exit test of an iteration leaves
the loop with the pin high: the next command's first pulse is then lost. The
second exit test and the end of the budget leave it low.
-/

namespace SmartDoor.Motor

open Lists

variable {K : Type}

/-- The level of the step pin, which is 0 at first. -/
def stepLevel (log : List (Event K)) : Int := (level 12 log).getD 0

/-- Each iteration's write of 1 is a rising edge, and the pin is low whenever
`StepMotor` returns. -/
structure RealSteps (log : List (Event K)) : Prop where
  rising : ∀ pre post, log = pre ++ .did (.writeStepPin 1) :: post → stepLevel pre = 0
  returned : ∀ pre post, log = pre ++ .did (.writePin7 0) :: post → stepLevel pre = 0

/-- A reading of the exit test made while the pin is high does not report the
commanded position. -/
def LowExit (cfg : DoorConfig) (pre : List (Event K)) (e : Event K) : Prop :=
  highTest pre → ∀ r, e = .read r → commanded pre ≠ some (cfg.motorStatus 0 r).text

/-- No reading of the exit tests made while the pin is high has reported the
commanded position. -/
def LowExits (cfg : DoorConfig) (log : List (Event K)) : Prop := Everywhere (LowExit cfg) log

variable {cfg : DoorConfig} {p : Position} {n : Nat} {log pre evs : List (Event K)} {socket : K}

theorem stepLevel_of_forall (h : ∀ e ∈ evs, e.level? 12 = none) :
    stepLevel (pre ++ evs) = stepLevel pre := by
  unfold stepLevel
  rw [level_of_forall h]

theorem lowExit_of_not_highTest {e : Event K} (h : highTest pre = false) : LowExit cfg pre e := by
  intro htest
  rw [h] at htest
  cases htest

theorem lowExit_of_not_read {e : Event K} (h : ∀ r, e ≠ .read r) : LowExit cfg pre e :=
  fun _ r he => absurd he (h r)

/-! ## The loop -/

/-- What the entries before an entry say about the step pin if no high exit was
taken: a pulse starts low, and so does the relay's switching off. -/
def Edge (cfg : DoorConfig) (pre : List (Event K)) (e : Event K) : Prop :=
  LowExits cfg pre → e = .did (.writeStepPin 1) ∨ e = .did (.writePin7 0) → stepLevel pre = 0

theorem edge_of_ne {e : Event K} (hstep : e ≠ .did (.writeStepPin 1))
    (hrelay : e ≠ .did (.writePin7 0)) : Edge cfg pre e := by
  rintro - (he | he)
  · exact absurd he hstep
  · exact absurd he hrelay

/-- The first exit test of an iteration took a high exit. -/
theorem not_lowExits_high {printed r : Int} (hcom : commanded pre = some p.text)
    (hr : cfg.motorStatus 0 r = p) :
    ¬ LowExits cfg (pre ++ [.did (.writeStepPin 1), .read printed, .read r]) := by
  intro h
  have hlast := h (pre ++ [.did (.writeStepPin 1), .read printed]) (.read r) [] (by simp)
    (by simp [highTest]) r rfl
  apply hlast
  rw [commanded_append, hcom, hr]
  rfl

theorem Pulses.edges (h : Pulses cfg p n evs) (hcom : commanded pre = some p.text)
    (hpre : LowExits cfg pre → stepLevel pre = 0) :
    Everywhere (fun acc e => Edge cfg (pre ++ acc) e) evs ∧
      (LowExits cfg (pre ++ evs) → stepLevel (pre ++ evs) = 0) := by
  induction h generalizing pre with
  | spent => exact ⟨everywhere_nil, by simpa using hpre⟩
  | high printed r hr =>
    refine ⟨?_, fun h => absurd h (not_lowExits_high hcom hr)⟩
    simp only [everywhere_cons, List.append_nil]
    exact ⟨fun h _ => hpre h, edge_of_ne (by simp) (by simp), edge_of_ne (by simp) (by simp),
      everywhere_nil⟩
  | low printed r₁ r₂ hr₁ hr₂ =>
    simp only [everywhere_cons, List.append_nil]
    refine ⟨⟨fun h _ => hpre h, edge_of_ne (by simp) (by simp), edge_of_ne (by simp) (by simp),
      edge_of_ne (by simp) (by simp), edge_of_ne (by simp) (by simp), everywhere_nil⟩, fun _ => ?_⟩
    rw [stepLevel, level_append]
    rfl
  | @next n evs printed r₁ r₂ hr₁ hr₂ h ih =>
    have hlow : stepLevel (pre ++ [.did (.writeStepPin 1), .read printed, .read r₁,
        .did (.writeStepPin 0), .read r₂]) = 0 := by
      rw [stepLevel, level_append]
      rfl
    obtain ⟨hedges, hend⟩ := @ih (pre ++ [.did (.writeStepPin 1), .read printed, .read r₁,
      .did (.writeStepPin 0), .read r₂]) (by rw [commanded_append, hcom]; rfl) (fun _ => hlow)
    simp only [List.append_assoc, List.cons_append, List.nil_append] at hedges hend
    simp only [everywhere_cons, List.append_nil]
    exact ⟨⟨fun h _ => hpre h, edge_of_ne (by simp) (by simp), edge_of_ne (by simp) (by simp),
      edge_of_ne (by simp) (by simp), edge_of_ne (by simp) (by simp), hedges⟩, hend⟩

theorem lowExit_of_ne {r : Int} (hcom : commanded pre = some p.text)
    (hr : cfg.motorStatus 0 r ≠ p) : LowExit cfg pre (.read r) := by
  rintro - _ ⟨rfl⟩
  rw [hcom]
  exact fun htext => hr (Position.text_injective (Option.some.inj htext)).symm

/-- The first five entries of an iteration that did not end at the first test. -/
theorem lowExit_iteration {printed r₁ r₂ : Int} (hcom : commanded pre = some p.text)
    (hr₁ : cfg.motorStatus 0 r₁ ≠ p) :
    Everywhere (fun acc e => LowExit cfg (pre ++ acc) e) [.did (.writeStepPin 1), .read printed,
      .read r₁, .did (.writeStepPin 0), .read r₂] := by
  simp only [everywhere_cons, List.append_nil]
  refine ⟨lowExit_of_not_read (by simp), lowExit_of_not_highTest (by simp [highTest]), ?_,
    lowExit_of_not_read (by simp), lowExit_of_not_highTest (by simp [highTest]), everywhere_nil⟩
  refine lowExit_of_ne ?_ hr₁
  rw [commanded_append, hcom]
  rfl

/-- A loop without a high exit, or one that ends with the pin high. -/
theorem Pulses.lowExits_or (h : Pulses cfg p n evs) (hcom : commanded pre = some p.text) :
    Everywhere (fun acc e => LowExit cfg (pre ++ acc) e) evs ∨ stepLevel (pre ++ evs) = 1 := by
  induction h generalizing pre with
  | spent => exact .inl everywhere_nil
  | high printed r hr =>
    right
    rw [stepLevel, level_append]
    rfl
  | low printed r₁ r₂ hr₁ hr₂ => exact .inl (lowExit_iteration hcom hr₁)
  | @next n evs printed r₁ r₂ hr₁ hr₂ h ih =>
    have hrest := @ih (pre ++ [.did (.writeStepPin 1), .read printed, .read r₁,
      .did (.writeStepPin 0), .read r₂]) (by rw [commanded_append, hcom]; rfl)
    simp only [List.append_assoc] at hrest
    refine hrest.imp_left fun hlow => ?_
    exact everywhere_append.mpr ⟨lowExit_iteration hcom hr₁, hlow⟩

/-! ## The whole log -/

/-- An entry outside the loop of `StepMotor`: it does not touch the step pin and
is not the relay's switching off, and if it is a reading, it is not one of the
loop's exit tests. -/
structure Outside (cfg : DoorConfig) (pre : List (Event K)) (e : Event K) : Prop where
  level : e.level? 12 = none
  relay : e ≠ .did (.writePin7 0)
  read : LowExit cfg pre e

/-- A log made of entries outside the loop and of whole loops, each for the
command being handled and followed by the relay's switching off. -/
inductive Segmented (cfg : DoorConfig) : List (Event K) → Prop
  | nil : Segmented cfg []
  | entry {log : List (Event K)} {e : Event K} (hlog : Segmented cfg log)
      (he : Outside cfg log e) : Segmented cfg (log ++ [e])
  | loop {log pulses : List (Event K)} {p : Position} (hlog : Segmented cfg log)
      (hcom : commanded log = some p.text) (h : Pulses cfg p cfg.motorThreshold pulses) :
      Segmented cfg (log ++ (pulses ++ [.did (.writePin7 0)]))

theorem Segmented.entries (hlog : Segmented cfg log)
    (h : Everywhere (fun acc e => Outside cfg (log ++ acc) e) evs) :
    Segmented cfg (log ++ evs) := by
  induction evs generalizing log with
  | nil => simpa using hlog
  | cons e evs ih =>
    obtain ⟨he, hevs⟩ := everywhere_cons.mp h
    rw [List.append_nil] at he
    have hnext := ih (hlog.entry he) (by simpa using hevs)
    simpa using hnext

theorem outside_data {data : String} : Outside cfg pre (.data socket data) :=
  ⟨rfl, by simp, lowExit_of_not_read (by simp)⟩

theorem outside_did {f : Effect K} (hlevel : (Event.did f).level? 12 = none)
    (hrelay : f ≠ .writePin7 0) : Outside cfg pre (.did f) :=
  ⟨hlevel, by simpa using hrelay, lowExit_of_not_read (by simp)⟩

theorem outside_read {r : Int} (h : highTest pre = false) : Outside cfg pre (.read r) :=
  ⟨rfl, by simp, lowExit_of_not_highTest h⟩

theorem outside_published {value : Int} {f : List (Event K) → List (Event K)}
    (h : highTest (f []) = false) :
    Everywhere (fun acc e => Outside cfg (f acc) e) (published cfg socket value) := by
  simp only [published, everywhere_cons]
  exact ⟨outside_read h, outside_did rfl (by simp), outside_did rfl (by simp),
    outside_did rfl (by simp), everywhere_nil⟩

theorem Segmented.handled {data : String} (hlog : Segmented cfg log)
    (h : Handling cfg socket data evs) : Segmented cfg (log ++ .data socket data :: evs) := by
  cases h with
  | rejected =>
    apply hlog.entries
    simp only [everywhere_cons]
    exact ⟨outside_data, outside_did rfl (by simp), everywhere_nil⟩
  | @command p evs value hp h =>
    cases h with
    | already first hfirst =>
      apply hlog.entries
      simp only [everywhere_cons, everywhere_append]
      exact ⟨outside_data, ⟨outside_read (by simp [highTest]), outside_did rfl (by simp),
        everywhere_nil⟩, outside_published (by simp [highTest])⟩
    | moved first final hfirst hmoved =>
      cases hmoved with
      | @intro pulses hpulses =>
        have hbefore : Segmented cfg (log ++ .data socket p.text :: [.read first,
            .did (.setDoorstatus (movingStatus p)), .did (.writePin7 1),
            .did (.writeDirectionPin (directionLevel cfg p))]) := by
          apply hlog.entries
          simp only [everywhere_cons]
          exact ⟨outside_data, outside_read (by simp [highTest]), outside_did rfl (by simp),
            outside_did rfl (by simp), outside_did rfl (by simp), everywhere_nil⟩
        have hloop := hbefore.loop (commanded_data (by simp [Event.data?])) hpulses
        have hafter := @Segmented.entries K cfg _ (.read final :: .did (.setDoormsg (outcome p
            (cfg.motorStatus 1 final))) :: published cfg socket value) hloop (by
          simp only [everywhere_cons]
          exact ⟨outside_read (by simp [highTest]), outside_did rfl (by simp),
            outside_published (by simp [highTest])⟩)
        simpa using hafter

theorem History.segmented (h : History cfg log) : Segmented cfg log := by
  induction h with
  | start value =>
    refine @Segmented.entries K cfg [] _ .nil ?_
    simp only [everywhere_cons]
    exact ⟨outside_read rfl, outside_did rfl (by simp), everywhere_nil⟩
  | handled hlog h ih => exact ih.handled h

/-- Without a high exit every pulse starts low, and the pin is low behind every
loop. -/
theorem Segmented.edges (h : Segmented cfg log) :
    Everywhere (Edge cfg) log ∧ (LowExits cfg log → stepLevel log = 0) := by
  induction h with
  | nil => exact ⟨everywhere_nil, fun _ => rfl⟩
  | @entry log e hlog he ih =>
    constructor
    · refine everywhere_append.mpr ⟨ih.1, ?_⟩
      simp only [everywhere_cons, everywhere_nil, and_true]
      refine edge_of_ne ?_ he.relay
      rintro rfl
      exact absurd he.level (by simp [Event.level?, Event.pin?])
    · intro h
      rw [stepLevel_of_forall (by simpa using he.level)]
      exact ih.2 h.of_append
  | @loop log pulses p hlog hcom h ih =>
    obtain ⟨hedges, hend⟩ := h.edges hcom ih.2
    constructor
    · refine everywhere_append.mpr ⟨ih.1, everywhere_append.mpr ⟨hedges, ?_⟩⟩
      simp only [everywhere_cons, everywhere_nil, and_true, List.append_nil]
      exact fun hlow _ => hend hlow
    · intro hlow
      rw [← List.append_assoc] at hlow ⊢
      rw [stepLevel_of_forall (by simp [Event.level?, Event.pin?])]
      exact hend hlow.of_append

/-- If the pin is low at every return of `StepMotor`, no high exit was taken. -/
theorem Segmented.lowExits (h : Segmented cfg log)
    (hlow : ∀ pre post, log = pre ++ .did (.writePin7 0) :: post → stepLevel pre = 0) :
    LowExits cfg log := by
  induction h with
  | nil => exact everywhere_nil
  | @entry log e hlog he ih =>
    refine everywhere_append.mpr ⟨ih fun pre post h => hlow pre (post ++ [e]) (by simp [h]), ?_⟩
    simpa using he.read
  | @loop log pulses p hlog hcom h ih =>
    have hold := ih fun pre post h =>
      hlow pre (post ++ (pulses ++ [.did (.writePin7 0)])) (by simp [h])
    have hreturn := hlow (log ++ pulses) [] (by simp)
    refine everywhere_append.mpr ⟨hold, everywhere_append.mpr ⟨?_, ?_⟩⟩
    · refine (h.lowExits_or hcom).resolve_right fun hhigh => ?_
      rw [hreturn] at hhigh
      cases hhigh
    · simp only [everywhere_cons, everywhere_nil, and_true]
      exact lowExit_of_not_read (by simp)

/-! ## Every run -/

variable [DecidableEq K]

/-- While no exit test made with the pin high has read the commanded position,
every pulse was a real step and `StepMotor` returned with the pin low; and
between two handlers this is the only way. -/
theorem real_steps_iff_low_exits {sensor : Sensor} {reading : Int} {as : List (Action K)}
    {s : Server K}
    (hrun : Transition.run (Server.step cfg sensor) (Server.init cfg reading) as = some s) :
    (LowExits cfg s.board.log → RealSteps s.board.log) ∧
      (s.running = none → (RealSteps s.board.log ↔ LowExits cfg s.board.log)) := by
  obtain ⟨⟨rest, hrest⟩, hidle⟩ := history_of_run hrun
  have hedges : Everywhere (Edge cfg) s.board.log := hrest.segmented.edges.1.of_append
  have hreal : LowExits cfg s.board.log → RealSteps s.board.log := by
    intro hlow
    constructor
    · intro pre post h
      exact hedges pre _ post h (Everywhere.of_append (h ▸ hlow)) (.inl rfl)
    · intro pre post h
      exact hedges pre _ post h (Everywhere.of_append (h ▸ hlow)) (.inr rfl)
  refine ⟨hreal, fun hnone => ⟨fun h => ?_, hreal⟩⟩
  exact (hidle hnone).segmented.lowExits h.returned

/-- An unlock whose first exit test finds the lock open, then a lock request. -/
def unlockThenLock : List (Action Unit) :=
  [.exec 700, .exec 0, .exec 0, .arrive () "Open", .data () 1] ++
    [0, 0, 700, 0, 0, 0, 0, 955, 960, 0, 960, 0, 960, 0, 0, 0, 0, 0].map .exec ++
    [.arrive () "Close", .data () 1] ++
    [0, 0, 960, 0, 0, 0, 0, 955, 955, 0, 700, 0, 700, 0, 700, 0, 0, 0, 0, 0].map .exec

/-- The log of the run, up to the first pulse of the lock request. -/
def unlockThenLockLog : List (Event Unit) :=
  [.read 700, .did (.setDoorstatus (.known .Close)), .data () "Open", .read 700,
    .did (.setDoorstatus .Unlocking), .did (.writePin7 1), .did (.writeDirectionPin 0),
    .did (.writeStepPin 1), .read 955, .read 960, .did (.writePin7 0), .read 960,
    .did (.setDoormsg "Door Open sucessfully!"), .read 960,
    .did (.setDoorstatus (.known .Open)), .did (.setDoorneedtobe .Open),
    .did (.write () "Door Open"), .data () "Close", .read 960, .did (.setDoorstatus .Locking),
    .did (.writePin7 1), .did (.writeDirectionPin 1)]

theorem unlockThenLock_end :
    ∃ s, Transition.run (Server.step doorconfig .free) (Server.init doorconfig 700) unlockThenLock
        = some s ∧ s.running = none ∧
      ∃ rest, s.board.log = unlockThenLockLog ++ .did (.writeStepPin 1) :: rest := by
  have hobs : (Transition.run (Server.step doorconfig .free) (Server.init doorconfig 700)
      unlockThenLock).map (fun s => (s.running.isNone, s.board.log.take 23)) =
      some (true, unlockThenLockLog ++ [.did (.writeStepPin 1)]) := rfl
  obtain ⟨s, hrun, hs⟩ := Option.map_eq_some_iff.mp hobs
  obtain ⟨hidle, hlog⟩ := Prod.mk.inj hs
  refine ⟨s, hrun, by simpa using hidle, s.board.log.drop 23, ?_⟩
  have hsplit := List.take_append_drop 23 s.board.log
  rw [hlog, List.append_assoc] at hsplit
  exact hsplit.symm

theorem real_steps_iff_low_exits_unlockThenLock :
    ∃ s, Transition.run (Server.step doorconfig .free) (Server.init doorconfig 700) unlockThenLock
        = some s ∧ s.running = none ∧
      (LowExits doorconfig s.board.log → RealSteps s.board.log) ∧
      (s.running = none → (RealSteps s.board.log ↔ LowExits doorconfig s.board.log)) := by
  obtain ⟨s, hrun, hidle, -⟩ := unlockThenLock_end
  exact ⟨s, hrun, hidle, real_steps_iff_low_exits hrun⟩

/-- The unlock leaves the step pin high, and the first pulse of the lock request
is no rising edge. -/
theorem first_pulse_swallowed :
    ∃ s, Transition.run (Server.step doorconfig .free) (Server.init doorconfig 700) unlockThenLock
        = some s ∧ s.running = none ∧
      (∃ pre post, s.board.log = pre ++ .did (.writePin7 0) :: post ∧ stepLevel pre = 1) ∧
      (∃ pre post, s.board.log = pre ++ .did (.writeStepPin 1) :: post ∧ stepLevel pre = 1) ∧
      ¬ RealSteps s.board.log := by
  obtain ⟨s, hrun, hidle, rest, hlog⟩ := unlockThenLock_end
  have hpulse : stepLevel unlockThenLockLog = 1 := by decide
  refine ⟨s, hrun, hidle, ⟨unlockThenLockLog.take 10, _, hlog, by decide⟩,
    ⟨unlockThenLockLog, rest, hlog, hpulse⟩, fun h => ?_⟩
  have hzero := h.rising _ _ hlog
  rw [hpulse] at hzero
  cases hzero

end SmartDoor.Motor
