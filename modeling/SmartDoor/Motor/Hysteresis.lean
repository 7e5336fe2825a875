-- SUMMARY: The two precisions of `MotorStatus` give hysteresis: a command that stopped on a reading is settled while readings stay near it.
import SmartDoor.BreakDetect.Watch
import SmartDoor.Motor.Published
import SmartDoor.Motor.Safety

/-!
# Hysteresis of the two precisions

`StepMotor` stops on a reading at precision 0; `doorCom`, the handler and
BreakDetect judge at precision 1. A reading that reports an end position at
precision 0 and any reading near it agree at precision 1 (`motorStatus_near`).
So as long as the readings stay near the one that ended a movement, its success
is reported and published, and no later request for the position moves the lock.
-/

namespace SmartDoor.Motor

open BreakDetect

variable {K : Type}

/-- The reading `v` is within `motorStatusPrecisionMul` of `r`. -/
def Near (cfg : DoorConfig) (r v : Int) : Prop :=
  r - cfg.motorStatusPrecisionMul ≤ v ∧ v ≤ r + cfg.motorStatusPrecisionMul

/-- The end positions do not overlap at precision 1. -/
def Apart (cfg : DoorConfig) : Prop :=
  cfg.potentionmeterLowThreshold + cfg.motorStatusPrecisionMul ≤
    cfg.potentionmeterHighThreshold - cfg.motorStatusPrecisionMul

variable {cfg : DoorConfig} {c : Position} {r v : Int}

theorem motorStatus_near (hgap : Apart cfg) (hc : c ≠ .Middle) (hr : cfg.motorStatus 0 r = c)
    (hv : Near cfg r v) : cfg.motorStatus 1 v = c := by
  unfold Near at hv
  unfold Apart at hgap
  unfold DoorConfig.motorStatus at hr ⊢
  by_cases hhigh : r > cfg.potentionmeterHighThreshold - 0 * cfg.motorStatusPrecisionMul
  · have hv' : v > cfg.potentionmeterHighThreshold - 1 * cfg.motorStatusPrecisionMul := by omega
    rw [if_pos hhigh] at hr
    rwa [if_pos hv']
  · rw [if_neg hhigh] at hr
    by_cases hlow : r < cfg.potentionmeterLowThreshold + 0 * cfg.motorStatusPrecisionMul
    · have hv₁ : ¬ v > cfg.potentionmeterHighThreshold - 1 * cfg.motorStatusPrecisionMul := by omega
      have hv₂ : v < cfg.potentionmeterLowThreshold + 1 * cfg.motorStatusPrecisionMul := by omega
      rw [if_pos hlow] at hr
      rwa [if_neg hv₁, if_pos hv₂]
    · rw [if_neg hlow] at hr
      exact absurd hr.symm hc

/-- BreakDetect's callback for a value that the reading agrees with. -/
theorem onDoorneedtobe_of_eq {now : Int} {w : Watch} (h : cfg.motorStatus 1 v = c) :
    onDoorneedtobe cfg v now c w = { w with alretCount := 0 } := by
  simp [onDoorneedtobe, h]

/-! ## One message -/

/-- The entries of a message that finds the lock at `c`, which it asked for. -/
def alreadyDone (socket : K) (c : Position) (first value : Int) : List (Event K) :=
  [.read first, .did (.setDoormsg ("Door Already " ++ Position.word c)), .read value,
    .did (.setDoorstatus (.known c)), .did (.setDoorneedtobe c),
    .did (.write socket ("Door " ++ c.text))]

/-- The entries behind the movement of a message that ended at `c` as asked for. -/
def moveDone (socket : K) (c : Position) (final value : Int) : List (Event K) :=
  [.read final, .did (.setDoormsg ("Door " ++ Position.word c ++ " sucessfully!")), .read value,
    .did (.setDoorstatus (.known c)), .did (.setDoorneedtobe c),
    .did (.write socket ("Door " ++ c.text))]

variable {socket : K} {data : String} {evs post : List (Event K)}

theorem published_of_eq (h : cfg.motorStatus 1 v = c) :
    published cfg socket v = [.read v, .did (.setDoorstatus (.known c)),
      .did (.setDoorneedtobe c), .did (.write socket ("Door " ++ c.text))] := by
  rw [published, h]

/-- A message handled while the first reading and the last report `c`. -/
theorem Handling.alreadyDone (h : Handling cfg socket c.text evs) (hc : c ≠ .Middle)
    (hevs : ∀ v, .read v ∈ evs → cfg.motorStatus 1 v = c) :
    ∃ first value, evs = Motor.alreadyDone socket c first value := by
  generalize hdata : c.text = data at h
  cases h with
  | rejected hrej => exact absurd (isCommand_iff.mpr ⟨c, hc, hdata.symm⟩) hrej
  | command value hp h =>
    obtain rfl := Position.text_injective hdata
    cases h with
    | already first hfirst =>
      refine ⟨first, value, ?_⟩
      rw [published_of_eq (hevs value (by simp [published]))]
      rfl
    | moved first final hfirst hmoved => exact absurd (hevs first (by simp)) hfirst

theorem Pulses.pin_or_read {n : Nat} (h : Pulses cfg c n evs) {e : Event K} (he : e ∈ evs) :
    (∃ l, e = .did (.writeStepPin l)) ∨ ∃ r, e = .read r := by
  induction h with
  | spent => simp at he
  | high printed r hr =>
    simp only [List.mem_cons, List.not_mem_nil, or_false] at he
    obtain rfl | rfl | rfl := he <;> simp
  | low printed r₁ r₂ hr₁ hr₂ =>
    simp only [List.mem_cons, List.not_mem_nil, or_false] at he
    obtain rfl | rfl | rfl | rfl | rfl := he <;> simp
  | next printed r₁ r₂ hr₁ hr₂ h ih =>
    simp only [List.mem_cons] at he
    obtain rfl | rfl | rfl | rfl | rfl | he := he
    · simp
    · simp
    · simp
    · simp
    · simp
    · exact ih he

/-- Whatever is asked for, what is published is what the readings report. -/
theorem Handling.doorneedtobe (h : Handling cfg socket data evs)
    (hevs : ∀ v, .read v ∈ evs → cfg.motorStatus 1 v = c) {q : Position}
    (hq : .did (.setDoorneedtobe q) ∈ evs) : q = c := by
  cases h with
  | rejected => simp at hq
  | @command p evs value hp h =>
    have hvalue := hevs value (by simp [published])
    rw [published_of_eq hvalue, List.mem_append] at hq
    obtain hq | hq := hq
    · cases h with
      | already => simp at hq
      | moved first final hfirst hmoved =>
        obtain ⟨hpulses⟩ := hmoved
        simp only [List.mem_cons, List.mem_append, List.not_mem_nil, reduceCtorEq, or_false,
          false_or, Event.did.injEq] at hq
        obtain ⟨_, h⟩ | ⟨_, h⟩ := hpulses.pin_or_read hq <;> simp at h
    · simpa using hq

/-- A movement that ended at a reading of `c`, in the log of its message. -/
theorem Handling.moveDone (h : Handling cfg socket data evs) (hgap : Apart cfg)
    {acc : List (Event K)} (hevs : evs = acc ++ .read r :: .did (.writePin7 0) :: post)
    (hdata : data = c.text) (hr : cfg.motorStatus 0 r = c)
    (hnear : ∀ v, .read v ∈ post → Near cfg r v) :
    c ≠ .Middle ∧ ∃ final value, post = Motor.moveDone socket c final value := by
  cases h with
  | rejected => exact absurd hevs (by simp [List.cons_eq_append_iff])
  | @command p evs value hp h =>
    obtain rfl := Position.text_injective hdata
    refine ⟨hp, ?_⟩
    cases h with
    | already =>
      have hmem : Event.did (.writePin7 0) ∈ acc ++ .read r :: .did (.writePin7 0) :: post := by
        simp
      rw [← hevs] at hmem
      simp [published] at hmem
    | moved first final hfirst hmoved =>
      cases hmoved with
      | @intro pulses hpulses =>
        -- the relay is switched off once, behind the loop
        have hpost : post = .read final :: .did (.setDoormsg (outcome p
            (cfg.motorStatus 1 final))) :: published cfg socket value := by
          have hsplit : (acc ++ [.read r]) ++ .did (.writePin7 0) :: post =
              (.read first :: .did (.setDoorstatus (movingStatus p)) :: .did (.writePin7 1) ::
                .did (.writeDirectionPin (directionLevel cfg p)) :: pulses) ++
                .did (.writePin7 0) :: (.read final :: .did (.setDoormsg (outcome p
                  (cfg.motorStatus 1 final))) :: published cfg socket value) := by
            simpa using hevs.symm
          refine ((List.append_cons_inj_of_notMem ?_ ?_).mp hsplit.symm).2.2.symm
          · simp only [List.mem_cons, reduceCtorEq, Event.did.injEq, Effect.writePin7.injEq,
              false_or, show (0 : Int) ≠ 1 by decide]
            intro hmem
            obtain ⟨_, h⟩ | ⟨_, h⟩ := hpulses.pin_or_read hmem <;> simp at h
          · simp [published]
        have hfinal := motorStatus_near hgap hp hr (hnear final (by simp [hpost]))
        have hvalue := motorStatus_near hgap hp hr (hnear value (by simp [hpost, published]))
        refine ⟨final, value, ?_⟩
        rw [hpost, published_of_eq hvalue, hfinal, outcome, if_pos rfl]
        rfl

/-! ## The whole log -/

/-- Where a movement ended by a reading lies in a log that grew by one message. -/
theorem ended_in_log_or_message {log pre : List (Event K)}
    (h : log ++ .data socket data :: evs = pre ++ .read r :: .did (.writePin7 0) :: post) :
    (∃ post', log = pre ++ .read r :: .did (.writePin7 0) :: post' ∧
      post = post' ++ .data socket data :: evs) ∨
    ∃ acc, pre = log ++ .data socket data :: acc ∧
      evs = acc ++ .read r :: .did (.writePin7 0) :: post := by
  obtain ⟨acc, hpre, hevs⟩ | ⟨tail, hlog, hpost⟩ := List.append_eq_append_iff.mp h
  · right
    cases acc with
    | nil => simp at hevs
    | cons e acc =>
      obtain ⟨rfl, rfl⟩ := List.cons.inj hevs
      exact ⟨acc, hpre, rfl⟩
  · left
    match tail, hlog, hpost with
    | [], _, hpost => simp at hpost
    | [_], _, hpost => simp at hpost
    | _ :: _ :: tail, hlog, hpost =>
      simp only [List.cons_append, List.cons.injEq] at hpost
      obtain ⟨rfl, rfl, rfl⟩ := hpost
      exact ⟨tail, hlog, rfl⟩

/-- What follows a movement for `c` that ended on the reading `r`: its message
is completed with `c`; each later message asking for `c` finds it done; and
every `doorneedtobe` written is `c`. -/
structure Settled (c : Position) (socket : K) (post : List (Event K)) : Prop where
  completed : ∃ (final value : Int) (xs : List (Exchange K)),
    post = moveDone socket c final value ++ xs.flatMap Exchange.log ∧
    ∀ x ∈ xs, x.events.filterMap Event.data? = [] ∧
      (x.data = c.text → ∃ first value, x.events = alreadyDone x.socket c first value)
  doorneedtobe : ∀ q, .did (.setDoorneedtobe q) ∈ post → q = c

theorem Handling.own (h : Handling cfg socket data evs) : ∀ e ∈ evs, e.data? = none := by
  cases h with
  | rejected => simp [Event.data?]
  | command value hp h =>
    intro e he
    rcases List.mem_append.mp he with he | he
    · exact h.own e he
    · revert he
      simp only [published, List.mem_cons, List.not_mem_nil, or_false]
      rintro (rfl | rfl | rfl | rfl) <;> rfl

theorem Settled.handled (h : Settled c socket post) (hc : c ≠ .Middle) {socket' : K}
    (hx : Handling cfg socket' data evs) (hevs : ∀ v, .read v ∈ evs → cfg.motorStatus 1 v = c) :
    Settled c socket (post ++ .data socket' data :: evs) := by
  constructor
  · obtain ⟨final, value, xs, rfl, hxs⟩ := h.completed
    refine ⟨final, value, xs ++ [⟨socket', data, evs⟩], by simp [Exchange.log], fun x hmem => ?_⟩
    rcases List.mem_append.mp hmem with hmem | hmem
    · exact hxs x hmem
    · obtain rfl := List.mem_singleton.mp hmem
      refine ⟨List.filterMap_eq_nil_iff.mpr hx.own, ?_⟩
      rintro rfl
      exact hx.alreadyDone hc hevs
  · intro q hq
    simp only [List.mem_append, List.mem_cons, reduceCtorEq, false_or] at hq
    obtain hq | hq := hq
    · exact h.doorneedtobe q hq
    · exact hx.doorneedtobe hevs hq

theorem settled_moveDone {final value : Int} :
    Settled c socket (moveDone socket c final value) := by
  refine ⟨⟨final, value, [], by simp, by simp⟩, fun q hq => ?_⟩
  simpa [moveDone] using hq

theorem History.settled {log pre : List (Event K)} (h : History cfg log) (hgap : Apart cfg)
    (hlog : log = pre ++ .read r :: .did (.writePin7 0) :: post)
    (hcom : (pre.filterMap Event.data?).getLast? = some (socket, c.text))
    (hr : cfg.motorStatus 0 r = c) (hnear : ∀ v, .read v ∈ post → Near cfg r v) :
    c ≠ .Middle ∧ Settled c socket post := by
  induction h generalizing post with
  | start value =>
    have hmem : Event.did (.writePin7 0) ∈ pre ++ .read r :: .did (.writePin7 0) :: post := by simp
    rw [← hlog] at hmem
    simp at hmem
  | @handled log evs socket' data hlog' h ih =>
    obtain ⟨post', hold, rfl⟩ | ⟨acc, rfl, hevs⟩ := ended_in_log_or_message hlog
    · obtain ⟨hc, hsettled⟩ := ih hold fun v hv => hnear v (by simp [hv])
      refine ⟨hc, hsettled.handled hc h fun v hv => ?_⟩
      exact motorStatus_near hgap hc hr (hnear v (by simp [hv]))
    · have hacc : acc.filterMap Event.data? = [] := by
        rw [List.filterMap_eq_nil_iff]
        exact fun e he => h.own e (by simp [hevs, he])
      simp only [List.filterMap_append, List.filterMap_cons, Event.data?, hacc,
        List.getLast?_append, List.getLast?_singleton, Option.some_or, Option.some.injEq,
        Prod.mk.injEq] at hcom
      obtain ⟨rfl, hdata⟩ := hcom
      obtain ⟨hc, final, value, rfl⟩ := h.moveDone hgap hevs hdata hr hnear
      exact ⟨hc, settled_moveDone⟩

/-! ## Every run -/

variable [DecidableEq K]

/-- If a movement for `c` ended on a reading `r` that reports `c` at precision 0
and all later readings are near `r`, then once no handler is running: its
success was reported, `doorstatus`, `doorneedtobe` and the reply are `c`; every
further request for `c` found it done and wrote no pin; and BreakDetect agrees
with any `doorneedtobe` written since, at any reading near `r`. -/
theorem settled_of_near (hgap : Apart cfg) {sensor : Sensor} {reading : Int}
    {as : List (Action K)} {s : Server K} {pre : List (Event K)}
    (hrun : Transition.run (Server.step cfg sensor) (Server.init cfg reading) as = some s)
    (hidle : s.running = none)
    (hlog : s.board.log = pre ++ .read r :: .did (.writePin7 0) :: post)
    (hcom : (pre.filterMap Event.data?).getLast? = some (socket, c.text))
    (hr : cfg.motorStatus 0 r = c) (hnear : ∀ v, .read v ∈ post → Near cfg r v) :
    Settled c socket post ∧ ∀ q v now w, .did (.setDoorneedtobe q) ∈ post → Near cfg r v →
      onDoorneedtobe cfg v now q w = { w with alretCount := 0 } := by
  obtain ⟨hc, hsettled⟩ := ((history_of_run hrun).2 hidle).settled hgap hlog hcom hr hnear
  refine ⟨hsettled, fun q v now w hq hv => onDoorneedtobe_of_eq ?_⟩
  rw [hsettled.doorneedtobe q hq]
  exact motorStatus_near hgap hc hr hv

/-- The log of `unlockTwice` up to the reading that ends the movement. -/
def unlockTwiceBefore : List (Event Unit) :=
  [.read 700, .did (.setDoorstatus (.known .Close)), .data () "Open", .read 700,
    .did (.setDoorstatus .Unlocking), .did (.writePin7 1), .did (.writeDirectionPin 0),
    .did (.writeStepPin 1), .read 800, .read 900, .did (.writeStepPin 0), .read 940,
    .did (.writeStepPin 1), .read 950, .read 945, .did (.writeStepPin 0)]

/-- The log of `unlockTwice` behind the movement. -/
def unlockTwiceAfter : List (Event Unit) :=
  moveDone () .Open 960 960 ++ .data () "Open" :: alreadyDone () .Open 955 955

theorem settled_of_near_unlockTwice :
    ∃ s, Transition.run (Server.step doorconfig .free) (Server.init doorconfig 700) unlockTwice
        = some s ∧
      s.board.log = unlockTwiceBefore ++ .read 960 :: .did (.writePin7 0) :: unlockTwiceAfter ∧
      Settled .Open () unlockTwiceAfter ∧
      ∀ q v now w, .did (.setDoorneedtobe q) ∈ unlockTwiceAfter → Near doorconfig 960 v →
        onDoorneedtobe doorconfig v now q w = { w with alretCount := 0 } := by
  have hobs : (Transition.run (Server.step doorconfig .free) (Server.init doorconfig 700)
      unlockTwice).map (fun s => (s.running.isNone, s.board.log)) =
      some (true, unlockTwiceBefore ++ .read 960 :: .did (.writePin7 0) :: unlockTwiceAfter) := rfl
  obtain ⟨s, hrun, hs⟩ := Option.map_eq_some_iff.mp hobs
  obtain ⟨hidle, hlog⟩ := Prod.mk.inj hs
  have hgap : Apart doorconfig := by
    unfold Apart
    decide
  have hnear : ∀ v, .read v ∈ unlockTwiceAfter → Near doorconfig 960 v := by
    simp [unlockTwiceAfter, moveDone, alreadyDone, Near, doorconfig]
  exact ⟨s, hrun, hlog, settled_of_near hgap hrun (by simpa using hidle) hlog rfl rfl hnear⟩

end SmartDoor.Motor
