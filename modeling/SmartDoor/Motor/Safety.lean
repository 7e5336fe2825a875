-- SUMMARY: The motor is driven safely: when the step pin is written, how often, what stops it, and what never energises the relay.
import Mathlib.Data.List.DropRight
import SmartDoor.Base.Lists
import SmartDoor.Motor.History

/-!
# Driving the motor

What the entries before a write to a pin say at that moment: the levels of the
pins, the message that is being handled, and what its handler has done so far.
`Driven` is what holds of every pin write in terms of these. It is proved along
the history of a run: `Driving` is the invariant of `StepMotor`'s loop.
-/

namespace SmartDoor.Motor

open Lists

variable {K : Type} (cfg : DoorConfig)

/-! ## What the log says -/

/-- The level this entry writes to the pin: 7 is the relay, 11 the direction
pin, 12 the step pin. -/
def Event.level? (pin : Nat) (e : Event K) : Option Int :=
  e.pin?.bind fun w => if w.1 = pin then some w.2 else none

/-- The level last written to the pin. -/
def level (pin : Nat) (log : List (Event K)) : Option Int :=
  (log.filterMap (Event.level? pin)).getLast?

/-- The data of the message that was taken last. -/
def commanded (log : List (Event K)) : Option String :=
  (log.filterMap Event.data?).getLast?.map (·.2)

/-- What the handler of the message that was taken last has done. -/
def current (log : List (Event K)) : List (Event K) :=
  log.rtakeWhile fun e => e.data?.isNone

/-- The next read is the exit test made while the step pin is high: the sample
that is printed has been read. -/
def highTest (acc : List (Event K)) : Bool :=
  match acc.reverse with
  | .read _ :: .did (.writeStepPin 1) :: _ => true
  | _ => false

/-- The next read is the exit test made after the step pin went low. -/
def lowTest (acc : List (Event K)) : Bool :=
  match acc.reverse with
  | .did (.writeStepPin 0) :: _ => true
  | _ => false

theorem level_append {pin : Nat} {l m : List (Event K)} :
    level pin (l ++ m) = (level pin m).or (level pin l) := by
  simp [level, List.getLast?_append]

theorem commanded_append {l m : List (Event K)} :
    commanded (l ++ m) = (commanded m).or (commanded l) := by
  simp only [commanded, List.filterMap_append, List.getLast?_append]
  cases (m.filterMap Event.data?).getLast? <;> rfl

theorem commanded_eq_none {l : List (Event K)} (h : ∀ e ∈ l, e.data? = none) :
    commanded l = none := by
  simp [commanded, List.filterMap_eq_nil_iff.mpr h]

/-- During the handling of a message. -/
theorem commanded_data {l evs : List (Event K)} {socket : K} {data : String}
    (h : ∀ e ∈ evs, e.data? = none) : commanded (l ++ .data socket data :: evs) = some data := by
  have hdata : commanded (.data socket data :: evs) = some data := by
    rw [← List.singleton_append, commanded_append, commanded_eq_none h]
    rfl
  rw [commanded_append, hdata, Option.some_or]

theorem current_concat {l : List (Event K)} {e : Event K} :
    current (l ++ [e]) = if e.data? = none then current l ++ [e] else [] := by
  simp [current, List.rtakeWhile_concat]

theorem current_data {l evs : List (Event K)} {socket : K} {data : String}
    (h : ∀ e ∈ evs, e.data? = none) : current (l ++ .data socket data :: evs) = evs := by
  induction evs using List.reverseRecOn with
  | nil => exact current_concat
  | append_singleton evs e ih =>
    simp only [List.mem_append, List.mem_singleton] at h
    rw [← List.cons_append, ← List.append_assoc, current_concat, if_pos (h e (.inr rfl)),
      ih fun x hx => h x (.inl hx)]

/-! ## Writes to a pin -/

/-- What precedes a write to a pin: a command for `p` is being handled, whose
first reading did not report `p`. If it is the step pin, the relay is on, the
direction is that of the command, a pulse is within the budget, and no exit test
has reported `p`. -/
structure Driven (p : Position) (pre : List (Event K)) (e : Event K) : Prop where
  needed : ∀ r rest, current pre = .read r :: rest → cfg.motorStatus 1 r ≠ p
  powered : ∀ l, e = .did (.writeStepPin l) → level 7 pre = some 1
  direction : ∀ l, e = .did (.writeStepPin l) → level 11 pre = some (directionLevel cfg p)
  budget : e = .did (.writeStepPin 1) →
    (current pre).countP (fun e => e.level? 12 = some 1) < cfg.motorThreshold
  missed : ∀ l, e = .did (.writeStepPin l) → Everywhere (fun acc e =>
    highTest acc ∨ lowTest acc → ∀ r, e = .read r → cfg.motorStatus 0 r ≠ p) (current pre)

/-- Every pin write belongs to a command that drives the motor. -/
def Guarded (pre : List (Event K)) (e : Event K) : Prop :=
  e.pin?.isSome → ∃ p, p ≠ .Middle ∧ commanded pre = some p.text ∧ Driven cfg p pre e

/-- What `StepMotor` keeps between its iterations about the entries of the
handler, with `n` iterations left. -/
structure Driving (p : Position) (n : Nat) (acc : List (Event K)) : Prop where
  own : ∀ e ∈ acc, e.data? = none
  needed : ∀ r rest, acc = .read r :: rest → cfg.motorStatus 1 r ≠ p
  powered : level 7 acc = some 1
  direction : level 11 acc = some (directionLevel cfg p)
  budget : acc.countP (fun e => e.level? 12 = some 1) + n ≤ cfg.motorThreshold
  missed : Everywhere (fun acc e =>
    highTest acc ∨ lowTest acc → ∀ r, e = .read r → cfg.motorStatus 0 r ≠ p) acc

variable {cfg} {p : Position} {n k : Nat} {log acc evs : List (Event K)} {socket : K}

theorem guarded_of_pin?_eq_none {pre : List (Event K)} {e : Event K} (h : e.pin? = none) :
    Guarded cfg pre e := by
  intro hpin
  simp [h] at hpin

/-- A step pin write between two iterations, or between the halves of one. -/
theorem Driving.guarded (h : Driving cfg p n acc) (hp : p ≠ .Middle) {l : Int}
    (hl : l = 1 → 0 < n) :
    Guarded cfg (log ++ .data socket p.text :: acc) (.did (.writeStepPin l)) := by
  intro _
  have hcur : current (log ++ .data socket p.text :: acc) = acc := current_data h.own
  have hlevel (pin : Nat) : level pin (log ++ .data socket p.text :: acc) =
      (level pin acc).or (level pin (log ++ [.data socket p.text])) := by
    rw [← level_append, List.append_assoc, List.singleton_append]
  refine ⟨p, hp, commanded_data h.own, ?_⟩
  constructor
  · rw [hcur]
    exact h.needed
  · intro _ _
    rw [hlevel, h.powered, Option.some_or]
  · intro _ _
    rw [hlevel, h.direction, Option.some_or]
  · intro he
    obtain rfl : l = 1 := by simpa using he
    have hn := hl rfl
    have hbudget := h.budget
    rw [hcur]
    omega
  · intro _ _
    rw [hcur]
    exact h.missed

/-- What an iteration, or the half of one, adds to the entries of the handler. -/
theorem Driving.append (h : Driving cfg p (n + k) acc) (hown : ∀ e ∈ evs, e.data? = none)
    (hpins : ∀ e ∈ evs, e.level? 7 = none ∧ e.level? 11 = none)
    (hcount : evs.countP (fun e => e.level? 12 = some 1) ≤ k)
    (hmissed : Everywhere (fun pre e =>
      highTest (acc ++ pre) ∨ lowTest (acc ++ pre) → ∀ r, e = .read r →
        cfg.motorStatus 0 r ≠ p) evs) : Driving cfg p n (acc ++ evs) := by
  have hlevel (pin : Nat) (hpin : ∀ e ∈ evs, e.level? pin = none) :
      level pin (acc ++ evs) = level pin acc := by
    rw [level_append, level, List.filterMap_eq_nil_iff.mpr hpin]
    rfl
  constructor
  · intro e he
    rcases List.mem_append.mp he with he | he
    · exact h.own e he
    · exact hown e he
  · intro r rest hacc
    cases acc with
    | nil => exact absurd h.powered (by simp [level])
    | cons x acc =>
      obtain ⟨rfl, -⟩ := List.cons.inj hacc
      exact h.needed r acc rfl
  · rw [hlevel 7 fun e he => (hpins e he).1, h.powered]
  · rw [hlevel 11 fun e he => (hpins e he).2, h.direction]
  · have hbudget := h.budget
    rw [List.countP_append]
    omega
  · exact everywhere_append.mpr ⟨h.missed, hmissed⟩

/-- The first half of an iteration whose exit test fails. -/
theorem Driving.high (h : Driving cfg p (n + 1) acc) {printed r : Int}
    (hr : cfg.motorStatus 0 r ≠ p) :
    Driving cfg p n (acc ++ [.did (.writeStepPin 1), .read printed, .read r]) := by
  apply h.append
  · simp [Event.data?]
  · simp [Event.level?, Event.pin?]
  · simp [Event.level?, Event.pin?]
  · simp [highTest, lowTest, hr]

/-- The second half of an iteration whose exit test fails. -/
theorem Driving.low (h : Driving cfg p n acc) {r : Int} (hr : cfg.motorStatus 0 r ≠ p) :
    Driving cfg p n (acc ++ [.did (.writeStepPin 0), .read r]) := by
  apply h.append (k := 0)
  · simp [Event.data?]
  · simp [Event.level?, Event.pin?]
  · simp [Event.level?, Event.pin?]
  · simp [highTest, lowTest, hr]

theorem Pulses.own (h : Pulses cfg p n evs) : ∀ e ∈ evs, e.data? = none := by
  induction h with
  | spent => simp
  | high => simp [Event.data?]
  | low => simp [Event.data?]
  | next _ _ _ _ _ _ ih => simpa [Event.data?] using ih

/-- Every write of the loop is guarded. -/
theorem Pulses.guarded (h : Pulses cfg p n evs) (hp : p ≠ .Middle) (hacc : Driving cfg p n acc) :
    Everywhere (fun pre e => Guarded cfg (log ++ .data socket p.text :: (acc ++ pre)) e) evs := by
  induction h generalizing acc with
  | spent => exact everywhere_nil
  | high printed r hr =>
    simp only [everywhere_cons, List.append_nil]
    refine ⟨hacc.guarded hp (by simp), ?_, ?_, everywhere_nil⟩ <;>
      exact guarded_of_pin?_eq_none rfl
  | low printed r₁ r₂ hr₁ hr₂ =>
    simp only [everywhere_cons, List.append_nil]
    refine ⟨hacc.guarded hp (by simp), ?_, ?_, (hacc.high hr₁).guarded hp (by simp), ?_,
      everywhere_nil⟩ <;> exact guarded_of_pin?_eq_none rfl
  | next printed r₁ r₂ hr₁ hr₂ h ih =>
    simp only [everywhere_cons, List.append_nil]
    refine ⟨hacc.guarded hp (by simp), guarded_of_pin?_eq_none rfl, guarded_of_pin?_eq_none rfl,
      (hacc.high hr₁).guarded hp (by simp), guarded_of_pin?_eq_none rfl, ?_⟩
    simpa only [List.append_assoc, List.cons_append, List.nil_append] using
      ih ((hacc.high hr₁).low hr₂)

/-- A write to another pin than the step pin needs a first reading only. -/
theorem guarded_of_needed {e : Event K} (hp : p ≠ .Middle) (hown : ∀ e ∈ acc, e.data? = none)
    (hneeded : ∀ r rest, acc = .read r :: rest → cfg.motorStatus 1 r ≠ p)
    (he : ∀ l, e ≠ .did (.writeStepPin l)) :
    Guarded cfg (log ++ .data socket p.text :: acc) e := by
  intro _
  refine ⟨p, hp, commanded_data hown, ?_⟩
  constructor
  · rw [current_data hown]
    exact hneeded
  · exact fun l hl => absurd hl (he l)
  · exact fun l hl => absurd hl (he l)
  · exact fun hl => absurd hl (he 1)
  · exact fun l hl => absurd hl (he l)

theorem Moved.own (h : Moved cfg p evs) : ∀ e ∈ evs, e.data? = none := by
  obtain ⟨hpulses⟩ := h
  simpa [Event.data?, or_imp, forall_and] using hpulses.own

theorem Moved.guarded {first : Int} {status : DoorStatus} (h : Moved cfg p evs) (hp : p ≠ .Middle)
    (hfirst : cfg.motorStatus 1 first ≠ p) :
    Everywhere (fun pre e => Guarded cfg (log ++ .data socket p.text ::
      (.read first :: .did (.setDoorstatus status) :: pre)) e) evs := by
  obtain ⟨hpulses⟩ := h
  simp only [everywhere_cons, everywhere_append, everywhere_nil, and_true]
  have hneeded (rest : List (Event K)) : ∀ r rest', Event.read first :: rest = .read r :: rest' →
      cfg.motorStatus 1 r ≠ p := by
    intro r rest' he
    obtain ⟨rfl⟩ := Event.read.inj (List.cons.inj he).1
    exact hfirst
  have hacc : Driving (K := K) cfg p cfg.motorThreshold [.read first, .did (.setDoorstatus status),
      .did (.writePin7 1), .did (.writeDirectionPin (directionLevel cfg p))] := by
    constructor
    · simp [Event.data?]
    · exact hneeded _
    · rfl
    · rfl
    · simp [Event.level?, Event.pin?]
    · simp [highTest, lowTest]
  refine ⟨?_, ?_, ?_, ?_⟩
  · exact guarded_of_needed hp (by simp [Event.data?]) (hneeded _) (by simp)
  · exact guarded_of_needed hp (by simp [Event.data?]) (hneeded _) (by simp)
  · exact hpulses.guarded hp hacc
  · refine guarded_of_needed hp ?_ (hneeded _) (by simp)
    simpa [Event.data?] using hpulses.own

theorem Commanded.own (h : Commanded cfg p evs) : ∀ e ∈ evs, e.data? = none := by
  cases h with
  | already => simp [Event.data?]
  | moved first final hfirst hmoved =>
    simpa [Event.data?, or_imp, forall_and] using hmoved.own

/-- Entries that write no pin. -/
theorem everywhere_guarded (h : ∀ e ∈ evs, e.pin? = none) {f : List (Event K) → List (Event K)} :
    Everywhere (fun pre e => Guarded cfg (f pre) e) evs := by
  rintro pre e post rfl
  exact guarded_of_pin?_eq_none (h e (by simp))

theorem Handling.guarded {data : String} (h : Handling cfg socket data evs) :
    Everywhere (fun pre e => Guarded cfg (log ++ .data socket data :: pre) e) evs := by
  cases h with
  | rejected h => exact everywhere_guarded (by simp [Event.pin?])
  | command value hp h =>
    refine everywhere_append.mpr ⟨?_, everywhere_guarded (by simp [published, Event.pin?])⟩
    cases h with
    | already => exact everywhere_guarded (by simp [Event.pin?])
    | moved first final hfirst hmoved =>
      simp only [everywhere_cons, everywhere_append]
      exact ⟨guarded_of_pin?_eq_none rfl, guarded_of_pin?_eq_none rfl, hmoved.guarded hp hfirst,
        guarded_of_pin?_eq_none rfl, guarded_of_pin?_eq_none rfl, everywhere_nil⟩

theorem History.guarded (h : History cfg log) : Everywhere (Guarded cfg) log := by
  induction h with
  | start value => exact everywhere_guarded (f := id) (by simp [Event.pin?])
  | handled hlog h ih =>
    refine everywhere_append.mpr ⟨ih, everywhere_cons.mpr ⟨?_, h.guarded⟩⟩
    exact guarded_of_pin?_eq_none rfl

/-! ## The relay between two messages -/

theorem level_of_forall {pin : Nat} {l m : List (Event K)} (h : ∀ e ∈ m, e.level? pin = none) :
    level pin (l ++ m) = level pin l := by
  rw [level_append, level, List.filterMap_eq_nil_iff.mpr h]
  rfl

theorem Handling.relay {data : String} (h : Handling cfg socket data evs)
    (hlog : (level 7 log).getD 0 = 0) :
    (level 7 (log ++ .data socket data :: evs)).getD 0 = 0 := by
  cases h with
  | rejected =>
    rw [level_of_forall (by simp [Event.level?, Event.pin?]), hlog]
  | command value hp h =>
    cases h with
    | already =>
      rw [level_of_forall (by simp [published, Event.level?, Event.pin?]), hlog]
    | moved first final hfirst hmoved =>
      -- the movement ends with the relay's switching off
      obtain ⟨hpulses⟩ := hmoved
      simp only [← List.cons_append, ← List.append_assoc]
      rw [level_of_forall (by simp [published, Event.level?, Event.pin?]),
        level_of_forall (by simp [Event.level?, Event.pin?]), level_append]
      rfl

theorem History.relay (h : History cfg log) : (level 7 log).getD 0 = 0 := by
  induction h with
  | start value => rfl
  | handled hlog h ih => exact h.relay ih

/-! ## Every run -/

theorem countP_current_le {limit : Nat} {test : Event K → Bool}
    (h : Everywhere (fun pre e => test e → (current pre).countP test < limit) log)
    {pre : List (Event K)} (hpre : pre <+: log) : (current pre).countP test ≤ limit := by
  obtain ⟨post, rfl⟩ := hpre
  induction pre using List.reverseRecOn generalizing post with
  | nil => exact Nat.zero_le _
  | append_singleton pre e ih =>
    rw [List.append_assoc] at h
    have hprev := ih ([e] ++ post) h
    have hnext := h pre e post rfl
    rw [current_concat]
    split
    · simp only [List.countP_append, List.countP_singleton]
      split
      · next he => exact hnext he
      · exact hprev
    · exact Nat.zero_le _

variable (cfg) in
/-- What the motor server has done with its pins up to the present state. -/
structure DrivenSafely (s : Server K) : Prop where
  /-- The step pin is written while the relay is on and the direction pin has
  the level for the command being handled. -/
  powered : ∀ pre l post, s.board.log = pre ++ .did (.writeStepPin l) :: post →
    level 7 pre = some 1 ∧ ∃ p : Position, p ≠ .Middle ∧ commanded pre = some p.text ∧
      level 11 pre = some (directionLevel cfg p)
  /-- No handler makes more than `motorThreshold` pulses. -/
  budget : ∀ pre, pre <+: s.board.log →
    (current pre).countP (fun e => e.level? 12 = some 1) ≤ cfg.motorThreshold
  /-- No handler writes the step pin after an exit test that read the commanded
  position. -/
  stopped : ∀ pre l post acc r rest, s.board.log = pre ++ .did (.writeStepPin l) :: post →
    current pre = acc ++ .read r :: rest → highTest acc ∨ lowTest acc →
      commanded pre ≠ some (cfg.motorStatus 0 r).text
  /-- The relay is off between two handlers. -/
  relay : s.running = none → (level 7 s.board.log).getD 0 = 0
  /-- A handler whose first reading reports the position asked for writes no pin. -/
  spared : ∀ pre socket p r evs post,
    s.board.log = pre ++ .data socket (Position.text p) :: .read r :: (evs ++ post) →
    (∀ e ∈ evs, e.data? = none) → cfg.motorStatus 1 r = p → ∀ e ∈ evs, e.pin? = none

variable [DecidableEq K]

/-- The motor is driven safely in every reachable state. -/
theorem driven_safely_of_run {sensor : Sensor} {reading : Int} {as : List (Action K)}
    {s : Server K}
    (hrun : Transition.run (Server.step cfg sensor) (Server.init cfg reading) as = some s) :
    DrivenSafely cfg s := by
  obtain ⟨⟨rest, hrest⟩, hidle⟩ := history_of_run hrun
  have hlog : Everywhere (Guarded cfg) s.board.log := hrest.guarded.of_append
  constructor
  case powered =>
    intro pre l post h
    obtain ⟨p, hp, hcom, hdriven⟩ := hlog pre _ post h rfl
    exact ⟨hdriven.powered l rfl, p, hp, hcom, hdriven.direction l rfl⟩
  case budget =>
    intro pre hpre
    refine countP_current_le (hlog.mono fun pre e hguard he => ?_) hpre
    have hstep : e = .did (.writeStepPin 1) := by
      cases e with
      | did f => cases f <;> simp_all [Event.level?, Event.pin?]
      | _ => simp [Event.level?, Event.pin?] at he
    obtain ⟨p, -, -, hdriven⟩ := hguard (by rw [hstep]; rfl)
    exact hdriven.budget hstep
  case stopped =>
    intro pre l post acc r rest h hcur htest
    obtain ⟨p, -, hcom, hdriven⟩ := hlog pre _ post h rfl
    have hmissed := hdriven.missed l rfl acc (.read r) rest hcur htest r rfl
    rw [hcom]
    exact fun htext => hmissed (Position.text_injective (Option.some.inj htext)).symm
  case relay => exact fun hnone => (hidle hnone).relay
  case spared =>
    intro pre socket p r evs post h hown hr e he
    obtain ⟨a, b, rfl⟩ := List.append_of_mem he
    rw [← Option.not_isSome_iff_eq_none]
    intro hpin
    have ha : ∀ x ∈ Event.read r :: a, x.data? = none := by
      intro x hx
      rcases List.mem_cons.mp hx with rfl | hx
      · rfl
      · exact hown x (by simp [hx])
    obtain ⟨q, -, hcom, hdriven⟩ :=
      hlog (pre ++ .data socket p.text :: .read r :: a) e (b ++ post) (by simp [h]) hpin
    rw [commanded_data ha] at hcom
    obtain rfl := Position.text_injective (Option.some.inj hcom)
    exact hdriven.needed r a (current_data ha) hr

/-- An unlock of a closed lock that takes two iterations, then the same request
again. -/
def unlockTwice : List (Action Unit) :=
  [.exec 700, .exec 0, .exec 0, .arrive () "Open", .data () 1] ++
    [0, 0, 700, 0, 0, 0, 0, 800, 900, 0, 940, 0, 950, 945, 0, 960, 0, 960, 0, 960, 0, 0, 0, 0,
      0].map .exec ++
    [.arrive () "Open", .data () 1] ++ [0, 0, 955, 0, 955, 0, 0, 0, 0, 0].map .exec

theorem driven_safely_of_run_unlockTwice :
    ∃ s, Transition.run (Server.step doorconfig .free) (Server.init doorconfig 700) unlockTwice
        = some s ∧ s.running = none ∧ DrivenSafely doorconfig s := by
  have hobs : (Transition.run (Server.step doorconfig .free) (Server.init doorconfig 700)
      unlockTwice).map (fun s => s.running.isNone) = some true := rfl
  obtain ⟨s, hrun, hs⟩ := Option.map_eq_some_iff.mp hobs
  exact ⟨s, hrun, by simpa using hs, driven_safely_of_run hrun⟩

end SmartDoor.Motor
