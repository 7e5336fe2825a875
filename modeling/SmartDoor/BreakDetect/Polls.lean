-- SUMMARY: When each thief alert rests on two polls: ticks and changes of `doorneedtobe`, with one callback per listener.
import Mathlib.Data.List.Chain
import SmartDoor.Base.Lists
import SmartDoor.Base.Transition
import SmartDoor.BreakDetect.Watch

/-!
# Thief alerts and polls

A tick of `BreakDetect.js` registers one more listener on `doorneedtobe`, and the
listener is called once with the current value. A change calls every listener
there is. Each call reads the sensor for itself, so one change is as many
observations as there are listeners, all of them counted. An alert therefore
rests on two separate polls exactly as long as no change to "Close" is seen off
"Close" by two listeners in a row.
-/

namespace SmartDoor.BreakDetect

/-! ## Callbacks and events -/

/-- The callback for any value: `none` is null or a text that is no position.
`MotorStatus` never returns it, and it is not "Close". -/
def onValue (cfg : DoorConfig) (reading now : Int) (snap : Option Position) (w : Watch) : Watch :=
  match snap with
  | some snap => onDoorneedtobe cfg reading now snap w
  | none => w

/-- What one callback saw and did. -/
structure Observation where
  /-- The number of the tick or change it belongs to. -/
  event : Nat
  /-- `AlretCount` before that tick or change. -/
  before : Nat
  value : Option Position
  found : Position
  /-- `AlretCount` after the callback. -/
  count : Nat
  raised : Bool
  deriving DecidableEq, Repr

/-- "Close" is wanted, and the lock is elsewhere. -/
def Observation.Mismatch (o : Observation) : Prop := o.value = some .Close ∧ o.found ≠ .Close

def Observation.Agrees (o : Observation) : Prop := o.value = some o.found

instance (o : Observation) : Decidable o.Mismatch := inferInstanceAs (Decidable (_ ∧ _))

instance (o : Observation) : Decidable o.Agrees := inferInstanceAs (Decidable (_ = _))

/-- The process, and the observations of all its callbacks so far. -/
structure Polls where
  watch : Watch
  events : Nat
  before : Nat
  observations : List Observation
  deriving DecidableEq, Repr

def Polls.init : Polls := ⟨Watch.init, 0, 0, []⟩

/-- A tick or a change begins. -/
def Polls.next (s : Polls) : Polls :=
  { s with events := s.events + 1, before := s.watch.alretCount }

/-- One callback, with its own reading of the sensor and of the clock. -/
def Polls.callback (cfg : DoorConfig) (snap : Option Position) (s : Polls) (sample : Int × Int) :
    Polls :=
  let watch := onValue cfg sample.1 sample.2 snap s.watch
  let found := cfg.motorStatus 1 sample.1
  let raised := decide (s.watch.sent.length < watch.sent.length)
  { s with
    watch
    observations := s.observations ++
      [⟨s.events, s.before, snap, found, watch.alretCount, raised⟩] }

inductive Poll where
  /-- The interval fires: a listener is added, and called with the current value. -/
  | tick (sample : Int × Int)
  /-- `doorneedtobe` changes: each listener is called in turn. -/
  | change (value : Option Position) (samples : List (Int × Int))
  deriving DecidableEq, Repr

def Polls.step (cfg : DoorConfig) (s : Polls) : Poll → Option Polls
  | .tick sample =>
    let s' := { s.next with watch := { s.watch with listeners := s.watch.listeners + 1 } }
    some (s'.callback cfg s.watch.value sample)
  | .change value samples =>
    -- two texts that are no position are one value here
    if samples.length = s.watch.listeners ∧ (value ≠ s.watch.value ∨ value = none) then
      some (samples.foldl (Polls.callback cfg value)
        { s.next with watch := { s.watch with value } })
    else none

/-! ## What an alert should rest on -/

/-- The observations since the last one that agreed, the latest first. -/
def recent (l : List Observation) : List Observation :=
  l.reverse.takeWhile (fun o => ¬ o.Agrees)

/-- The count has grown by at most one in this tick or change, and an alert is
raised at a mismatch with another one at an earlier tick or change, with no
agreeing observation in between. -/
structure Sound (pre : List Observation) (o : Observation) : Prop where
  growth : o.count ≤ o.before + 1
  justified : o.raised = true →
    o.Mismatch ∧ ∃ o' ∈ recent pre, o'.Mismatch ∧ o'.event < o.event

/-- The condition: of the callbacks of a change to "Close", no two in a row find
the lock off "Close". -/
def Poll.Separate (cfg : DoorConfig) : Poll → Prop
  | .tick _ => True
  | .change value samples => value = some .Close → samples.IsChain fun a b =>
      cfg.motorStatus 1 a.1 = .Close ∨ cfg.motorStatus 1 b.1 = .Close

variable {cfg : DoorConfig} {s s' : Polls} {snap : Option Position} {sample : Int × Int}
  {samples : List (Int × Int)} {l : List Observation} {o : Observation}

/-! ## What a callback does -/

theorem recent_concat : recent (l ++ [o]) = if o.Agrees then [] else o :: recent l := by
  unfold recent
  rw [List.reverse_concat, List.takeWhile_cons]
  by_cases h : o.Agrees
  · simp [h]
  · simp [h]

/-- A callback that agrees. -/
theorem onValue_agrees {reading now : Int} {w : Watch}
    (h : snap = some (cfg.motorStatus 1 reading)) :
    onValue cfg reading now snap w = { w with alretCount := 0 } := by
  subst h
  simp [onValue, onDoorneedtobe]

/-- A mismatch with another value than "Close". -/
theorem onValue_other {reading now : Int} {w : Watch}
    (h : snap ≠ some (cfg.motorStatus 1 reading)) (hclose : snap ≠ some .Close) :
    onValue cfg reading now snap w = w := by
  cases snap with
  | none => rfl
  | some v =>
    have hv : cfg.motorStatus 1 reading ≠ v := fun heq => h (by rw [heq])
    have hc : v ≠ .Close := fun heq => hclose (by rw [heq])
    simp [onValue, onDoorneedtobe, hv, hc]

/-- A mismatch with "Close" counts, and the second one in a row raises the alert. -/
theorem onValue_mismatch {reading now : Int} {w : Watch}
    (h : cfg.motorStatus 1 reading ≠ .Close) :
    (onValue cfg reading now (some .Close) w).alretCount = w.alretCount + 1 ∧
    (w.sent.length < (onValue cfg reading now (some .Close) w).sent.length ↔
      1 ≤ w.alretCount) := by
  by_cases hcount : 1 ≤ w.alretCount
  · have h2 : w.alretCount + 1 ≥ 2 := by omega
    simp [onValue, onDoorneedtobe, h, h2, hcount, Watch.alert]
  · have h2 : ¬ w.alretCount + 1 ≥ 2 := by omega
    simp [onValue, onDoorneedtobe, h, h2, hcount]

/-- A callback appends one observation, and does one of three things. -/
theorem Polls.callback_cases (cfg : DoorConfig) (snap : Option Position) (s : Polls)
    (sample : Int × Int) :
    ∃ o, (s.callback cfg snap sample).observations = s.observations ++ [o] ∧
      (s.callback cfg snap sample).events = s.events ∧
      (s.callback cfg snap sample).before = s.before ∧
      o.event = s.events ∧ o.before = s.before ∧
      o.count = (s.callback cfg snap sample).watch.alretCount ∧
      (o.Agrees ∧ o.count = 0 ∧ o.raised = false ∧ snap = some (cfg.motorStatus 1 sample.1) ∨
        ¬ o.Agrees ∧ snap ≠ some .Close ∧ o.count = s.watch.alretCount ∧ o.raised = false ∨
        ¬ o.Agrees ∧ o.Mismatch ∧ snap = some .Close ∧ cfg.motorStatus 1 sample.1 ≠ .Close ∧
          o.count = s.watch.alretCount + 1 ∧ (o.raised = true ↔ 1 ≤ s.watch.alretCount)) := by
  refine ⟨_, rfl, rfl, rfl, rfl, rfl, rfl, ?_⟩
  by_cases hagrees : snap = some (cfg.motorStatus 1 sample.1)
  · refine .inl ⟨hagrees, ?_, ?_, hagrees⟩
    · rw [onValue_agrees hagrees]
    · simp [onValue_agrees hagrees]
  · right
    by_cases hclose : snap = some .Close
    · subst hclose
      have hopen : cfg.motorStatus 1 sample.1 ≠ .Close := fun heq => hagrees (by rw [heq])
      obtain ⟨hcount, hraised⟩ := onValue_mismatch hopen
      exact .inr ⟨hagrees, ⟨rfl, hopen⟩, rfl, hopen, hcount, by simpa using hraised⟩
    · refine .inl ⟨hagrees, hclose, ?_, ?_⟩
      · rw [onValue_other hagrees hclose]
      · simp [onValue_other hagrees hclose]

theorem Polls.foldl_observations (cfg : DoorConfig) (snap : Option Position) (s : Polls)
    (samples : List (Int × Int)) :
    ∃ new, (samples.foldl (Polls.callback cfg snap) s).observations = s.observations ++ new := by
  induction samples generalizing s with
  | nil => exact ⟨[], by simp⟩
  | cons a samples ih =>
    obtain ⟨new, hnew⟩ := ih (s.callback cfg snap a)
    obtain ⟨o, ho, -⟩ := Polls.callback_cases cfg snap s a
    exact ⟨o :: new, by rw [List.foldl_cons, hnew, ho, List.append_assoc, List.singleton_append]⟩

/-- A tick and a change are callbacks after the beginning of an event. -/
theorem Polls.step_cases {e : Poll} (h : s.step cfg e = some s') :
    ∃ (s₁ : Polls) (snap : Option Position) (samples : List (Int × Int)),
      s' = samples.foldl (Polls.callback cfg snap) s₁ ∧
      s₁.observations = s.observations ∧ s₁.events = s.events + 1 ∧
      s₁.before = s.watch.alretCount ∧ s₁.watch.alretCount = s.watch.alretCount ∧
      (e.Separate cfg ↔ (snap = some .Close → samples.IsChain fun a b =>
        cfg.motorStatus 1 a.1 = .Close ∨ cfg.motorStatus 1 b.1 = .Close)) := by
  cases e with
  | tick sample =>
    refine ⟨_, s.watch.value, [sample], (Option.some.inj h).symm, rfl, rfl, rfl, rfl, ?_⟩
    simp [Poll.Separate]
  | change value samples =>
    simp only [Polls.step] at h
    split at h
    case isFalse => cases h
    case isTrue => exact ⟨_, value, samples, (Option.some.inj h).symm, rfl, rfl, rfl, rfl, Iff.rfl⟩

/-! ## The count and the observations -/

/-- A count is backed by a mismatch with no agreeing observation since. -/
structure Polls.Backed (s : Polls) : Prop where
  counted : 0 < s.watch.alretCount → ∃ o ∈ recent s.observations, o.Mismatch
  events : ∀ o ∈ s.observations, o.event ≤ s.events

theorem Polls.Backed.callback (h : s.Backed) : (s.callback cfg snap sample).Backed := by
  obtain ⟨o, hobs, hevents, -, hevent, -, hcount, hcases⟩ := Polls.callback_cases cfg snap s sample
  refine ⟨fun hpos => ?_, fun o' ho' => ?_⟩
  · rw [← hcount] at hpos
    rw [hobs, recent_concat]
    obtain ⟨-, hzero, -⟩ | ⟨hagrees, -, hsame, -⟩ | ⟨hagrees, hmismatch, -⟩ := hcases
    · omega
    · obtain ⟨o', ho', hmismatch⟩ := h.counted (by omega)
      exact ⟨o', by simp [hagrees, ho'], hmismatch⟩
    · exact ⟨o, by simp [hagrees], hmismatch⟩
  · rw [hevents]
    rw [hobs, List.mem_append, List.mem_singleton] at ho'
    obtain hold | rfl := ho'
    · exact h.events o' hold
    · exact Nat.le_of_eq hevent

theorem Polls.Backed.foldl (h : s.Backed) :
    (samples.foldl (Polls.callback cfg snap) s).Backed := by
  induction samples generalizing s with
  | nil => exact h
  | cons a samples ih => exact ih h.callback

/-- Nothing has been counted in this tick or change yet, and the count is backed
by an earlier one. -/
structure Polls.Clear (s : Polls) : Prop where
  count : s.watch.alretCount ≤ s.before
  earlier : 0 < s.watch.alretCount →
    ∃ o ∈ recent s.observations, o.Mismatch ∧ o.event < s.events

/-- The callback with this value and sample finds "Close" where it should be. -/
def Agreeing (cfg : DoorConfig) (snap : Option Position) (sample : Int × Int) : Prop :=
  snap = some .Close ∧ cfg.motorStatus 1 sample.1 = .Close

theorem Polls.callback_sound (h : Agreeing cfg snap sample ∨ s.Clear)
    (hs : Lists.Everywhere Sound s.observations) :
    Lists.Everywhere Sound (s.callback cfg snap sample).observations := by
  obtain ⟨o, hobs, -, -, hevent, hbefore, -, hcases⟩ := Polls.callback_cases cfg snap s sample
  rw [hobs, Lists.everywhere_concat]
  refine ⟨hs, ?_⟩
  obtain ⟨-, hzero, hraised, -⟩ | ⟨-, hother, hsame, hraised⟩ |
    ⟨-, hmismatch, -, hopen, hcount, hraised⟩ := hcases
  · exact ⟨by omega, fun hr => by simp [hraised] at hr⟩
  · have hclear : s.Clear := h.resolve_left fun ha => hother ha.1
    have hle := hclear.count
    exact ⟨by omega, fun hr => by simp [hraised] at hr⟩
  · have hclear : s.Clear := h.resolve_left fun ha => hopen ha.2
    have hle := hclear.count
    refine ⟨by omega, fun hr => ⟨hmismatch, ?_⟩⟩
    rw [hevent]
    exact hclear.earlier (hraised.mp hr)

/-- Only a mismatch with "Close" leaves an event with something counted. -/
theorem Polls.callback_clear (h : Agreeing cfg snap sample ∨ s.Clear)
    (hcount : snap = some .Close → cfg.motorStatus 1 sample.1 = .Close) :
    (s.callback cfg snap sample).Clear := by
  obtain ⟨o, hobs, hevents, hbefore, -, -, heq, hcases⟩ := Polls.callback_cases cfg snap s sample
  obtain ⟨-, hzero, -⟩ | ⟨hagrees, hother, hsame, -⟩ | ⟨-, -, hclose, hopen, -⟩ := hcases
  · exact ⟨by omega, fun hpos => by omega⟩
  · have hclear : s.Clear := h.resolve_left fun ha => hother ha.1
    have hle := hclear.count
    refine ⟨by omega, fun hpos => ?_⟩
    obtain ⟨o', ho', hrest⟩ := hclear.earlier (by omega)
    rw [hobs, recent_concat, if_neg hagrees, hevents]
    exact ⟨o', List.mem_cons_of_mem o ho', hrest⟩
  · exact absurd (hcount hclose) hopen

/-- Callbacks of one event of which no two in a row count. -/
theorem Polls.foldl_sound (h : ∀ a ∈ samples.head?, Agreeing cfg snap a ∨ s.Clear)
    (hchain : snap = some .Close → samples.IsChain fun a b =>
      cfg.motorStatus 1 a.1 = .Close ∨ cfg.motorStatus 1 b.1 = .Close)
    (hs : Lists.Everywhere Sound s.observations) :
    Lists.Everywhere Sound (samples.foldl (Polls.callback cfg snap) s).observations := by
  induction samples generalizing s with
  | nil => exact hs
  | cons a samples ih =>
    have ha : Agreeing cfg snap a ∨ s.Clear := h a rfl
    refine ih (fun b hb => ?_) (fun hclose => (hchain hclose).tail) (Polls.callback_sound ha hs)
    by_cases hopen : snap = some .Close ∧ cfg.motorStatus 1 b.1 ≠ .Close
    · -- the callback before `b` has agreed
      obtain ⟨hclose, hb'⟩ := hopen
      have hab := (List.isChain_cons.mp (hchain hclose)).1 b hb
      exact .inr (Polls.callback_clear ha fun _ => hab.resolve_right hb')
    · by_cases hclose : snap = some .Close
      · exact .inl ⟨hclose, by simpa [hclose] using hopen⟩
      · exact .inr (Polls.callback_clear ha fun heq => absurd heq hclose)

/-! ## Two mismatches in a row -/

/-- In this tick or change either nothing has been lost from the count, or the
last agreeing observation is one of its own. -/
def Polls.Within (s : Polls) : Prop :=
  s.before ≤ s.watch.alretCount ∨ ∀ o ∈ recent s.observations, o.event = s.events

theorem Polls.Within.callback (h : s.Within) : (s.callback cfg (some .Close) sample).Within := by
  obtain ⟨o, hobs, hevents, hbefore, hevent, -, heq, hcases⟩ :=
    Polls.callback_cases cfg (some .Close) s sample
  unfold Polls.Within
  rw [hobs, recent_concat, hevents, hbefore]
  obtain ⟨hagrees, -⟩ | ⟨-, hother, -⟩ | ⟨hagrees, -, -, -, hcount, -⟩ := hcases
  · exact .inr (by simp [hagrees])
  · exact absurd rfl hother
  · refine h.imp (fun hle => by omega) fun hrecent => ?_
    rw [if_neg hagrees]
    exact List.forall_mem_cons.mpr ⟨hevent, hrecent⟩

/-- Two listeners in a row that find the lock off "Close" count twice, and the
second one raises an alert that only this change backs. -/
theorem Polls.Within.not_sound {a b : Int × Int} (h : s.Within)
    (ha : cfg.motorStatus 1 a.1 ≠ .Close) (hb : cfg.motorStatus 1 b.1 ≠ .Close) :
    ¬ Lists.Everywhere Sound
      ((s.callback cfg (some .Close) a).callback cfg (some .Close) b).observations := by
  intro hsound
  obtain ⟨o₁, hobs₁, hevents₁, hbefore₁, hevent₁, -, heq₁, hcases₁⟩ :=
    Polls.callback_cases cfg (some .Close) s a
  obtain ⟨o₂, hobs₂, -, -, hevent₂, hbefore₂, -, hcases₂⟩ :=
    Polls.callback_cases cfg (some .Close) (s.callback cfg (some .Close) a) b
  obtain ⟨-, -, -, hfound⟩ | ⟨-, hother, -⟩ | ⟨hagrees₁, -, -, -, hcount₁, -⟩ := hcases₁
  · exact ha (Option.some.inj hfound).symm
  · exact hother rfl
  obtain ⟨-, -, -, hfound⟩ | ⟨-, hother, -⟩ | ⟨-, -, -, -, hcount₂, hraised₂⟩ := hcases₂
  · exact hb (Option.some.inj hfound).symm
  · exact hother rfl
  rw [hobs₂, Lists.everywhere_concat] at hsound
  obtain ⟨-, hgrowth, hjustified⟩ := hsound
  obtain hle | hrecent := h
  · omega
  · obtain ⟨-, o', ho', -, hlt⟩ := hjustified (hraised₂.mpr (by omega))
    rw [hobs₁, recent_concat, if_neg hagrees₁, List.mem_cons] at ho'
    obtain rfl | hold := ho'
    · omega
    · have := hrecent o' hold
      omega

theorem Polls.Within.isChain (h : s.Within)
    (hs : Lists.Everywhere Sound
      (samples.foldl (Polls.callback cfg (some .Close)) s).observations) :
    samples.IsChain fun a b =>
      cfg.motorStatus 1 a.1 = .Close ∨ cfg.motorStatus 1 b.1 = .Close := by
  induction samples generalizing s with
  | nil => exact List.isChain_nil
  | cons a samples ih =>
    refine List.isChain_cons.mpr ⟨fun b hb => ?_, ih h.callback hs⟩
    by_contra hopen
    rw [not_or] at hopen
    obtain ⟨rest, rfl⟩ : ∃ rest, samples = b :: rest := List.head?_eq_some_iff.mp hb
    obtain ⟨new, hnew⟩ := Polls.foldl_observations cfg (some .Close)
      ((s.callback cfg (some .Close) a).callback cfg (some .Close) b) rest
    rw [List.foldl_cons, List.foldl_cons, hnew] at hs
    exact h.not_sound hopen.1 hopen.2 hs.of_append

/-! ## Every run -/

theorem Polls.Backed.step {e : Poll} (h : s.Backed) (hstep : s.step cfg e = some s') :
    s'.Backed := by
  obtain ⟨s₁, snap, samples, rfl, hobs, hevents, -, hcount, -⟩ := Polls.step_cases hstep
  refine Polls.Backed.foldl ⟨by rw [hobs, hcount]; exact h.counted, fun o ho => ?_⟩
  rw [hobs] at ho
  have := h.events o ho
  omega

theorem mem_of_mem_recent (h : o ∈ recent l) : o ∈ l :=
  List.mem_reverse.mp ((List.takeWhile_sublist _).mem h)

/-- One more tick or change is sound exactly if its callbacks are separate. -/
theorem Polls.step_sound_iff {e : Poll} (h : s.Backed) (hstep : s.step cfg e = some s') :
    Lists.Everywhere Sound s'.observations ↔
      Lists.Everywhere Sound s.observations ∧ e.Separate cfg := by
  obtain ⟨s₁, snap, samples, rfl, hobs, hevents, hbefore, hcount, hseparate⟩ :=
    Polls.step_cases hstep
  rw [hseparate]
  constructor
  · intro hsound
    obtain ⟨new, hnew⟩ := Polls.foldl_observations cfg snap s₁ samples
    refine ⟨?_, fun hclose => ?_⟩
    · rw [hnew, hobs] at hsound
      exact hsound.of_append
    · subst hclose
      have hwithin : s₁.Within := .inl (by omega)
      exact hwithin.isChain hsound
  · rintro ⟨hsound, hchain⟩
    have hclear : s₁.Clear := by
      refine ⟨by omega, fun hpos => ?_⟩
      obtain ⟨o, ho, hmismatch⟩ := h.counted (by omega)
      have := h.events o (mem_of_mem_recent ho)
      exact ⟨o, by rw [hobs]; exact ho, hmismatch, by omega⟩
    exact Polls.foldl_sound (fun _ _ => .inr hclear) hchain (by rw [hobs]; exact hsound)

/-- In every run the count grows by at most one in each tick and each change, and
each alert rests on two mismatches of different ticks or changes, exactly if in
every change to "Close" no two callbacks in a row find the lock off "Close". -/
theorem sound_iff_separate {es : List Poll}
    (hrun : Transition.run (Polls.step cfg) Polls.init es = some s) :
    Lists.Everywhere Sound s.observations ↔ ∀ e ∈ es, e.Separate cfg := by
  have hinv : s.Backed ∧ (Lists.Everywhere Sound s.observations ↔ ∀ e ∈ es, e.Separate cfg) := by
    refine Transition.run_induction
      (I := fun es s => s.Backed ∧
        (Lists.Everywhere Sound s.observations ↔ ∀ e ∈ es, e.Separate cfg))
      ?_ (fun es s e s' _ hs hstep => ⟨hs.1.step hstep, ?_⟩) hrun
    · exact ⟨⟨fun h => absurd h (Nat.lt_irrefl 0), by simp [Polls.init]⟩, by simp [Polls.init]⟩
    · rw [Polls.step_sound_iff hs.1 hstep, hs.2]
      simp [or_imp, forall_and]
  exact hinv.2

/-- The lock is wanted closed and shown open by a tick's reading, then again at the next one. -/
def twoTicks : List Poll :=
  [.tick (800, 0), .change (some .Close) [(700, 1000)], .tick (800, 3000), .tick (800, 6000)]

theorem sound_iff_separate_twoTicks :
    ∃ s, Transition.run (Polls.step doorconfig) Polls.init twoTicks = some s ∧
      s.watch.sent.length = 1 ∧
      (Lists.Everywhere Sound s.observations ↔ ∀ e ∈ twoTicks, e.Separate doorconfig) := by
  have hobs : (Transition.run (Polls.step doorconfig) Polls.init twoTicks).map
      (fun s => s.watch.sent.length) = some 1 := rfl
  obtain ⟨s, hrun, hsent⟩ := Option.map_eq_some_iff.mp hobs
  exact ⟨s, hrun, hsent, sound_iff_separate hrun⟩

/-- Two ticks leave two listeners, and one change to "Close" with the lock off
"Close" raises the alert at once. -/
def oneChange : List Poll :=
  [.change (some .Open) [], .tick (960, 3000), .tick (960, 6000),
    .change (some .Close) [(800, 7000), (800, 7000)]]

theorem alert_from_one_change :
    ∃ s, Transition.run (Polls.step doorconfig) Polls.init oneChange = some s ∧
      Notification.thiefAlert 7000 ∈ s.watch.notifications ∧
      ¬ Lists.Everywhere Sound s.observations := by
  have hobs : (Transition.run (Polls.step doorconfig) Polls.init oneChange).map
      (fun s => (s.watch.notifications, s.observations)) =
      some ([.thiefAlert 7000, { Notification.thiefAlert 7000 with popup := "false" }],
        [⟨2, 0, some .Open, .Open, 0, false⟩, ⟨3, 0, some .Open, .Open, 0, false⟩,
          ⟨4, 0, some .Close, .Middle, 1, false⟩, ⟨4, 0, some .Close, .Middle, 2, true⟩]) := rfl
  obtain ⟨s, hrun, hs⟩ := Option.map_eq_some_iff.mp hobs
  obtain ⟨hnot, hseen⟩ := Prod.mk.inj hs
  refine ⟨s, hrun, by simp [hnot], fun hsound => ?_⟩
  rw [hseen] at hsound
  have hlast := (hsound [_, _, _] _ [] rfl).growth
  exact absurd hlast (by decide)

end SmartDoor.BreakDetect
