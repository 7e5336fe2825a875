-- SUMMARY: The knock service: its counter against the grouping of the accepted knocks into bursts.
import Mathlib.Data.List.Induction
import SmartDoor.Base.Lists
import SmartDoor.Notification

/-!
# Knock detection

`scripts/Knockdetect.js` keeps a counter and the time of the last knock. What it
computes can be said without either: the samples are thinned to the accepted
knocks, these fall into bursts, and every third knock of a burst is reported.
The counter is the length of the current burst modulo three, until a sample
shows that the burst has timed out. Before the first knock the time 0, which
`lastKnock` starts with, stands for the knock before.
-/

namespace SmartDoor.Knockdetect

def minThreshold : Int := 200

def maxtimeBetweenKnocks : Int := 6000

def mintimeBetweenKnocks : Int := 200

/-- What one interval reads from the clock and the sensor. -/
structure Sample where
  time : Int
  level : Int
  /-- The reading printed at a knock, and the one printed with a notification. -/
  printed : Int × Int
  /-- The clock at a notification. -/
  stamp : Int
  deriving DecidableEq, Repr

structure Process where
  knockCount : Nat
  lastKnock : Int
  /-- The writes of the child `notification`. -/
  notifications : List Notification
  /-- The commands run. -/
  executed : List String
  /-- What is sent to port 6006. -/
  sent : List String
  console : List String
  deriving DecidableEq, Repr

def Process.init : Process := ⟨0, 0, [], [], [], []⟩

/-- A knock is counted. -/
def Process.took (s : Sample) (p : Process) : Process :=
  let line := "Took " ++ toString p.knockCount ++ "Threshold: " ++ toString s.printed.1
  { p with
    console := p.console ++ [line]
    knockCount := p.knockCount + 1
    lastKnock := s.time }

/-- The third knock. The two busy waits are left out, and so is the second record,
whose write is commented out. -/
def Process.report (s : Sample) (p : Process) : Process :=
  { p with
    knockCount := 0
    console := p.console ++ ["Took Took TookThreshold: " ++ toString s.printed.2]
    executed := p.executed ++
      ["node /home/root/smartdoor/scripts/sendnotification.js " ++
        "\"Took took\" \"someone knocked your door\"",
      "aplay /home/root/smartdoor/scripts/wellcom_transcript.wav"]
    notifications := p.notifications ++ [.knock s.stamp]
    sent := p.sent ++ ["Record"] }

/-- The interval. -/
def Process.tick (p : Process) (s : Sample) : Process :=
  let p := if s.time - p.lastKnock > maxtimeBetweenKnocks then { p with knockCount := 0 } else p
  let p :=
    if s.level > minThreshold ∧ s.time - p.lastKnock > mintimeBetweenKnocks then p.took s else p
  if p.knockCount ≥ 3 then p.report s else p

def run (samples : List Sample) : Process := samples.foldl Process.tick Process.init

/-- The notifications written at the sample `s` after the samples `pre`. -/
def raised (pre : List Sample) (s : Sample) : List Notification :=
  (run (pre ++ [s])).notifications.drop (run pre).notifications.length

/-! ## The specification -/

/-- The time of the last accepted knock; `start` stands for it before the first one. -/
def previous (start : Option Int) (knocks : List Sample) : Option Int :=
  (knocks.getLast?.map Sample.time).or start

/-- The sample is loud, and lies far enough from the last accepted knock. -/
def Knocks (start : Option Int) (knocks : List Sample) (s : Sample) : Prop :=
  s.level > minThreshold ∧ ∀ t ∈ previous start knocks, s.time - t > mintimeBetweenKnocks

instance (start : Option Int) (knocks : List Sample) (s : Sample) :
    Decidable (Knocks start knocks s) := inferInstanceAs (Decidable (_ ∧ _))

/-- The accepted knocks, chosen greedily. -/
def accepted (start : Option Int) (samples : List Sample) : List Sample :=
  samples.foldl (fun knocks s => if Knocks start knocks s then knocks ++ [s] else knocks) []

/-- The knocks belong to one burst. -/
def close (a b : Sample) : Bool := b.time - a.time ≤ maxtimeBetweenKnocks

/-- The sample is the third, sixth, ninth … accepted knock of its burst. -/
def Third (start : Option Int) (pre : List Sample) (s : Sample) : Prop :=
  Knocks start (accepted start pre) s ∧
    3 ∣ (Lists.lastRun close (accepted start (pre ++ [s]))).length

/-- What is asked of the sample `s` after the samples `pre`. -/
structure AsSpecified (start : Option Int) (pre : List Sample) (s : Sample) : Prop where
  raises : Third start pre s → raised pre s = [.knock s.stamp]
  silent : ¬ Third start pre s → raised pre s = []
  /-- Two notifications have no knock in common: the later one has three new ones. -/
  apart : raised pre s ≠ [] → ∀ first k mid, pre = first ++ k :: mid → raised first k ≠ [] →
    (accepted start (first ++ [k])).length + 3 ≤ (accepted start (pre ++ [s])).length

variable {p : Process} {s : Sample} {samples pre : List Sample} {start : Option Int}

/-! ## One more sample -/

theorem run_concat : run (samples ++ [s]) = (run samples).tick s := by
  simp [run]

theorem accepted_concat : accepted start (samples ++ [s]) =
    if Knocks start (accepted start samples) s then accepted start samples ++ [s]
    else accepted start samples := by
  unfold accepted
  rw [List.foldl_append]
  rfl

/-- The count after the check for a time-out. -/
def Process.live (s : Sample) (p : Process) : Nat :=
  if s.time - p.lastKnock > maxtimeBetweenKnocks then 0 else p.knockCount

theorem live_le : p.live s ≤ p.knockCount := by
  unfold Process.live
  split
  · exact Nat.zero_le _
  · exact Nat.le_refl _

theorem timeout_eq :
    (if s.time - p.lastKnock > maxtimeBetweenKnocks then { p with knockCount := 0 } else p) =
      { p with knockCount := p.live s } := by
  unfold Process.live
  split
  · rfl
  · rfl

/-- The two conditions that the source tests for a knock. -/
def Process.Hears (s : Sample) (p : Process) : Prop :=
  s.level > minThreshold ∧ s.time - p.lastKnock > mintimeBetweenKnocks

instance : Decidable (p.Hears s) := inferInstanceAs (Decidable (_ ∧ _))

theorem tick_of_hears (h : p.Hears s) :
    (p.tick s).lastKnock = s.time ∧
    (p.tick s).knockCount = (if p.live s + 1 ≥ 3 then 0 else p.live s + 1) ∧
    (p.tick s).notifications =
      p.notifications ++ if p.live s + 1 ≥ 3 then [.knock s.stamp] else [] := by
  unfold Process.Hears at h
  simp only [Process.tick, timeout_eq, if_pos h, Process.took]
  split
  · exact ⟨rfl, rfl, rfl⟩
  · exact ⟨rfl, rfl, by simp⟩

theorem tick_of_not_hears (hcount : p.knockCount < 3) (h : ¬ p.Hears s) :
    (p.tick s).lastKnock = p.lastKnock ∧ (p.tick s).knockCount = p.live s ∧
    (p.tick s).notifications = p.notifications := by
  unfold Process.Hears at h
  have hle : p.live s ≤ p.knockCount := live_le
  have hlive : ¬ p.live s ≥ 3 := by omega
  simp only [Process.tick, timeout_eq, if_neg h, if_neg hlive]
  exact ⟨trivial, trivial, trivial⟩

/-! ## The counter and the history -/

/-- What the process remembers of the samples. -/
structure Remembers (samples : List Sample) (p : Process) : Prop where
  last : previous (some 0) (accepted (some 0) samples) = some p.lastKnock
  lt : p.knockCount < 3
  count : p.knockCount = (Lists.lastRun close (accepted (some 0) samples)).length % 3 ∨
    p.knockCount = 0 ∧ ∃ a ∈ samples.getLast?, a.time - p.lastKnock > maxtimeBetweenKnocks

theorem Remembers.hears_iff (h : Remembers samples p) :
    p.Hears s ↔ Knocks (some 0) (accepted (some 0) samples) s := by
  unfold Process.Hears Knocks
  rw [h.last]
  simp

theorem Remembers.time_eq (h : Remembers samples p) {k : Sample}
    (hk : k ∈ (accepted (some 0) samples).getLast?) : k.time = p.lastKnock := by
  have hlast := h.last
  rw [previous, Option.mem_def.mp hk] at hlast
  exact Option.some.inj hlast

/-- The time-out of the counter is the gap that begins a new burst. -/
theorem Remembers.length_lastRun (h : Remembers samples p)
    (hle : ∀ a ∈ samples.getLast?, a.time ≤ s.time) :
    (Lists.lastRun close (accepted (some 0) samples ++ [s])).length % 3 = (p.live s + 1) % 3 := by
  by_cases htimeout : s.time - p.lastKnock > maxtimeBetweenKnocks
  · have hlive : p.live s = 0 := if_pos htimeout
    have hrun : Lists.lastRun close (accepted (some 0) samples ++ [s]) = [s] := by
      refine Lists.lastRun_concat_of_not_rel fun k hk => ?_
      simp only [close, h.time_eq hk, decide_eq_false_iff_not]
      omega
    rw [hlive, hrun]
    rfl
  · have hlive : p.live s = p.knockCount := if_neg htimeout
    have hrun : Lists.lastRun close (accepted (some 0) samples ++ [s]) =
        Lists.lastRun close (accepted (some 0) samples) ++ [s] := by
      refine Lists.lastRun_concat_of_rel fun k hk => ?_
      simp only [close, h.time_eq hk, decide_eq_true_eq]
      omega
    obtain hmod | ⟨-, a, ha, hgap⟩ := h.count
    · rw [hlive, hrun, hmod, List.length_append, List.length_singleton, Nat.mod_add_mod]
    · -- the sample before was in time, and time does not go back
      have := hle a ha
      omega

theorem remembers_nil : Remembers [] (run []) :=
  ⟨rfl, Nat.zero_lt_succ 2, .inl rfl⟩

theorem Remembers.tick (h : Remembers samples p)
    (hle : ∀ a ∈ samples.getLast?, a.time ≤ s.time) :
    Remembers (samples ++ [s]) (p.tick s) := by
  have hlt := h.lt
  have hlive : p.live s ≤ p.knockCount := live_le
  by_cases hhears : p.Hears s
  · obtain ⟨hlast, hcount, -⟩ := tick_of_hears hhears
    have hlen := h.length_lastRun hle
    have hacc : accepted (some 0) (samples ++ [s]) = accepted (some 0) samples ++ [s] := by
      rw [accepted_concat, if_pos (h.hears_iff.mp hhears)]
    refine ⟨?_, ?_, .inl ?_⟩
    · rw [hacc, previous, List.getLast?_concat, hlast]
      rfl
    · rw [hcount]
      split
      · exact Nat.zero_lt_succ 2
      · omega
    · rw [hacc, hcount, hlen]
      split
      · omega
      · omega
  · obtain ⟨hlast, hcount, -⟩ := tick_of_not_hears hlt hhears
    have hacc : accepted (some 0) (samples ++ [s]) = accepted (some 0) samples := by
      rw [accepted_concat, if_neg (fun hk => hhears (h.hears_iff.mpr hk))]
    refine ⟨by rw [hacc, hlast]; exact h.last, by omega, ?_⟩
    rw [hacc, hcount, hlast, List.getLast?_concat]
    by_cases htimeout : s.time - p.lastKnock > maxtimeBetweenKnocks
    · exact .inr ⟨if_pos htimeout, s, rfl, htimeout⟩
    · have hsame : p.live s = p.knockCount := if_neg htimeout
      rw [hsame]
      obtain hmod | ⟨-, a, ha, hgap⟩ := h.count
      · exact .inl hmod
      · have := hle a ha
        omega

theorem pairwise_concat (h : (samples ++ [s]).Pairwise fun a b => a.time ≤ b.time) :
    (samples.Pairwise fun a b => a.time ≤ b.time) ∧ ∀ a ∈ samples.getLast?, a.time ≤ s.time := by
  obtain ⟨hinit, -, hlast⟩ := List.pairwise_append.mp h
  exact ⟨hinit, fun a ha => hlast a (List.mem_of_getLast? ha) s (by simp)⟩

theorem remembers_run (h : samples.Pairwise fun a b => a.time ≤ b.time) :
    Remembers samples (run samples) := by
  induction samples using List.reverseRecOn with
  | nil => exact remembers_nil
  | append_singleton samples s ih =>
    obtain ⟨hinit, hlast⟩ := pairwise_concat h
    rw [run_concat]
    exact (ih hinit).tick hlast

/-! ## Notifications -/

/-- A sample raises a notification exactly if it completes three counted knocks. -/
theorem raised_eq (h : Remembers pre (run pre)) :
    raised pre s =
      if (run pre).Hears s ∧ (run pre).live s + 1 ≥ 3 then [.knock s.stamp] else [] := by
  unfold raised
  rw [run_concat]
  by_cases hhears : (run pre).Hears s
  · rw [(tick_of_hears hhears).2.2, List.drop_left]
    simp [hhears]
  · rw [(tick_of_not_hears h.lt hhears).2.2, List.drop_length]
    simp [hhears]

theorem third_iff (h : Remembers pre (run pre)) (hle : ∀ a ∈ pre.getLast?, a.time ≤ s.time) :
    Third (some 0) pre s ↔ (run pre).Hears s ∧ (run pre).live s + 1 ≥ 3 := by
  unfold Third
  rw [← h.hears_iff]
  refine and_congr_right fun hhears => ?_
  have hlen := h.length_lastRun hle
  have hlt := h.lt
  have hlive : (run pre).live s ≤ (run pre).knockCount := live_le
  rw [accepted_concat, if_pos (h.hears_iff.mp hhears)]
  omega

/-- The count grows by the accepted knocks at most. -/
theorem knockCount_le {m : List Sample}
    (h : (samples ++ m).Pairwise fun a b => a.time ≤ b.time) :
    (run (samples ++ m)).knockCount + (accepted (some 0) samples).length ≤
      (run samples).knockCount + (accepted (some 0) (samples ++ m)).length := by
  induction m using List.reverseRecOn with
  | nil => simp
  | append_singleton m s ih =>
    rw [← List.append_assoc] at h ⊢
    have hprev := ih (pairwise_concat h).1
    have hrem := remembers_run (pairwise_concat h).1
    have hlive : (run (samples ++ m)).live s ≤ (run (samples ++ m)).knockCount := live_le
    rw [run_concat, accepted_concat]
    by_cases hhears : (run (samples ++ m)).Hears s
    · rw [if_pos (hrem.hears_iff.mp hhears), (tick_of_hears hhears).2.1]
      simp only [List.length_append, List.length_singleton] at hprev ⊢
      split
      · omega
      · omega
    · rw [if_neg (fun hk => hhears (hrem.hears_iff.mpr hk)),
        (tick_of_not_hears hrem.lt hhears).2.1]
      omega

theorem apart_of_raised {first mid : List Sample} {k : Sample}
    (h : (first ++ k :: mid ++ [s]).Pairwise fun a b => a.time ≤ b.time)
    (hk : raised first k ≠ []) (hs : raised (first ++ k :: mid) s ≠ []) :
    (accepted (some 0) (first ++ [k])).length + 3 ≤
      (accepted (some 0) (first ++ k :: mid ++ [s])).length := by
  have hsplit : first ++ k :: mid = first ++ [k] ++ mid := by simp
  rw [hsplit] at h hs ⊢
  have hpre := (pairwise_concat h).1
  have hfirstk := (List.pairwise_append.mp hpre).1
  have hrem := remembers_run hpre
  have hremk := remembers_run (pairwise_concat hfirstk).1
  rw [raised_eq hremk] at hk
  rw [raised_eq hrem] at hs
  obtain ⟨hhearsk, hlivek⟩ : (run first).Hears k ∧ (run first).live k + 1 ≥ 3 := by
    by_contra hnot
    exact hk (if_neg hnot)
  obtain ⟨hhears, hcount⟩ :
      (run (first ++ [k] ++ mid)).Hears s ∧ (run (first ++ [k] ++ mid)).live s + 1 ≥ 3 := by
    by_contra hnot
    exact hs (if_neg hnot)
  have hzero : (run (first ++ [k])).knockCount = 0 := by
    rw [run_concat, (tick_of_hears hhearsk).2.1, if_pos hlivek]
  have hle := knockCount_le hpre
  have hlive : (run (first ++ [k] ++ mid)).live s ≤ (run (first ++ [k] ++ mid)).knockCount :=
    live_le
  have hacc : accepted (some 0) (first ++ [k] ++ mid ++ [s]) =
      accepted (some 0) (first ++ [k] ++ mid) ++ [s] := by
    rw [accepted_concat, if_pos (hrem.hears_iff.mp hhears)]
  rw [hacc, List.length_append, List.length_singleton]
  omega

theorem asSpecified (h : (pre ++ [s]).Pairwise fun a b => a.time ≤ b.time) :
    AsSpecified (some 0) pre s := by
  obtain ⟨hpre, hlast⟩ := pairwise_concat h
  have hrem := remembers_run hpre
  refine ⟨fun hthird => ?_, fun hthird => ?_, ?_⟩
  · rw [raised_eq hrem, if_pos ((third_iff hrem hlast).mp hthird)]
  · rw [raised_eq hrem, if_neg (fun hs => hthird ((third_iff hrem hlast).mpr hs))]
  · rintro hs first k mid rfl hk
    exact apart_of_raised h hk hs

/-! ## After the first 200 ms -/

/-- Far enough from the time 0, nothing need stand for the knock before the first. -/
theorem knocks_none_iff {knocks : List Sample} (h : mintimeBetweenKnocks < s.time) :
    Knocks none knocks s ↔ Knocks (some 0) knocks s := by
  unfold Knocks previous
  cases knocks.getLast? with
  | none =>
    refine and_congr_right fun _ => ⟨fun _ t ht => ?_, fun _ t ht => by cases ht⟩
    obtain rfl : 0 = t := Option.some.inj ht
    omega
  | some k => rfl

theorem accepted_none_eq (h : ∀ s ∈ samples, mintimeBetweenKnocks < s.time) :
    accepted none samples = accepted (some 0) samples := by
  induction samples using List.reverseRecOn with
  | nil => rfl
  | append_singleton samples s ih =>
    obtain ⟨hinit, hs⟩ := List.forall_mem_append.mp h
    rw [accepted_concat, accepted_concat, ih hinit]
    simp only [knocks_none_iff (hs s (List.mem_singleton_self s))]

theorem AsSpecified.of_zero (h : AsSpecified (some 0) pre s)
    (htimes : ∀ a ∈ pre ++ [s], mintimeBetweenKnocks < a.time) : AsSpecified none pre s := by
  obtain ⟨hpre, hs⟩ := List.forall_mem_append.mp htimes
  have hthird : Third none pre s ↔ Third (some 0) pre s := by
    unfold Third
    rw [accepted_none_eq htimes, accepted_none_eq hpre,
      knocks_none_iff (hs s (List.mem_singleton_self s))]
  refine ⟨fun ht => h.raises (hthird.mp ht), fun ht => h.silent (fun h0 => ht (hthird.mpr h0)), ?_⟩
  rintro hraised first k mid rfl hk
  obtain ⟨hfirst, hk', -⟩ : (∀ a ∈ first, mintimeBetweenKnocks < a.time) ∧
      mintimeBetweenKnocks < k.time ∧ ∀ a ∈ mid, mintimeBetweenKnocks < a.time := by
    simpa using List.forall_mem_append.mp hpre
  have hfirstk : ∀ a ∈ first ++ [k], mintimeBetweenKnocks < a.time :=
    List.forall_mem_append.mpr ⟨hfirst, by simpa using hk'⟩
  rw [accepted_none_eq htimes, accepted_none_eq hfirstk]
  exact h.apart hraised first k mid rfl hk

/-! ## Every sequence of samples -/

/-- For non-decreasing times the service reports the third, sixth, ninth … accepted
knock of each burst and nothing else, where the time 0 stands for a knock before
the first one; with all times beyond the first 200 ms no such knock is needed. -/
theorem reports_every_third_knock (h : samples.Pairwise fun a b => a.time ≤ b.time) :
    Lists.Everywhere (AsSpecified (some 0)) samples ∧
    ((∀ s ∈ samples, mintimeBetweenKnocks < s.time) →
      Lists.Everywhere (AsSpecified none) samples) := by
  have hzero : Lists.Everywhere (AsSpecified (some 0)) samples := by
    rintro pre s post rfl
    rw [List.append_cons] at h
    exact asSpecified (List.pairwise_append.mp h).1
  refine ⟨hzero, ?_⟩
  rintro htimes pre s post rfl
  refine (hzero pre s post rfl).of_zero fun a ha => htimes a ?_
  rw [List.append_cons]
  exact List.mem_append_left post ha

/-- A sample whose readings all agree. -/
def Sample.steady (time level : Int) : Sample := ⟨time, level, (level, level), time⟩

/-- Seven knocks with an echo and a quiet sample between them, in two bursts. -/
def twoBursts : List Sample :=
  [.steady 1000 300, .steady 1100 300, .steady 1300 300, .steady 1400 0, .steady 1600 300,
    .steady 1900 300, .steady 9000 300, .steady 9300 300, .steady 15300 300]

theorem reports_every_third_knock_twoBursts :
    (run twoBursts).notifications = [.knock 1600, .knock 15300] ∧
    Lists.Everywhere (AsSpecified (some 0)) twoBursts ∧
    Lists.Everywhere (AsSpecified none) twoBursts := by
  have hsorted : twoBursts.Pairwise fun a b => a.time ≤ b.time := by decide
  have h := reports_every_third_knock hsorted
  exact ⟨by decide +kernel, h.1, h.2 (by decide)⟩

/-- Three loud samples of one burst, the first of them at 100 ms after the epoch. -/
def earlyKnock : List Sample := [.steady 100 300, .steady 400 300, .steady 700 300]

/-- The first of them is not counted: it is too close to the initial `lastKnock`. -/
theorem third_of_earlyKnock_not_reported :
    (earlyKnock.Pairwise fun a b => a.time ≤ b.time) ∧
    ¬ Lists.Everywhere (AsSpecified none) earlyKnock := by
  refine ⟨by decide, fun h => ?_⟩
  have hthird : Third none [.steady 100 300, .steady 400 300] (.steady 700 300) :=
    ⟨by decide, ⟨1, rfl⟩⟩
  have hraised := (h [_, _] _ [] rfl).raises hthird
  have hnone : raised [.steady 100 300, .steady 400 300] (.steady 700 300) = [] := by
    decide +kernel
  rw [hnone] at hraised
  cases hraised

end SmartDoor.Knockdetect
