-- SUMMARY: The smoke service: the counter of detections, and what is written to `smokedetect` at each tick.
import Mathlib.Data.List.Induction
import SmartDoor.Base.Lists

/-!
# Smoke detection

`scripts/SmokeDetect.js` samples the sensor at every tick and counts detections
until a clean sample. The counter follows the samples as it should, but only the
line on the console depends on it: the `if` on `Smokecount` has no braces, and
"Detected" is written at every detection.
-/

namespace SmartDoor.SmokeDetect

/-- One call of `SmokeDetect` reads the pin twice: for the console, then for the test. -/
structure Sample where
  printed : Int
  tested : Int
  deriving DecidableEq, Repr

/-- The two calls of one tick. -/
structure Tick where
  first : Sample
  second : Sample
  deriving DecidableEq, Repr

/-- What is written to the child `smokedetect`. -/
inductive Status where
  | Detected
  | Clean
  deriving DecidableEq, Repr

structure Process where
  smokecount : Nat
  /-- The writes of the child `smokedetect`, oldest first. -/
  smokedetect : List Status
  /-- The lines on the console. -/
  console : List String
  deriving DecidableEq, Repr

def Process.init : Process := ⟨0, [], []⟩

def Process.print (line : String) (p : Process) : Process :=
  { p with console := p.console ++ [line] }

def Process.set (status : Status) (p : Process) : Process :=
  { p with smokedetect := p.smokedetect ++ [status] }

/-- The function `SmokeDetect`; `SmokeThresh` is `thresh`. -/
def smokeDetect (thresh : Int) (sample : Sample) (p : Process) : Nat × Process :=
  let p := p.print (toString sample.printed)
  if sample.tested > thresh then (1, p) else (0, p)

/-- The branch of a detection. -/
def Process.detected (p : Process) : Process :=
  let p := { p with smokecount := p.smokecount + 1 }
  let p := p.print ("Detected smoke number: " ++ toString p.smokecount)
  let p := if p.smokecount ≥ 3 then p.print "Detected smoke updating!" else p
  -- outside the `if` on the count, whatever the indentation says
  p.set .Detected

/-- The interval. -/
def Process.tick (thresh : Int) (p : Process) (t : Tick) : Process :=
  let (first, p) := smokeDetect thresh t.first p
  let p := if first = 1 then p.detected else p
  let (second, p) := smokeDetect thresh t.second p
  if second = 0 then Process.set .Clean { p with smokecount := 0 } else p

def run (thresh : Int) (ticks : List Tick) : Process :=
  ticks.foldl (Process.tick thresh) Process.init

/-! ## What a report should rest on -/

variable {thresh : Int} {p : Process} {t : Tick} {pre ticks : List Tick}

def Tick.Detects (thresh : Int) (t : Tick) : Prop := t.first.tested > thresh

/-- The second sample of the tick shows no smoke. -/
def Tick.IsClean (thresh : Int) (t : Tick) : Prop := t.second.tested ≤ thresh

instance : DecidablePred (Tick.Detects thresh) := fun _ => inferInstanceAs (Decidable (_ < _))

instance : DecidablePred (Tick.IsClean thresh) := fun _ => inferInstanceAs (Decidable (_ ≤ _))

/-- What the tick `t` writes after the ticks `pre`. -/
def written (thresh : Int) (pre : List Tick) (t : Tick) : List Status :=
  (run thresh (pre ++ [t])).smokedetect.drop (run thresh pre).smokedetect.length

/-- "Detected" is written only at the third of three detecting ticks in a row with
no clean tick in between, and no tick writes both values. -/
def Debounced (thresh : Int) (pre : List Tick) (t : Tick) : Prop :=
  (.Detected ∈ written thresh pre t → t.Detects thresh ∧ ∃ rest a b, pre = rest ++ [a, b] ∧
    (a.Detects thresh ∧ ¬ a.IsClean thresh) ∧ b.Detects thresh ∧ ¬ b.IsClean thresh) ∧
  ¬ (.Detected ∈ written thresh pre t ∧ .Clean ∈ written thresh pre t)

/-! ## What a tick does -/

@[simp] theorem print_smokecount {line : String} : (p.print line).smokecount = p.smokecount := rfl

@[simp] theorem print_smokedetect {line : String} :
    (p.print line).smokedetect = p.smokedetect := rfl

@[simp] theorem set_smokecount {status : Status} : (p.set status).smokecount = p.smokecount := rfl

@[simp] theorem set_smokedetect {status : Status} :
    (p.set status).smokedetect = p.smokedetect ++ [status] := rfl

@[simp] theorem smokeDetect_snd {sample : Sample} :
    (smokeDetect thresh sample p).2 = p.print (toString sample.printed) := by
  unfold smokeDetect
  split
  · rfl
  · rfl

theorem smokeDetect_eq_one : (smokeDetect thresh t.first p).1 = 1 ↔ t.Detects thresh := by
  unfold smokeDetect Tick.Detects
  split
  case isTrue h => simpa using h
  case isFalse h => simpa using h

theorem smokeDetect_eq_zero : (smokeDetect thresh t.second p).1 = 0 ↔ t.IsClean thresh := by
  unfold smokeDetect Tick.IsClean
  split
  case isTrue h => simpa using h
  case isFalse h => simpa using h

@[simp] theorem detected_smokecount : p.detected.smokecount = p.smokecount + 1 := by
  unfold Process.detected
  dsimp only
  split
  · rfl
  · rfl

/-- "Detected" is written whatever the count is. -/
@[simp] theorem detected_smokedetect : p.detected.smokedetect = p.smokedetect ++ [.Detected] := by
  unfold Process.detected
  dsimp only
  split
  · rfl
  · rfl

theorem tick_smokecount : (p.tick thresh t).smokecount =
    if t.IsClean thresh then 0
    else if t.Detects thresh then p.smokecount + 1 else p.smokecount := by
  simp only [Process.tick, smokeDetect_eq_one, smokeDetect_eq_zero, smokeDetect_snd]
  split
  · rfl
  · split
    · simp
    · simp

theorem tick_smokedetect : (p.tick thresh t).smokedetect = p.smokedetect ++
    ((if t.Detects thresh then [.Detected] else []) ++
      if t.IsClean thresh then [.Clean] else []) := by
  simp only [Process.tick, smokeDetect_eq_one, smokeDetect_eq_zero, smokeDetect_snd]
  by_cases hdetects : t.Detects thresh
  · by_cases hclean : t.IsClean thresh
    · simp [hdetects, hclean]
    · simp [hdetects, hclean]
  · by_cases hclean : t.IsClean thresh
    · simp [hdetects, hclean]
    · simp [hdetects, hclean]

/-! ## Every run -/

theorem run_concat : run thresh (ticks ++ [t]) = (run thresh ticks).tick thresh t := by
  simp [run]

/-- The count is right: it is the number of detecting ticks since the last clean one. -/
theorem smokecount_run : (run thresh ticks).smokecount =
    (ticks.reverse.takeWhile fun t => ¬ t.IsClean thresh).countP fun t => t.Detects thresh := by
  induction ticks using List.reverseRecOn with
  | nil => rfl
  | append_singleton ticks t ih =>
    rw [run_concat, tick_smokecount, List.reverse_concat, List.takeWhile_cons]
    by_cases hclean : t.IsClean thresh
    · simp [hclean]
    · by_cases hdetects : t.Detects thresh
      · simp [hclean, hdetects, ih]
      · simp [hclean, hdetects, ih]

/-- What a tick writes depends on its own two samples only. -/
theorem written_eq : written thresh pre t =
    (if t.Detects thresh then [.Detected] else []) ++
      if t.IsClean thresh then [.Clean] else [] := by
  unfold written
  rw [run_concat, tick_smokedetect, List.drop_left]

theorem detected_mem_written : .Detected ∈ written thresh pre t ↔ t.Detects thresh := by
  rw [written_eq]
  split
  case isTrue h => simp [h]
  case isFalse h =>
    split
    · simp [h]
    · simp [h]

/-- A run without a detection keeps what is asked of its reports, and so does no
other one: the first detection is reported at once. -/
theorem debounced_iff_forall_not_detects :
    Lists.Everywhere (Debounced thresh) ticks ↔ ∀ t ∈ ticks, t.first.tested ≤ thresh := by
  induction ticks using List.reverseRecOn with
  | nil => simp
  | append_singleton ticks t ih =>
    rw [Lists.everywhere_concat, ih, List.forall_mem_append, List.forall_mem_singleton]
    refine and_congr_right fun hquiet => ⟨fun h => ?_, fun hle => ?_⟩
    · by_contra hdetects
      rw [Int.not_le] at hdetects
      obtain ⟨-, rest, a, b, rfl, -, hb, -⟩ := h.1 (detected_mem_written.mpr hdetects)
      exact absurd hb (Int.not_lt.mpr (hquiet b (by simp)))
    · have hnot : .Detected ∉ written thresh ticks t :=
        fun h => Int.not_lt.mpr hle (detected_mem_written.mp h)
      exact ⟨fun h => absurd h hnot, fun h => hnot h.1⟩

/-- One sample above the threshold of 450, between two clean ticks, is reported,
and with a clean second sample the same tick takes the report back. -/
theorem detected_at_once :
    ¬ Lists.Everywhere (Debounced 450)
      [⟨⟨100, 100⟩, ⟨100, 100⟩⟩, ⟨⟨449, 451⟩, ⟨450, 450⟩⟩, ⟨⟨100, 100⟩, ⟨100, 100⟩⟩] := by
  intro h
  have hmem : .Detected ∈ written 450 [⟨⟨100, 100⟩, ⟨100, 100⟩⟩] ⟨⟨449, 451⟩, ⟨450, 450⟩⟩ :=
    detected_mem_written.mpr (by decide)
  obtain ⟨-, rest, a, b, hpre, -⟩ := (h [_] _ [_] rfl).1 hmem
  have hlen := congrArg List.length hpre
  simp at hlen

end SmartDoor.SmokeDetect
