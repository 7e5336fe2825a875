-- SUMMARY: What BreakDetect's popup "false" write replaces, among the writes of all producers of the notification record.
import SmartDoor.Base.Registers
import SmartDoor.Base.Transition
import SmartDoor.Notification

/-!
# Clearing a thief alert

Four processes write the child `notification` of a door. BreakDetect writes its
alert, waits ten seconds, and writes the same record with `popup` off, whatever
the child holds by then. The other producers write once and clear nothing: the
code that did so is commented out in all of them.
-/

namespace SmartDoor.BreakDetect

open Registers Lists

/-! ## The shared record -/

/-- The processes that write the record. -/
inductive Producer where
  | online
  | knockdetect
  | speechrecognition
  | breakDetect
  deriving DecidableEq, Repr

/-- What the other producers report. -/
inductive Report where
  | emergency
  | alarmOff
  | knock
  | recorded (results : String)
  deriving DecidableEq, Repr

def Report.producer : Report → Producer
  | .emergency | .alarmOff => .online
  | .knock => .knockdetect
  | .recorded _ => .speechrecognition

/-- The record written at the time `now`. -/
def Report.record (now : Int) : Report → Notification
  | .emergency => .emergency
  | .alarmOff => .alarmOff
  | .knock => .knock now
  | .recorded results => .recorded now results

/-- Where BreakDetect's callback stands. -/
inductive Stage where
  | idle
  /-- The alert has been written at the time `since`. -/
  | alerted (alert : Notification) (since : Int)
  /-- The popup has been switched off at the time `since`. -/
  | resting (since : Int)
  deriving DecidableEq, Repr

/-- The child `notification`, the writes on their way to it, and BreakDetect. -/
structure Node where
  store : Store Producer Unit Notification
  now : Int
  stage : Stage
  deriving DecidableEq, Repr

inductive NodeAction where
  | report (r : Report)
  /-- BreakDetect's callback decides to alert. -/
  | raise
  /-- Its first busy wait ends, or its second one. -/
  | clear
  | rest
  | wait (ms : Nat)
  /-- The `i`th write on its way reaches the server. -/
  | land (i : Nat)
  deriving DecidableEq, Repr

namespace Node

def init : Node := ⟨⟨[], []⟩, 0, .idle⟩

def set (producer : Producer) (record : Notification) (s : Node) : Node :=
  let stamp := s.store.hist.length + s.store.flight.length
  { s with store := s.store.issue ⟨producer, (), record, stamp⟩ }

def step (s : Node) : NodeAction → Option Node
  | .report r => some (s.set r.producer (r.record s.now))
  | .raise =>
    match s.stage with
    | .idle =>
      let notification := Notification.thiefAlert s.now
      some { s.set .breakDetect notification with stage := .alerted notification s.now }
    | _ => none
  | .clear =>
    match s.stage with
    | .alerted notification since =>
      if since + 10000 ≤ s.now then
        some { s.set .breakDetect { notification with popup := "false" } with
          stage := .resting s.now }
      else none
    | _ => none
  | .rest =>
    match s.stage with
    | .resting since => if since + 60000 ≤ s.now then some { s with stage := .idle } else none
    | _ => none
  | .wait ms => some { s with now := s.now + ms }
  | .land i => (s.store.land i).map fun store => { s with store }

/-- What a step from `s` does: the action with what it found, and the state after it. -/
inductive Move (s : Node) : NodeAction → Node → Prop where
  | report (r : Report) : s.Move (.report r) (s.set r.producer (r.record s.now))
  | raise (hidle : s.stage = .idle) :
    s.Move .raise { s.set .breakDetect (Notification.thiefAlert s.now) with
      stage := .alerted (Notification.thiefAlert s.now) s.now }
  | clear {alert : Notification} {since : Int} (halerted : s.stage = .alerted alert since) :
    s.Move .clear { s.set .breakDetect { alert with popup := "false" } with
      stage := .resting s.now }
  | rest {since : Int} (hresting : s.stage = .resting since) : s.Move .rest { s with stage := .idle }
  | wait (ms : Nat) : s.Move (.wait ms) { s with now := s.now + ms }
  | land {i : Nat} {store : Store Producer Unit Notification} (hland : s.store.land i = some store) :
    s.Move (.land i) { s with store }

theorem move_of_step {s s' : Node} {a : NodeAction} (ha : s.step a = some s') : s.Move a s' := by
  cases a with
  | report r =>
    obtain rfl := Option.some.inj ha
    exact .report r
  | raise =>
    simp only [step] at ha
    split at ha
    case h_2 => cases ha
    case h_1 hidle =>
      obtain rfl := Option.some.inj ha
      exact .raise hidle
  | clear =>
    simp only [step] at ha
    split at ha
    case h_2 => cases ha
    case h_1 alert since halerted =>
      split at ha
      case isFalse => cases ha
      case isTrue =>
        obtain rfl := Option.some.inj ha
        exact .clear halerted
  | rest =>
    simp only [step] at ha
    split at ha
    case h_2 => cases ha
    case h_1 since hresting =>
      split at ha
      case isFalse => cases ha
      case isTrue =>
        obtain rfl := Option.some.inj ha
        exact .rest hresting
  | wait ms =>
    obtain rfl := Option.some.inj ha
    exact .wait ms
  | land i =>
    obtain ⟨store, hland, rfl⟩ := Option.map_eq_some_iff.mp ha
    exact .land hland

end Node

/-! ## What a clearing write replaces -/

abbrev History := List (Write Producer Unit Notification)

/-- The records of BreakDetect that have reached the server. -/
def landed (hist : History) : List Notification :=
  (hist.filter (·.author = .breakDetect)).map (·.value)

/-- BreakDetect's last record at the server is an alert. -/
def Uncleared (hist : History) : Prop :=
  ∃ alert ∈ (landed hist).getLast?, alert.popup = "true"

/-- If the write switches BreakDetect's popup off, the record it replaces is the
alert that BreakDetect has written itself. -/
def ReplacesOwn (pre : History) (w : Write Producer Unit Notification) : Prop :=
  w.author = .breakDetect → w.value.popup = "false" →
    ∃ u ∈ pre.getLast?, u.author = .breakDetect ∧ u.value.popup = "true" ∧
      w.value = { u.value with popup := "false" }

/-- Every write of BreakDetect that switches a popup off replaces its own alert. -/
def ClearsOwn (hist : History) : Prop := Everywhere ReplacesOwn hist

/-- No write of another producer reaches the server while an alert is there that
BreakDetect has not cleared. -/
def Undisturbed (s : Node) (a : NodeAction) : Prop :=
  ∀ i, a = .land i → ∀ w ∈ s.store.flight[i]?, w.author ≠ .breakDetect → ¬ Uncleared s.store.hist

/-! ## BreakDetect's own writes -/

/-- Alerts and clearing writes in turn; the last alert, if it is not cleared. -/
inductive Alternates : List Notification → Option Notification → Prop
  | nil : Alternates [] none
  | raise {l : List Notification} {alert : Notification} (h : Alternates l none)
      (hpopup : alert.popup = "true") : Alternates (l ++ [alert]) (some alert)
  | clear {l : List Notification} {alert : Notification} (h : Alternates l (some alert)) :
      Alternates (l ++ [{ alert with popup := "false" }]) none

variable {l m : List Notification} {alert n : Notification} {o : Option Notification}

theorem Alternates.getLast? (h : Alternates l (some alert)) :
    l.getLast? = some alert ∧ alert.popup = "true" := by
  cases h with
  | raise h hpopup => exact ⟨by simp, hpopup⟩

theorem Alternates.not_popup (h : Alternates l none) : ∀ n ∈ l.getLast?, n.popup ≠ "true" := by
  cases h with
  | nil => simp
  | clear h => simp

theorem Alternates.of_append (h : Alternates (l ++ m) o) : ∃ o', Alternates l o' := by
  induction m using List.reverseRecOn generalizing o with
  | nil => exact ⟨o, by simpa using h⟩
  | append_singleton m n ih =>
    rw [← List.append_assoc] at h
    generalize hk : l ++ m ++ [n] = k at h
    cases h with
    | nil => simp at hk
    | raise h hpopup =>
      rw [(List.append_inj' hk rfl).1.symm] at h
      exact ih h
    | clear h =>
      rw [(List.append_inj' hk rfl).1.symm] at h
      exact ih h

/-- The record behind an alternating list is the next one in turn. -/
theorem Alternates.concat_cases (h : Alternates (l ++ [n]) o) :
    (Alternates l none ∧ n.popup = "true") ∨
      ∃ alert, Alternates l (some alert) ∧ n = { alert with popup := "false" } := by
  generalize hk : l ++ [n] = k at h
  cases h with
  | nil => simp at hk
  | raise h hpopup =>
    obtain ⟨rfl, hn⟩ := List.append_inj' hk rfl
    obtain rfl := List.singleton_inj.mp hn
    exact .inl ⟨h, hpopup⟩
  | clear h =>
    obtain ⟨rfl, hn⟩ := List.append_inj' hk rfl
    exact .inr ⟨_, h, List.singleton_inj.mp hn⟩

/-- The writes of BreakDetect alternate, and its stage says whether an alert is
still to be cleared. -/
def Clearing (s : Node) : Prop :=
  ∃ o, Alternates ((s.store.view .breakDetect 0).map (·.value)) o ∧
    match s.stage with
    | .alerted alert _ => o = some alert
    | _ => o = none

theorem Clearing.set {s : Node} (h : Clearing s) {producer : Producer} {record : Notification}
    (hne : producer ≠ .breakDetect) : Clearing (s.set producer record) := by
  obtain ⟨o, ho, hstage⟩ := h
  refine ⟨o, ?_, hstage⟩
  rw [Node.set, Store.view_issue_other hne]
  exact ho

theorem Clearing.step {s s' : Node} {a : NodeAction} (h : Clearing s) (ha : s.step a = some s') :
    Clearing s' := by
  obtain ⟨o, ho, hstage⟩ := h
  cases Node.move_of_step ha with
  | report r => exact Clearing.set ⟨o, ho, hstage⟩ (by cases r <;> simp [Report.producer])
  | raise hidle =>
    rw [hidle] at hstage
    subst hstage
    refine ⟨some _, ?_, rfl⟩
    rw [Node.set, Store.view_issue_self rfl, List.map_append]
    exact .raise ho rfl
  | clear halerted =>
    rw [halerted] at hstage
    subst hstage
    refine ⟨none, ?_, rfl⟩
    rw [Node.set, Store.view_issue_self rfl, List.map_append]
    exact .clear ho
  | rest hresting =>
    rw [hresting] at hstage
    exact ⟨o, ho, hstage⟩
  | wait ms => exact ⟨o, ho, hstage⟩
  | land hland =>
    refine ⟨o, ?_, hstage⟩
    rw [Store.view_land hland (Nat.zero_le _)]
    exact ho

theorem Clearing.landed {s : Node} (h : Clearing s) : ∃ o, Alternates (landed s.store.hist) o := by
  obtain ⟨o, ho, -⟩ := h
  simp only [Store.view, Store.pending, List.take_zero, List.drop_zero, List.nil_append,
    List.filter_append, List.map_append] at ho
  exact ho.of_append

/-! ## One arrival -/

variable {hist : History} {w : Write Producer Unit Notification}

theorem landed_concat (hw : w.author = .breakDetect) :
    landed (hist ++ [w]) = landed hist ++ [w.value] := by
  simp [landed, hw]

theorem landed_concat_of_ne (hw : w.author ≠ .breakDetect) :
    landed (hist ++ [w]) = landed hist := by
  simp [landed, hw]

theorem uncleared_iff (h : Alternates (landed hist) o) : Uncleared hist ↔ o.isSome := by
  unfold Uncleared
  cases o with
  | none =>
    have hnot := h.not_popup
    simp only [Option.isSome_none, Bool.false_eq_true, iff_false]
    rintro ⟨n, hn, hpopup⟩
    exact hnot n hn hpopup
  | some alert =>
    obtain ⟨hlast, hpopup⟩ := h.getLast?
    simp [hlast, hpopup]

/-- What a run says about the arrivals so far. Either no write came between an
alert and its clearing write, and each of the latter replaced its alert; or one
did, and then a clearing write replaced another record, or is about to. -/
def Followed (met : Prop) (hist : History) : Prop :=
  (met ∧ ClearsOwn hist ∧ (Uncleared hist → ∃ u ∈ hist.getLast?, u.author = .breakDetect)) ∨
  (¬ met ∧ (¬ ClearsOwn hist ∨
    Uncleared hist ∧ ∃ u ∈ hist.getLast?, u.author ≠ .breakDetect))

/-- A write of another producer arrives. -/
theorem Followed.other {met : Prop} (h : Followed met hist) (hw : w.author ≠ .breakDetect) :
    Followed (met ∧ ¬ Uncleared hist) (hist ++ [w]) := by
  have hclears : ClearsOwn (hist ++ [w]) ↔ ClearsOwn hist := by
    rw [ClearsOwn, everywhere_concat, and_iff_left]
    · rfl
    · exact fun hself => absurd hself hw
  have huncleared : Uncleared (hist ++ [w]) ↔ Uncleared hist := by
    rw [Uncleared, landed_concat_of_ne hw]
    rfl
  unfold Followed
  rw [hclears, huncleared]
  by_cases hopen : Uncleared hist
  · exact .inr ⟨fun hmet => hmet.2 hopen, .inr ⟨hopen, w, by simp, hw⟩⟩
  · obtain ⟨hmet, hown, -⟩ | ⟨hnot, hlost⟩ := h
    · exact .inl ⟨⟨hmet, hopen⟩, hown, fun h => absurd h hopen⟩
    · exact .inr ⟨fun hmet => hnot hmet.1, .inl (hlost.resolve_right fun h => hopen h.1)⟩

/-- An alert of BreakDetect arrives. -/
theorem Followed.raise {met : Prop} (h : Followed met hist) (hw : w.author = .breakDetect)
    (hlanded : Alternates (landed hist) none) (hpopup : w.value.popup = "true") :
    Followed met (hist ++ [w]) := by
  have hclears : ClearsOwn (hist ++ [w]) ↔ ClearsOwn hist := by
    rw [ClearsOwn, everywhere_concat, and_iff_left]
    · rfl
    · intro _ hfalse
      rw [hpopup] at hfalse
      exact absurd hfalse (by decide)
  have hclosed : ¬ Uncleared hist := by simp [uncleared_iff hlanded]
  unfold Followed
  rw [hclears]
  obtain ⟨hmet, hown, -⟩ | ⟨hnot, hlost⟩ := h
  · exact .inl ⟨hmet, hown, fun _ => ⟨w, by simp, hw⟩⟩
  · exact .inr ⟨hnot, .inl (hlost.resolve_right fun h => hclosed h.1)⟩

/-- A clearing write of BreakDetect arrives. -/
theorem Followed.clear {met : Prop} (h : Followed met hist) (hw : w.author = .breakDetect)
    (hlanded : Alternates (landed hist) (some alert))
    (hvalue : w.value = { alert with popup := "false" }) : Followed met (hist ++ [w]) := by
  obtain ⟨hlast, hpopup⟩ := hlanded.getLast?
  have hopen : Uncleared hist := by simp [uncleared_iff hlanded]
  have hclosed : ¬ Uncleared (hist ++ [w]) := by
    rw [uncleared_iff (o := none)]
    · simp
    · rw [landed_concat hw, hvalue]
      exact .clear hlanded
  have hclears : ClearsOwn (hist ++ [w]) ↔ ClearsOwn hist ∧ ReplacesOwn hist w :=
    everywhere_concat
  have hfalse : w.value.popup = "false" := by rw [hvalue]
  unfold Followed
  rw [hclears]
  obtain ⟨hmet, hown, hself⟩ | ⟨hnot, hlost⟩ := h
  · refine .inl ⟨hmet, ⟨hown, fun _ _ => ?_⟩, fun h => absurd h hclosed⟩
    obtain ⟨u, hu, hauthor⟩ := hself hopen
    have halert : u.value = alert := by
      obtain ⟨pre, rfl⟩ := List.getLast?_eq_some_iff.mp hu
      rw [landed_concat hauthor, List.getLast?_concat] at hlast
      exact Option.some.inj hlast
    exact ⟨u, hu, hauthor, by rw [halert, hpopup], by rw [halert, hvalue]⟩
  · refine .inr ⟨hnot, .inl fun hown => ?_⟩
    obtain hlost | ⟨-, u, hu, hauthor⟩ := hlost
    · exact hlost hown.1
    · obtain ⟨v, hv, hself, -⟩ := hown.2 hw hfalse
      obtain rfl : u = v := Option.mem_unique hu hv
      exact hauthor hself

/-! ## Every run -/

theorem hist_of_not_land {s s' : Node} {a : NodeAction} (ha : s.step a = some s')
    (hland : ∀ i, a ≠ .land i) : s'.store.hist = s.store.hist := by
  cases Node.move_of_step ha with
  | land h => exact absurd rfl (hland _)
  | report r => rfl
  | raise hidle => rfl
  | clear halerted => rfl
  | rest hresting => rfl
  | wait ms => rfl

theorem followed_of_run {as : List NodeAction} {s : Node}
    (hrun : Transition.run Node.step .init as = some s) :
    Clearing s ∧ Followed (Transition.Meets Node.step Undisturbed .init as) s.store.hist := by
  refine Transition.run_induction (I := fun as s => Clearing s ∧
    Followed (Transition.Meets Node.step Undisturbed .init as) s.store.hist) ?_ ?_ hrun
  · refine ⟨⟨none, .nil, rfl⟩, .inl ⟨trivial, everywhere_nil, ?_⟩⟩
    rintro ⟨n, hn, -⟩
    simp [Node.init, landed] at hn
  · intro as s a s' hrun h ha
    refine ⟨h.1.step ha, ?_⟩
    rw [Transition.meets_concat hrun]
    by_cases hland : ∃ i, a = .land i
    · obtain ⟨i, rfl⟩ := hland
      obtain ⟨store, hstore, rfl⟩ := Option.map_eq_some_iff.mp ha
      obtain ⟨w, hw, hhist⟩ := Store.getElem?_land hstore
      obtain ⟨o', hlanded'⟩ := (h.1.step ha).landed
      simp only [hhist] at hlanded' ⊢
      by_cases hself : w.author = .breakDetect
      · have hguard : Undisturbed s (.land i) := by
          rintro _ ⟨rfl⟩ u hu hne
          obtain rfl : w = u := Option.some.inj (hw.symm.trans hu)
          exact absurd hself hne
        simp only [hguard, and_true]
        rw [landed_concat hself] at hlanded'
        obtain ⟨hnone, hpopup⟩ | ⟨alert, hsome, hvalue⟩ := hlanded'.concat_cases
        · exact h.2.raise hself hnone hpopup
        · exact h.2.clear hself hsome hvalue
      · have hguard : Undisturbed s (.land i) ↔ ¬ Uncleared s.store.hist := by
          constructor
          · exact fun hg => hg i rfl w hw hself
          · exact fun hclosed _ _ _ _ _ => hclosed
        rw [hguard]
        exact h.2.other hself
    · have hguard : Undisturbed s a := fun i hi => absurd ⟨i, hi⟩ hland
      simp only [hguard, and_true]
      rw [hist_of_not_land ha fun i hi => hland ⟨i, hi⟩]
      exact h.2

/-- While no other producer's write reaches the server between an alert and its
clearing write, every clearing write replaces the alert of BreakDetect itself;
and once the last alert is cleared, this is the only way. -/
theorem clears_own_iff {as : List NodeAction} {s : Node}
    (hrun : Transition.run Node.step .init as = some s) :
    (Transition.Meets Node.step Undisturbed .init as → ClearsOwn s.store.hist) ∧
      (¬ Uncleared s.store.hist →
        (ClearsOwn s.store.hist ↔ Transition.Meets Node.step Undisturbed .init as)) := by
  obtain ⟨hmet, hown, -⟩ | ⟨hnot, hlost⟩ := (followed_of_run hrun).2
  · exact ⟨fun _ => hown, fun _ => iff_of_true hown hmet⟩
  · refine ⟨fun hmet => absurd hmet hnot, fun hclosed => iff_of_false ?_ hnot⟩
    exact hlost.resolve_right fun h => hclosed h.1

/-- An emergency is reported between a thief alert and its clearing write. -/
def emergencyDuringAlert : List NodeAction :=
  [.raise, .land 0, .wait 3000, .report .emergency, .land 0, .wait 7000, .clear, .land 0]

theorem clears_own_iff_emergencyDuringAlert :
    ∃ s, Transition.run Node.step .init emergencyDuringAlert = some s ∧
      ¬ Uncleared s.store.hist ∧
      (ClearsOwn s.store.hist ↔
        Transition.Meets Node.step Undisturbed .init emergencyDuringAlert) := by
  refine ⟨_, rfl, ?_, (clears_own_iff rfl).2 ?_⟩ <;>
    simp [Uncleared, landed, Notification.thiefAlert]

/-- The clearing write replaces the emergency record, whose popup is on. -/
theorem emergency_popup_erased :
    ∃ s, Transition.run Node.step .init emergencyDuringAlert = some s ∧
      ¬ Uncleared s.store.hist ∧
      s.store.hist.map (·.value) = [.thiefAlert 0, .emergency,
        { Notification.thiefAlert 0 with popup := "false" }] ∧
      ¬ ClearsOwn s.store.hist := by
  refine ⟨_, rfl, ?_, rfl, fun h => ?_⟩
  · simp [Uncleared, landed, Notification.thiefAlert]
  · obtain ⟨u, hu, hauthor, -⟩ := h
      [⟨.breakDetect, (), .thiefAlert 0, 0⟩, ⟨.online, (), .emergency, 1⟩]
      ⟨.breakDetect, (), { Notification.thiefAlert 0 with popup := "false" }, 2⟩ [] rfl rfl rfl
    obtain rfl : _ = u := by simpa using hu
    cases hauthor

end SmartDoor.BreakDetect
