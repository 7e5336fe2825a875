-- SUMMARY: The modal over whole histories of an open page: when it is shown, and when a new record replaces what it shows.
import Mathlib.Logic.Basic
import SmartDoor.Web.Main

/-!
# The modal

The timer recomputes the modal only at an edge: the popup has changed, or the
move has changed while there is no popup. A close is undone by the next edge
only. So the modal is shown exactly as long as there is a reason that has not
been closed, but a record that arrives while the popup of an earlier one is still
"true" is no edge, and what the modal shows stays as it is.
-/

namespace SmartDoor.Web

variable {M : Type}

/-! ## Histories -/

/-- What happens to an open page. -/
inductive Event (M : Type) where
  | status (status : Status M)
  | tick (now : Int)
  | close

def Main.handle (s : Main M) : Event M → Main M
  | .status status => s.onStatus status
  | .tick now => s.tick now
  | .close => s.close

/-- The page after a history, the latest event first. -/
def page : List (Event M) → Main M
  | [] => Main.init
  | e :: history => (page history).handle e

/-- The snapshot that the next tick reads. -/
def lastStatus : List (Event M) → Status M
  | [] => Main.init.status
  | .status status :: _ => status
  | _ :: history => lastStatus history

/-- The popup of a tick at the time `now` after the history. -/
def popupAt (now : Int) (history : List (Event M)) : String :=
  Main.popupOf now (Main.shownRecord (lastStatus history))

def moveAt (history : List (Event M)) : String := (lastStatus history).move.getD "false"

/-- The popup and the move of the last tick. -/
def lastTick : List (Event M) → Option (String × String)
  | [] => none
  | .tick now :: history => some (popupAt now history, moveAt history)
  | _ :: history => lastTick history

/-- A tick at the time `now` is an edge: its popup differs from that of the tick
before, or its move does and the popup is "false". The first tick is one. -/
def Edge (now : Int) (history : List (Event M)) : Prop :=
  ∀ p ∈ lastTick history, popupAt now history ≠ p.1 ∨
    moveAt history ≠ p.2 ∧ popupAt now history = "false"

/-- Reading back from the end of the history, a close comes before an edge. -/
def ClosedSinceEdge : List (Event M) → Prop
  | [] => False
  | .close :: _ => True
  | .tick now :: history => ¬ Edge now history ∧ ClosedSinceEdge history
  | .status _ :: history => ClosedSinceEdge history

/-- The two texts that the services write. -/
def IsFlag (text : Option String) : Prop := ∀ t ∈ text, t = "true" ∨ t = "false"

/-- The popup and the move of the snapshot are absent, "true" or "false". -/
structure WellFormed (status : Status M) : Prop where
  popup : ∀ n ∈ status.notification, IsFlag n.popup
  move : IsFlag status.move

/-- Every snapshot of the history is well formed. -/
def WellFormedHistory (history : List (Event M)) : Prop :=
  ∀ status, Event.status status ∈ history → WellFormed status

variable {history : List (Event M)} {now : Int}

/-! ## What the page remembers -/

theorem page_status : (page history).status = lastStatus history := by
  induction history with
  | nil => rfl
  | cons e history ih =>
    cases e with
    | status status => rfl
    | tick now => exact ih
    | close => exact ih

theorem page_popup : (page history).popup = (lastTick history).map Prod.fst := by
  induction history with
  | nil => rfl
  | cons e history ih =>
    cases e with
    | status status => exact ih
    | tick now => simp [page, Main.handle, lastTick, popupAt, page_status]
    | close => exact ih

theorem page_move : (page history).move = (lastTick history).map Prod.snd := by
  induction history with
  | nil => rfl
  | cons e history ih =>
    cases e with
    | status status => exact ih
    | tick now => simp [page, Main.handle, Main.tick, lastTick, moveAt, page_status]
    | close => exact ih

/-! ## Flags -/

theorem WellFormedHistory.tail {e : Event M} (h : WellFormedHistory (e :: history)) :
    WellFormedHistory history := fun status hmem => h status (List.mem_cons_of_mem e hmem)

theorem wellFormed_lastStatus (h : WellFormedHistory history) : WellFormed (lastStatus history) := by
  induction history with
  | nil =>
    refine ⟨fun n hn => ?_, fun t ht => ?_⟩
    · cases hn
    · cases ht
  | cons e history ih =>
    cases e with
    | status status => exact h status List.mem_cons_self
    | tick now => exact ih h.tail
    | close => exact ih h.tail

theorem popupAt_flag (h : WellFormedHistory history) :
    popupAt now history = "true" ∨ popupAt now history = "false" := by
  have hwf := (wellFormed_lastStatus h).popup
  unfold popupAt Main.shownRecord
  cases hn : (lastStatus history).notification with
  | none =>
    right
    simp [Main.popupOf]
  | some n =>
    simp only [Main.popupOf]
    cases hp : n.popup with
    | none => exact .inr rfl
    | some popup =>
      dsimp only
      split
      · exact hwf n hn popup hp
      · exact .inr rfl

/-! ## One tick -/

/-- The condition under which the source recomputes the modal. -/
def Main.Recomputes (now : Int) (s : Main M) : Prop :=
  (s.move ≠ some (s.status.move.getD "false") ∧
    Main.popupOf now (Main.shownRecord s.status) = "false") ∨
  s.popup ≠ some (Main.popupOf now (Main.shownRecord s.status))

theorem tick_of_recomputes {s : Main M} (h : s.Recomputes now) :
    ((s.tick now).showModal = true ↔
      Main.popupOf now (Main.shownRecord s.status) = "true" ∨
        s.status.move.getD "false" = "true") ∧
    (Main.popupOf now (Main.shownRecord s.status) = "true" →
      (s.tick now).modaltitle = (Main.shownRecord s.status).title ∧
      (s.tick now).modalbody = some (.message (Main.shownRecord s.status).msg)) := by
  unfold Main.Recomputes at h
  simp only [Main.tick, if_pos h]
  refine ⟨?_, fun hpopup => ?_⟩
  · rw [Bool.or_eq_true, decide_eq_true_eq, decide_eq_true_eq, or_comm]
  · rw [if_pos hpopup, if_pos hpopup]
    exact ⟨rfl, rfl⟩

theorem tick_of_not_recomputes {s : Main M} (h : ¬ s.Recomputes now) :
    (s.tick now).showModal = s.showModal ∧ (s.tick now).modaltitle = s.modaltitle ∧
    (s.tick now).modalbody = s.modalbody := by
  unfold Main.Recomputes at h
  simp only [Main.tick, if_neg h]
  exact ⟨trivial, trivial, trivial⟩

/-- The source recomputes the modal at the edges. -/
theorem recomputes_iff : (page history).Recomputes now ↔ Edge now history := by
  unfold Main.Recomputes Edge
  rw [page_popup, page_move, page_status]
  change (_ ≠ some (moveAt history) ∧ popupAt now history = "false") ∨
    _ ≠ some (popupAt now history) ↔ _
  cases lastTick history with
  | none => simp
  | some p =>
    simp only [Option.mem_some_iff, forall_eq', Option.map_some, ne_eq, Option.some.injEq,
      @eq_comm _ p.1, @eq_comm _ p.2]
    exact or_comm

/-! ## When the modal is shown -/

theorem not_edge_iff : ¬ Edge now history ↔ ∃ p ∈ lastTick history,
    popupAt now history = p.1 ∧ (popupAt now history = "false" → moveAt history = p.2) := by
  unfold Edge
  cases lastTick history with
  | none => simp
  | some p => simp [not_imp_not]

/-- A tick that is no edge has the reason of the tick before it. -/
theorem reason_of_not_edge (h : WellFormedHistory history) (hedge : ¬ Edge now history) :
    ∃ p, lastTick history = some p ∧
      ((popupAt now history = "true" ∨ moveAt history = "true") ↔ (p.1 = "true" ∨ p.2 = "true")) := by
  obtain ⟨p, hp, hpopup, hmove⟩ := not_edge_iff.mp hedge
  refine ⟨p, hp, ?_⟩
  have hflag : popupAt now history = "true" ∨ popupAt now history = "false" := popupAt_flag h
  obtain htrue | hfalse := hflag
  · simp [← hpopup, htrue]
  · rw [hpopup, hmove hfalse]

theorem showModal_iff (h : WellFormedHistory history) :
    (page history).showModal = true ↔
      (∃ p ∈ lastTick history, p.1 = "true" ∨ p.2 = "true") ∧ ¬ ClosedSinceEdge history := by
  induction history with
  | nil => simp [page, Main.init, lastTick]
  | cons e history ih =>
    cases e with
    | status status => exact ih h.tail
    | close => simp [page, Main.handle, Main.close, ClosedSinceEdge]
    | tick now =>
      have hlast : (∃ p ∈ lastTick (.tick now :: history), p.1 = "true" ∨ p.2 = "true") ↔
          popupAt now history = "true" ∨ moveAt history = "true" := by
        simp [lastTick]
      rw [hlast]
      by_cases hedge : Edge now history
      · have hclosed : ¬ ClosedSinceEdge (.tick now :: history) := fun hc => hc.1 hedge
        have hshow := (tick_of_recomputes (recomputes_iff.mpr hedge)).1
        rw [page_status] at hshow
        simp only [hclosed, not_false_iff, and_true]
        exact hshow
      · have hshow : (page (.tick now :: history)).showModal = (page history).showModal :=
          (tick_of_not_recomputes (fun hr => hedge (recomputes_iff.mp hr))).1
        have hclosed : ClosedSinceEdge (.tick now :: history) ↔ ClosedSinceEdge history :=
          and_iff_right hedge
        obtain ⟨p, hp, hreason⟩ := reason_of_not_edge h.tail hedge
        rw [hshow, ih h.tail, hclosed, hreason, hp]
        simp

/-- After every tick the modal is shown exactly if the popup or the move is "true"
and the user has not closed it since the last edge. -/
theorem shown_iff_open (h : WellFormedHistory history) :
    (page (.tick now :: history)).showModal = true ↔
      (popupAt now history = "true" ∨ moveAt history = "true") ∧
        ¬ ClosedSinceEdge (.tick now :: history) := by
  have hwf : WellFormedHistory (.tick now :: history) := by
    intro status hmem
    obtain hhead | htail := List.mem_cons.mp hmem
    · cases hhead
    · exact h status htail
  rw [showModal_iff hwf]
  simp [lastTick]

/-! ## When a new record is shown -/

/-- The modal is open with the title and the message of the record. -/
structure Displays (s : Main M) (n : Record) : Prop where
  showModal : s.showModal = true
  modaltitle : s.modaltitle = n.title
  modalbody : s.modalbody = some (.message n.msg)

/-- In every state, the next tick displays a young record with popup "true" exactly
if the popup of the last tick is not "true", or the modal displays the same
title and message already. -/
theorem displays_iff {n : Record} {stime : Int}
    (hread : (page history).status.notification = some n) (hpopup : n.popup = some "true")
    (hstime : n.stime = some stime) (hyoung : now - stime < 15000) :
    Displays (page (.tick now :: history)) n ↔
      (page history).popup ≠ some "true" ∨ Displays (page history) n := by
  have hrecord : Main.shownRecord (page history).status = n := by
    rw [Main.shownRecord, hread]
  have hpop : Main.popupOf now (Main.shownRecord (page history).status) = "true" := by
    rw [hrecord, Main.popupOf_eq now hpopup, hstime, if_pos]
    simpa [below, elapsed] using hyoung
  by_cases hold : (page history).popup = some "true"
  · have hno : ¬ (page history).Recomputes now := by
      unfold Main.Recomputes
      simp [hpop, hold]
    obtain ⟨hshow, htitle, hbody⟩ := tick_of_not_recomputes hno
    have hsame : Displays (page (.tick now :: history)) n ↔ Displays (page history) n :=
      ⟨fun h => ⟨hshow ▸ h.showModal, htitle ▸ h.modaltitle, hbody ▸ h.modalbody⟩,
        fun h => ⟨hshow.trans h.showModal, htitle.trans h.modaltitle, hbody.trans h.modalbody⟩⟩
    rw [hsame]
    simp [hold]
  · have hyes : (page history).Recomputes now := by
      unfold Main.Recomputes
      simp [hpop, hold]
    obtain ⟨hshow, hcontent⟩ := tick_of_recomputes hyes
    obtain ⟨htitle, hbody⟩ := hcontent hpop
    rw [hrecord] at htitle hbody
    have hdisplays : Displays (page (.tick now :: history)) n :=
      ⟨hshow.mpr (.inl hpop), htitle, hbody⟩
    simp [hold, hdisplays]

/-- A snapshot with a notification of the given title and time, and nothing else. -/
def notified (title : String) (time : Int) : Status Unit where
  time := some time
  doorcurrentstatus := none
  doorstatus := none
  alarm := none
  move := none
  smokedetect := none
  notification := some ⟨some title, some "", some "true", some time⟩
  memos := none

/-- A knock is shown and closed, a recorded message follows after it has expired. -/
def knockThenMessage : List (Event Unit) :=
  [.status (notified "Someone recorded a message" 20000), .tick 19000, .close, .tick 1050,
    .status (notified "Knock Knock" 1000), .tick 950]

theorem shown_iff_open_knockThenMessage :
    (page (.tick 20050 :: knockThenMessage)).showModal = true ∧
    ((page (.tick 20050 :: knockThenMessage)).showModal = true ↔
      (popupAt 20050 knockThenMessage = "true" ∨ moveAt knockThenMessage = "true") ∧
        ¬ ClosedSinceEdge (.tick 20050 :: knockThenMessage)) := by
  refine ⟨rfl, shown_iff_open fun status hmem => ?_⟩
  obtain ⟨title, time, rfl⟩ : ∃ title time, status = notified title time := by
    simp only [knockThenMessage, List.mem_cons, Event.status.injEq, reduceCtorEq, false_or,
      List.not_mem_nil, or_false] at hmem
    obtain rfl | rfl := hmem
    · exact ⟨_, _, rfl⟩
    · exact ⟨_, _, rfl⟩
  refine ⟨fun n hn popup hp => ?_, fun move hm => by cases hm⟩
  obtain rfl := Option.some.inj hn
  exact .inl (Option.some.inj hp).symm

theorem displays_iff_knockThenMessage :
    Displays (page (.tick 20050 :: knockThenMessage))
        ⟨some "Someone recorded a message", some "", some "true", some 20000⟩ ↔
      (page knockThenMessage).popup ≠ some "true" ∨ Displays (page knockThenMessage)
        ⟨some "Someone recorded a message", some "", some "true", some 20000⟩ :=
  displays_iff rfl rfl rfl (by decide)

/-- A knock is shown, and four seconds later a thief alert arrives. -/
def knockThenThief : List (Event Unit) :=
  [.status (notified "Thief Alert" 5000), .tick 1050, .status (notified "Knock Knock" 1000),
    .tick 950]

/-- The modal still shows the knock, whose record differs from the new one in title and time. -/
theorem thief_alert_not_displayed :
    (page knockThenThief).notification =
      some ⟨some "Knock Knock", some "", some "true", some 1000⟩ ∧
    (page knockThenThief).status.notification =
      some ⟨some "Thief Alert", some "", some "true", some 5000⟩ ∧
    ¬ Displays (page (.tick 5050 :: knockThenThief))
      ⟨some "Thief Alert", some "", some "true", some 5000⟩ := by
  refine ⟨rfl, rfl, fun h => ?_⟩
  have htitle : (page (.tick 5050 :: knockThenThief)).modaltitle = some "Knock Knock" := rfl
  have hnew := htitle.symm.trans h.modaltitle
  exact absurd hnew (by decide)

end SmartDoor.Web
