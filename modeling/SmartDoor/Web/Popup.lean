-- SUMMARY: Which producers' popups reach the user of an open page.
import SmartDoor.Web.Main

/-!
# Popups

The producers of notifications write the record, the page decides by the record's
`stime` whether it is still young. A record without `stime` is never young.
-/

namespace SmartDoor.Web

/-- The branches of the services that raise a popup. -/
inductive Producer where
  /-- The Emergency branch of `online.js`. -/
  | online
  | breakDetect
  | knockdetect
  /-- `Speechrecognition.js`, with the recognised text. -/
  | speechrecognition (results : String)
  deriving DecidableEq, Repr

/-- The record that the producer writes at the time `now`. -/
def Producer.write (now : Int) : Producer → Notification
  | .online => .emergency
  | .breakDetect => .thiefAlert now
  | .knockdetect => .knock now
  | .speechrecognition results => .recorded now results

theorem Producer.write_popup (now : Int) (p : Producer) : (p.write now).popup = "true" := by
  cases p <;> rfl

/-- Every producer but one stamps its record with the time of writing. -/
theorem Producer.write_stime (now : Int) (p : Producer) :
    (p.write now).stime = if p = .online then none else some now := by
  cases p <;> simp [write, Notification.emergency, Notification.thiefAlert, Notification.knock,
    Notification.recorded]

variable {M : Type}

/-- The page pops up the notification. -/
structure Shows (s : Main M) (n : Notification) : Prop where
  popup : s.popup = some "true"
  showModal : s.showModal = true
  modaltitle : s.modaltitle = some n.title
  modalbody : s.modalbody = some (.message (some n.msg))

/-- A record with popup "true" pops up exactly if it has a stamp less than
fifteen seconds old. -/
theorem shows_iff_young {s : Main M} {n : Notification} {now : Int}
    (hold : s.popup = some "false") (hpopup : n.popup = "true")
    (hread : s.status.notification = some (.ofNotification n)) :
    Shows (s.tick now) n ↔ ∃ stime, n.stime = some stime ∧ now - stime < 15000 := by
  have hrecord : Main.shownRecord s.status = .ofNotification n := by
    simp [Main.shownRecord, hread]
  have hpop : Main.popupOf now (Main.shownRecord s.status) =
      if below (elapsed now n.stime) 15000 then "true" else "false" := by
    have hn : (Record.ofNotification n).popup = some "true" := congrArg some hpopup
    rw [hrecord, Main.popupOf_eq now hn]
    rfl
  have hyoung : below (elapsed now n.stime) 15000 = true ↔
      ∃ stime, n.stime = some stime ∧ now - stime < 15000 := by
    cases n.stime <;> simp [below, elapsed]
  rw [← hyoung]
  constructor
  · intro h
    have hshown : Main.popupOf now (Main.shownRecord s.status) = "true" := by
      simpa using h.popup
    rw [hpop] at hshown
    split at hshown
    · assumption
    · simp at hshown
  · intro h
    have hshown : Main.popupOf now (Main.shownRecord s.status) = "true" := by
      rw [hpop, if_pos h]
    obtain ⟨hmodal, htitle, hbody⟩ := Main.tick_of_popup_appears hold hshown
    rw [hrecord] at htitle hbody
    exact ⟨by simp [hshown], hmodal, htitle, hbody⟩

/-! ## Published popups -/

/-- Of the popups written at `T` and read by a page that shows none, the next
tick within fifteen seconds shows exactly those that are not an emergency. -/
theorem popup_shown_iff (s : Main M) (p : Producer) (T now : Int)
    (hold : s.popup = some "false")
    (hread : s.status.notification = some (.ofNotification (p.write T)))
    (hfrom : T ≤ now) (huntil : now < T + 15000) :
    Shows (s.tick now) (p.write T) ↔ p ≠ .online := by
  rw [shows_iff_young hold (p.write_popup T) hread, p.write_stime T]
  constructor
  · rintro ⟨stime, hstime, -⟩ rfl
    simp at hstime
  · intro h
    exact ⟨T, by simp [h], by omega⟩

/-- A page that is open since the time 1000, and reads what `p` wrote at 2000. -/
def openPage (p : Producer) : Main Unit :=
  let s := Main.init.tick 1000
  s.onStatus { s.status with notification := some (.ofNotification (p.write 2000)) }

theorem popup_shown_iff_knock :
    Shows ((openPage .knockdetect).tick 2050) (Producer.knockdetect.write 2000) :=
  (popup_shown_iff (openPage .knockdetect) .knockdetect 2000 2050 rfl rfl (by decide)
    (by decide)).mpr (by decide)

/-- An emergency is not popped up on an open page. -/
theorem emergency_popup_not_shown :
    ¬ ∀ (s : Main Unit) (p : Producer) (T now : Int), s.popup = some "false" →
      s.status.notification = some (.ofNotification (p.write T)) → T ≤ now → now < T + 15000 →
      Shows (s.tick now) (p.write T) := by
  intro h
  have := (h (openPage .online) .online 2000 2050 rfl rfl (by decide) (by decide)).popup
  revert this
  decide

end SmartDoor.Web
