-- SUMMARY: Which listeners a session holds: one for the door that is shown, and one for each visit to the other two pages that listen.
import SmartDoor.Web.Session

/-!
# The listeners of a session

`Main` calls `off` when it is unmounted. `SelDoor` has no `componentWillUnmount`, and
that of `Logs` clears a timer that it never starts, so their listeners stay for the
rest of the session.
-/

namespace SmartDoor.Web

variable {M : Type} {s s' : Session M}

def Listener.isLog : Listener → Bool
  | .log _ => true
  | _ => false

def Listener.isStatus : Listener → Bool
  | .status _ => true
  | _ => false

/-- The entry is a mounting of the page. -/
def Entry.mounts (view : View) : Entry M → Bool
  | .mounted v => v = view
  | _ => false

/-- How often the page has been mounted. -/
def Session.visits (s : Session M) (view : View) : Nat := s.log.countP (Entry.mounts view)

/-- What the session listens to. -/
structure Session.Listening (s : Session M) : Prop where
  doors : s.listeners.count .doors = s.visits .selDoor
  log : s.listeners.countP Listener.isLog = s.visits .logs
  status : s.listeners.filter Listener.isStatus =
    s.main.toList.map fun m => .status m.statusref

/-- `off` takes away the listener of the door that was shown, and no other. -/
theorem Session.Listening.unmount (h : s.Listening) : s.unmount.Listening := by
  cases hm : s.main with
  | none =>
    have hsame : s.unmount = s := by simp [Session.unmount, hm]
    rwa [hsame]
  | some m =>
    have hunmount : s.unmount = { s with
        main := none, listeners := s.listeners.filter (· ≠ .status m.statusref) } := by
      simp [Session.unmount, hm]
    have hother : ∀ p : Listener → Bool, (∀ ref, p (.status ref) = false) →
        ∀ l : Listener, (p l && decide (l ≠ .status m.statusref)) = p l := by
      intro p hp l
      by_cases hl : l = .status m.statusref
      · simp [hl, hp]
      · simp [hl]
    rw [hunmount]
    refine ⟨?_, ?_, ?_⟩
    · rw [List.count_filter (by simp)]
      exact h.doors
    · rw [List.countP_filter]
      simp only [hother Listener.isLog fun _ => rfl]
      exact h.log
    · have hstatus := h.status
      rw [hm] at hstatus
      rw [List.filter_comm, hstatus]
      simp

/-- `Main` apart, a page that is mounted adds at most a listener that stays. -/
theorem Session.Listening.stays (hmain : s.main = none) (h : s.Listening) {new : List Listener}
    (hlisteners : s'.listeners = s.listeners ++ new)
    (hlog : s'.log = s.log ++ [.mounted s.app.view]) (hs'main : s'.main = none)
    (hdoors : new.count .doors = if s.app.view = .selDoor then 1 else 0)
    (hlogs : new.countP Listener.isLog = if s.app.view = .logs then 1 else 0)
    (hnew : new.filter Listener.isStatus = []) : s'.Listening := by
  have hstatus := h.status
  rw [hmain] at hstatus
  have hvisits : ∀ view, s'.visits view = s.visits view + if s.app.view = view then 1 else 0 := by
    intro view
    rw [Session.visits, hlog, List.countP_append, List.countP_singleton]
    simp [Session.visits, Entry.mounts]
  refine ⟨?_, ?_, ?_⟩
  · rw [hlisteners, List.count_append, h.doors, hdoors, hvisits]
  · rw [hlisteners, List.countP_append, h.log, hlogs, hvisits]
  · rw [hlisteners, List.filter_append, hstatus, hnew, hs'main]
    rfl

theorem Session.Listening.mount (hmain : s.main = none) (h : s.Listening)
    (hmount : s.mount = some s') : s'.Listening := by
  simp only [Session.mount] at hmount
  split at hmount
  · next hview =>
    obtain rfl : _ = s' := Option.some.inj hmount
    have hseen : s.app.view = .selDoor := hview
    exact h.stays hmain rfl rfl hmain (by simp [hseen]) (by simp [hseen, Listener.isLog]) rfl
  · next hview =>
    obtain rfl : _ = s' := Option.some.inj hmount
    have hseen : s.app.view = .help := hview
    exact h.stays hmain (List.append_nil _).symm rfl hmain (by simp [hseen]) (by simp [hseen]) rfl
  · next hview =>
    obtain rfl : _ = s' := Option.some.inj hmount
    have hseen : s.app.view = .settings := hview
    exact h.stays hmain (List.append_nil _).symm rfl hmain (by simp [hseen]) (by simp [hseen]) rfl
  · next hview =>
    obtain ⟨ref, -, rfl⟩ := Option.map_eq_some_iff.mp hmount
    have hseen : s.app.view = .logs := hview
    exact h.stays hmain rfl rfl hmain (by simp [hseen]) (by simp [hseen, Listener.isLog]) rfl
  · next hview =>
    obtain ⟨ref, -, rfl⟩ := Option.map_eq_some_iff.mp hmount
    have hseen : s.app.view = .main := hview
    have hstatus := h.status
    rw [hmain] at hstatus
    refine ⟨?_, ?_, ?_⟩
    · simpa [Session.listen, Session.record, Session.visits, Entry.mounts, hseen] using h.doors
    · simpa [Session.listen, Session.record, Session.visits, Entry.mounts, hseen, Listener.isLog]
        using h.log
    · simp [Session.listen, Session.record, Listener.isStatus, hstatus]

theorem Session.Listening.setState {app : App} (h : s.Listening)
    (hstep : s.setState app = some s') : s'.Listening := by
  unfold Session.setState at hstep
  split at hstep
  · obtain rfl : _ = s' := Option.some.inj hstep
    exact ⟨h.doors, h.log, h.status⟩
  · obtain ⟨hdoors, hlog, hstatus⟩ := h.unmount
    refine Session.Listening.mount ?_ ?_ hstep
    · exact Session.unmount_main
    · exact ⟨hdoors, hlog, hstatus⟩

/-- An entry that is no mounting, and another state of the mounted `Main`. -/
theorem Session.Listening.keep (h : s.Listening) {new : List (Entry M)}
    (hlisteners : s'.listeners = s.listeners) (hlog : s'.log = s.log ++ new)
    (hnew : ∀ view, new.countP (Entry.mounts view) = 0)
    (hmain : s'.main.map Mounted.statusref = s.main.map Mounted.statusref) : s'.Listening := by
  have hvisits : ∀ view, s'.visits view = s.visits view := fun view => by
    rw [Session.visits, hlog, List.countP_append, hnew]
    rfl
  have hrefs : ∀ u : Session M, (u.main.toList.map fun m => Listener.status m.statusref) =
      (u.main.map Mounted.statusref).toList.map Listener.status := fun u => by
    cases u.main <;> rfl
  refine ⟨?_, ?_, ?_⟩
  · rw [hlisteners, hvisits, h.doors]
  · rw [hlisteners, hvisits, h.log]
  · rw [hlisteners, h.status, hrefs, hrefs, hmain]

theorem Session.Listening.step {a : SessionAction M} (h : s.Listening)
    (hstep : s.step a = some s') : s'.Listening := by
  have hwritecom : ∀ command, s.writecom command = some s' → s'.Listening := by
    intro command hwrite
    obtain ⟨ref, -, rfl⟩ := Option.map_eq_some_iff.mp hwrite
    exact h.keep rfl rfl (by simp [Entry.mounts]) rfl
  cases a with
  | pagechange page => exact h.setState hstep
  | doorchange => exact h.setState hstep
  | chooseDoor name door =>
    simp only [Session.step] at hstep
    split at hstep
    · exact h.setState hstep
    · cases hstep
  | snapshot status =>
    simp only [Session.step] at hstep
    split at hstep
    · next m hm =>
      split at hstep
      · obtain rfl : _ = s' := Option.some.inj hstep
        exact h.keep rfl rfl (by simp [Entry.mounts]) (by simp [hm])
      · cases hstep
    · cases hstep
  | tick now | close =>
    obtain ⟨m, hm, rfl⟩ := Option.map_eq_some_iff.mp hstep
    exact h.keep rfl (List.append_nil _).symm (by simp) (by simp [hm])
  | doorbutton | emergency =>
    simp only [Session.step] at hstep
    split at hstep
    · split at hstep
      · exact hwritecom _ hstep
      · cases hstep
    · cases hstep

/-- At every moment of a session it holds one listener for each visit so far to the page
that chooses a door and for each visit to the logs, and besides these only that of the
door that is shown. -/
theorem listeners_left {app : App} {s₀ : Session M} {as : List (SessionAction M)}
    (hstart : Session.start app = some s₀)
    (hrun : Transition.run Session.step s₀ as = some s) :
    s.listeners.count .doors = s.visits .selDoor ∧
    s.listeners.countP Listener.isLog = s.visits .logs ∧
    s.listeners.filter Listener.isStatus = s.main.toList.map fun m => .status m.statusref := by
  have hinit : s₀.Listening := .mount rfl ⟨rfl, rfl, rfl⟩ hstart
  obtain ⟨hdoors, hlog, hstatus⟩ :=
    Transition.run_invariant (fun _ _ _ h hstep => h.step hstep) hinit hrun
  exact ⟨hdoors, hlog, hstatus⟩

/-- The user looks at the logs twice. -/
theorem listeners_left_guestOfLab :
    ∃ s₀ s : Session Unit, Session.start guestOfLab = some s₀ ∧
      Transition.run Session.step s₀ [.pagechange "logs".toList, .pagechange "main".toList,
        .pagechange "logs".toList, .pagechange "main".toList] = some s ∧
      s.listeners.length = 3 ∧ s.listeners.countP Listener.isLog = s.visits .logs := by
  obtain ⟨s₀, s, hstart, hrun, hlength⟩ : ∃ s₀ s : Session Unit,
      Session.start guestOfLab = some s₀ ∧
      Transition.run Session.step s₀ [.pagechange "logs".toList, .pagechange "main".toList,
        .pagechange "logs".toList, .pagechange "main".toList] = some s ∧
      s.listeners.length = 3 := ⟨_, _, rfl, rfl, rfl⟩
  exact ⟨s₀, s, hstart, hrun, hlength, (listeners_left hstart hrun).2.1⟩

end SmartDoor.Web
