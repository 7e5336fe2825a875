-- SUMMARY: The door button of the local pages: each page shows the door as the router left it at a request of its own, and a click asks for what the button says.
import SmartDoor.Router.Server

/-!
# The door button

Any number of open pages send their requests to one router; requests and answers
overtake each other and may be lost. A page keeps the last answer in `doorstate`,
which is not declared: before the first answer a click on the door button throws.
Except for `status`, the callbacks do not look at the answer.
-/

namespace SmartDoor.Router.Door

/-- The requests of a page that have to do with the door. -/
inductive Kind where
  | status
  | ledon
  | ledoff
  | helpbut
  | emerbut
  deriving DecidableEq, Repr

def Kind.request : Kind → Request
  | .status => .status
  | .ledon => .ledon
  | .ledoff => .ledoff
  | .helpbut => .helpbut
  | .emerbut => .emerbut

/-- `doorstate`, and the text of the button `doorstatus`. -/
structure Page where
  doorstate : Option String
  label : String
  deriving DecidableEq, Repr

/-- The button as `index.ejs` has it. -/
def Page.start : Page := ⟨none, "Open Door"⟩

/-- The callback of a request. -/
def Page.onAnswer (page : Page) : Kind → Response → Page
  | .status, .send data => ⟨some data, if data = "off" then "Open Door" else "Close Door"⟩
  | .status, _ => page
  | .ledon, _ => ⟨some "on", "Close Door"⟩
  | .ledoff, _ => ⟨some "off", "Open Door"⟩
  | .helpbut, _ => ⟨some "on", "Close Door"⟩
  | .emerbut, _ => ⟨some "on", "Close Door"⟩

/-- What a click on the door button sends; without `doorstate` it throws. -/
def Page.click (page : Page) : Option Kind :=
  page.doorstate.map fun doorstate => if doorstate = "off" then .ledon else .ledoff

/-! ## The pages and the router -/

inductive Message (C : Type) where
  | ask (c : C) (kind : Kind)
  /-- The answer, with the moment of the router it was made in. -/
  | answer (c : C) (kind : Kind) (response : Response) (moment : Nat)

/-- `doors` is the door's state at each moment of the router, `seen` the moment of the
last answer that a page has received, and `clicks` what the button said at each click that
sent a request. -/
structure State (C : Type) where
  server : Server
  pages : C → Page
  flight : List (Message C)
  doors : List Nat
  seen : C → Option Nat
  clicks : List (String × Kind)

inductive Action (C : Type) where
  /-- `refsite`, as far as the door goes. -/
  | refsite (c : C)
  | doorstatus (c : C)
  | helpbut (c : C)
  | emerbut (c : C)
  /-- The `i`th message in flight arrives, at the router or at a page, or is lost. -/
  | deliver (i : Nat)
  | lose (i : Nat)
  /-- Anything else that happens to the router: other requests, timeouts, files. -/
  | server (e : Event)

namespace State

variable {C : Type} [DecidableEq C]

def start (disk : Disk) : State C where
  server := .start disk
  pages := fun _ => .start
  flight := []
  doors := [0]
  seen := fun _ => none
  clicks := []

def send (t : State C) (m : Message C) : State C := { t with flight := t.flight ++ [m] }

/-- The router has reached another moment. -/
def advance (t : State C) (server : Server) : State C :=
  { t with server := server, doors := t.doors ++ [server.doorstate] }

def receive (t : State C) : Message C → State C
  | .ask c kind =>
    let handled := t.server.handle false kind.request
    (t.advance handled.1).send (.answer c kind handled.2 t.doors.length)
  | .answer c kind response moment =>
    { t with
      pages := Function.update t.pages c ((t.pages c).onAnswer kind response)
      seen := Function.update t.seen c (some moment) }

def step (t : State C) : Action C → Option (State C)
  | .refsite c => some (t.send (.ask c .status))
  | .doorstatus c => (t.pages c).click.map fun kind =>
    { t.send (.ask c kind) with clicks := t.clicks ++ [((t.pages c).label, kind)] }
  | .helpbut c => some (t.send (.ask c .helpbut))
  | .emerbut c => some (t.send (.ask c .emerbut))
  | .deliver i => t.flight[i]?.map fun m => { t with flight := t.flight.eraseIdx i }.receive m
  | .lose i => if i < t.flight.length then some { t with flight := t.flight.eraseIdx i } else none
  | .server e => (t.server.step e).map t.advance

end State

/-! ## What a page shows -/

/-- The text of the button for a state of the door. -/
def labelOf (doorstate : Nat) : String := if doorstate = 0 then "Open Door" else "Close Door"

/-- What the page keeps of an answer that tells the state of the door. -/
def Page.Shows (page : Page) (doorstate : Nat) : Prop :=
  page = ⟨some (if doorstate = 0 then "off" else "on"), labelOf doorstate⟩

/-- The state of the door after the request tells what its callback will show. -/
theorem onAnswer_shows (s : Server) (authenticated : Bool) (kind : Kind) (page : Page) :
    (page.onAnswer kind (s.handle authenticated kind.request).2).Shows
      (s.handle authenticated kind.request).1.doorstate := by
  cases kind with
  | status =>
    by_cases hopen : s.doorstate = 0
    · simp [Kind.request, Server.handle, Page.onAnswer, Page.Shows, labelOf, hopen]
    · simp [Kind.request, Server.handle, Page.onAnswer, Page.Shows, labelOf, hopen]
  | ledon | ledoff => rfl
  | helpbut | emerbut =>
    simp only [Kind.request, Server.handle, Server.helpbut, Server.emerbut, Server.button]
    split <;> rfl

/-- Nothing the router does later touches what a page shows. -/
structure Inv {C : Type} (t : State C) : Prop where
  present : t.doors.getLast? = some t.server.doorstate
  answers : ∀ c kind response moment, .answer c kind response moment ∈ t.flight →
    ∃ n, t.doors[moment]? = some n ∧ ∀ page : Page, (page.onAnswer kind response).Shows n
  pages : ∀ c, (t.seen c = none ∧ t.pages c = .start) ∨
    ∃ moment n, t.seen c = some moment ∧ t.doors[moment]? = some n ∧ (t.pages c).Shows n
  clicks : ∀ click ∈ t.clicks, click = ("Open Door", .ledon) ∨ click = ("Close Door", .ledoff)

variable {C : Type} {t t' : State C}

theorem Inv.send (h : Inv t) (c : C) (kind : Kind) : Inv (t.send (.ask c kind)) where
  present := h.present
  answers := by simpa [State.send] using h.answers
  pages := h.pages
  clicks := h.clicks

theorem Inv.sublist (h : Inv t) {flight : List (Message C)} (hsub : flight.Sublist t.flight) :
    Inv { t with flight := flight } where
  present := h.present
  answers := fun c kind response moment hmem => h.answers c kind response moment (hsub.subset hmem)
  pages := h.pages
  clicks := h.clicks

theorem Inv.advance (h : Inv t) (server : Server) : Inv (t.advance server) := by
  have hkeep : ∀ {moment n}, t.doors[moment]? = some n →
      (t.doors ++ [server.doorstate])[moment]? = some n := fun hn => by
    rwa [List.getElem?_append_left (List.getElem?_eq_some_iff.mp hn).1]
  refine ⟨by simp [State.advance], fun c kind response moment hmem => ?_, fun c => ?_, h.clicks⟩
  · obtain ⟨n, hn, hshows⟩ := h.answers c kind response moment hmem
    exact ⟨n, hkeep hn, hshows⟩
  · exact (h.pages c).imp id fun ⟨moment, n, hseen, hn, hshows⟩ =>
      ⟨moment, n, hseen, hkeep hn, hshows⟩

/-- The router answers with the door's state of the moment it has reached. -/
theorem Inv.handle (h : Inv t) {c : C} {kind : Kind} [DecidableEq C] :
    Inv (t.receive (.ask c kind)) := by
  obtain ⟨hpresent, hanswers, hpages, hclicks⟩ :=
    h.advance (t.server.handle false kind.request).1
  refine ⟨hpresent, fun d k response moment hmem => ?_, hpages, hclicks⟩
  rcases List.mem_append.mp hmem with hmem | hmem
  · exact hanswers d k response moment hmem
  · obtain ⟨rfl, rfl, rfl, rfl⟩ : d = c ∧ k = kind ∧
        response = (t.server.handle false kind.request).2 ∧ moment = t.doors.length := by
      simpa using hmem
    exact ⟨_, by simp [State.receive, State.advance, State.send],
      fun page => onAnswer_shows t.server false k page⟩

variable [DecidableEq C]

theorem Inv.answer (h : Inv t) {c : C} {kind : Kind} {response : Response} {moment n : Nat}
    (hn : t.doors[moment]? = some n)
    (hshows : ∀ page : Page, (page.onAnswer kind response).Shows n) :
    Inv (t.receive (.answer c kind response moment)) := by
  refine ⟨h.present, h.answers, fun d => ?_, h.clicks⟩
  by_cases hd : d = c
  · subst hd
    exact .inr ⟨moment, n, by simp [State.receive], hn, by simpa [State.receive] using hshows _⟩
  · simpa [State.receive, hd] using h.pages d

theorem Inv.step {a : Action C} (h : Inv t) (hstep : t.step a = some t') : Inv t' := by
  cases a with
  | refsite c | helpbut c | emerbut c =>
    obtain rfl : _ = t' := Option.some.inj hstep
    exact h.send c _
  | doorstatus c =>
    obtain ⟨kind, hkind, rfl⟩ := Option.map_eq_some_iff.mp hstep
    obtain ⟨hpresent, hanswers, hpages, -⟩ := h.send c kind
    refine ⟨hpresent, hanswers, hpages, fun click hmem => ?_⟩
    rcases List.mem_append.mp hmem with hmem | hmem
    · exact h.clicks click hmem
    · -- a page that has `doorstate` has its label from the same answer
      obtain rfl := List.mem_singleton.mp hmem
      rcases h.pages c with ⟨-, hstart⟩ | ⟨moment, n, -, -, hshows⟩
      · simp [hstart, Page.start, Page.click] at hkind
      · rw [hshows] at hkind ⊢
        by_cases hn : n = 0
        · left
          simp_all [Page.click, labelOf]
        · right
          simp_all [Page.click, labelOf]
  | deliver i =>
    obtain ⟨m, hm, rfl⟩ := Option.map_eq_some_iff.mp hstep
    have hrest := h.sublist (List.eraseIdx_sublist t.flight i)
    cases m with
    | ask c kind => exact hrest.handle
    | answer c kind response moment =>
      obtain ⟨n, hn, hshows⟩ := h.answers c kind response moment (List.mem_of_getElem? hm)
      exact hrest.answer hn hshows
  | lose i =>
    simp only [State.step] at hstep
    split at hstep
    · obtain rfl : _ = t' := Option.some.inj hstep
      exact h.sublist (List.eraseIdx_sublist t.flight i)
    · cases hstep
  | server e =>
    obtain ⟨server, -, rfl⟩ := Option.map_eq_some_iff.mp hstep
    exact h.advance server

/-- In every reachable state, whatever is delayed, overtaken or lost: a page that has had an
answer shows the door as it was when the router handled the request of the last one, and as
it is now if that was the last thing the router did; and each click on a door button has
asked for what the button said. -/
theorem door_shown {disk : Disk} {as : List (Action C)}
    (hrun : Transition.run State.step (.start disk) as = some t) :
    (∀ c moment, t.seen c = some moment → ∃ n, t.doors[moment]? = some n ∧
      (t.pages c).label = labelOf n ∧ (moment + 1 = t.doors.length → n = t.server.doorstate)) ∧
    ∀ click ∈ t.clicks, click = ("Open Door", .ledon) ∨ click = ("Close Door", .ledoff) := by
  have hinit : Inv (State.start disk : State C) := by
    refine ⟨rfl, by simp [State.start], fun c => .inl ⟨rfl, rfl⟩, by simp [State.start]⟩
  have hinv : Inv t := Transition.run_invariant (fun _ _ _ h hstep => h.step hstep) hinit hrun
  refine ⟨fun c moment hseen => ?_, hinv.clicks⟩
  rcases hinv.pages c with ⟨hnone, -⟩ | ⟨moment', n, hseen', hn, hshows⟩
  · rw [hnone] at hseen
    cases hseen
  · obtain rfl : moment' = moment := Option.some.inj (hseen'.symm.trans hseen)
    refine ⟨n, hn, by rw [hshows], fun hlast => ?_⟩
    have hpresent := hinv.present
    rw [List.getLast?_eq_getElem?, ← hlast, Nat.add_sub_cancel, hn] at hpresent
    exact Option.some.inj hpresent

/-- The answer to one page is still on its way when another one opens the door. -/
def openedMeanwhile : List (Action Bool) :=
  [.refsite true, .refsite false, .deliver 0, .deliver 1, .doorstatus true, .deliver 0,
    .deliver 0, .deliver 0]

theorem door_shown_openedMeanwhile :
    ∃ t, Transition.run State.step (.start ⟨.missing, .missing, .missing, .missing, .missing⟩)
        openedMeanwhile = some t ∧
      t.doors = [0, 0, 0, 1] ∧ t.seen false = some 2 ∧ (t.pages false).label = labelOf 0 ∧
      t.server.doorstate = 1 := by
  obtain ⟨t, hrun, hdoors, hseen, hdoor⟩ :
      ∃ t, Transition.run State.step
          (.start ⟨.missing, .missing, .missing, .missing, .missing⟩) openedMeanwhile = some t ∧
        t.doors = [0, 0, 0, 1] ∧ t.seen false = some 2 ∧ t.server.doorstate = 1 :=
    ⟨_, rfl, rfl, rfl, rfl⟩
  obtain ⟨n, hn, hlabel, -⟩ := (door_shown hrun).1 false 2 hseen
  obtain rfl : n = 0 := by simpa [hdoors] using hn.symm
  exact ⟨t, hrun, hdoors, hseen, hlabel, hdoor⟩

end SmartDoor.Router.Door
