-- SUMMARY: The settings of the local pages: whatever the pages, the files and the router do, each switch is as somebody has set it.
import SmartDoor.Router.Server

/-!
# The settings form

`pages.js` fills the form of the settings page from the two files `phone.db` and
`settings.db`, every few seconds and in whatever order the answers come, and the
form sends all that it shows. So a form may send a setting that it was shown, or
one that was overwritten while it was open. The browser decides in which order
`for ... in` takes the keys of an object, and what the values of the options of a
list are: `values` gives them for the numbers that the list is made of.
-/

namespace SmartDoor.Router.Settings

/-- The settings with a pair of radio buttons. -/
inductive Switch where
  | callhelp
  | alarmhelp
  | callemer
  | alarmemer
  | btopen
  deriving DecidableEq, Repr

def Switch.key : Switch → String
  | .callhelp => "callhelp"
  | .alarmhelp => "alarmhelp"
  | .callemer => "callemer"
  | .alarmemer => "alarmemer"
  | .btopen => "btopen"

/-- The switch whose buttons have the ids `key + 'on'` and `key + 'off'`. -/
def Switch.ofKey (key : String) : Option Switch :=
  [Switch.callhelp, .alarmhelp, .callemer, .alarmemer, .btopen].find? (·.key = key)

/-- The test `== "on"` of a setting. -/
def Switch.isOn (s : Switch) (m : JsonMap) : Bool := Router.isOn ((m s.key).map .json)

/-- `settings` and `recbtnames`, which are not set at first, the checked radio button of each
pair, and the options of the list `callto` with the selected one. `timeouts` are those of
`emerbut`. -/
structure Page where
  settings : Option JsonMap
  recbtnames : Option JsonMap
  switches : Switch → Option Bool
  options : List String
  callto : Option String
  timeouts : Nat

namespace Page

def start : Page := ⟨none, none, fun _ => none, [], none, 0⟩

/-- The loop over the settings, for the keys in the order of the browser. A key without radio
buttons makes it throw. -/
def fill (m : JsonMap) : List String → Page → Page
  | [], page => page
  | key :: keys, page =>
    match m key with
    | none => fill m keys page
    | some value =>
      if key = "callto" then
        fill m keys { page with
          callto := if value.text ∈ page.options then some value.text else none }
      else
        match Switch.ofKey key with
        | none => page
        | some s => fill m keys
            { page with switches := Function.update page.switches s (some (s.isOn m)) }

/-- The callback of `settings.db`. Without the file it is not called, and it throws on an
empty one. -/
def onSettings (keys : List String) (page : Page) : Content JsonMap → Page
  | .text m => fill m keys { page with settings := some m }
  | .missing | .blank => page

/-- The callback of `phone.db`: the first of the new options is the selected one. -/
def onPhones (values : List String → List String) (keys : List String) (page : Page) :
    Content JsonMap → Page
  | .text m =>
    let options := values (keys.filter fun key => (m key).isSome)
    { page with recbtnames := some m, options := options, callto := options.head? }
  | .missing | .blank => page

/-- What the form sends for a pair of radio buttons. -/
def field (page : Page) (s : Switch) : Field :=
  match page.switches s with
  | none => .absent
  | some true => .one "on"
  | some false => .one "off"

/-- The two forms. -/
def setemer (page : Page) : Request :=
  .setemer (page.field .callhelp) (page.field .alarmhelp) (page.field .callemer)
    (page.field .alarmemer) (page.callto.elim .absent .one)

def setbt (page : Page) : Request := .setbt (page.field .btopen)

end Page

/-! ## The pages and the router -/

inductive Message (C : Type) where
  | askPhones (c : C)
  | askSettings (c : C)
  | phones (c : C) (content : Content JsonMap)
  | settings (c : C) (content : Content JsonMap)
  | request (r : Request)

/-- The page that an answer goes to. -/
def Message.page? {C : Type} : Message C → Option C
  | .askPhones c | .askSettings c | .phones c _ | .settings c _ => some c
  | .request _ => none

/-- `clicks` are the radio buttons that somebody has clicked, `calls` the calls that the pages
have made, each with the setting that let them, and `texts` the lists that they have sent text
messages to. -/
structure State (C : Type) where
  server : Server
  pages : C → Page
  flight : List (Message C)
  clicks : List (Switch × Bool)
  calls : List (Switch × Option Json)
  texts : List (C × Option JsonMap)

inductive Action (C : Type) where
  /-- The page is loaded, also after a form was sent. -/
  | load (c : C)
  | refsite (c : C)
  | click (c : C) (s : Switch) (on : Bool)
  | choose (c : C) (number : String)
  | setemer (c : C)
  | setbt (c : C)
  | helpbut (c : C)
  | emerbut (c : C)
  /-- The call of `emerbut`, five seconds later. -/
  | timeout (c : C)
  /-- The `i`th message in flight arrives, with the keys of the file in the browser's order,
  or is lost. -/
  | deliver (i : Nat) (keys : List String)
  | lose (i : Nat)
  /-- Anything else that happens to the router. -/
  | server (e : Event)

/-- The event is none of the requests of the two forms. -/
def foreign : Event → Bool
  | .request _ (.setemer ..) | .request _ (.setbt _) => false
  | _ => true

namespace State

variable {C : Type} [DecidableEq C]

def start (disk : Disk) : State C where
  server := .start disk
  pages := fun _ => .start
  flight := []
  clicks := []
  calls := []
  texts := []

def send (t : State C) (ms : List (Message C)) : State C := { t with flight := t.flight ++ ms }

def update (t : State C) (c : C) (page : Page) : State C :=
  { t with pages := Function.update t.pages c page }

/-- `MainActivityInterFace.callemer(settings['callto'])`. -/
def call (t : State C) (s : Switch) (m : JsonMap) : State C :=
  { t with calls := t.calls ++ [(s, m "callto")] }

/-- A text message to each number of the page's list, or to none before it has one. -/
def sendsmsall (t : State C) (c : C) : State C :=
  { t with texts := t.texts ++ [(c, (t.pages c).recbtnames)] }

def receive (values : List String → List String) (keys : List String) (t : State C) :
    Message C → State C
  | .askPhones c => t.send [.phones c t.server.phones.disk]
  | .askSettings c => t.send [.settings c t.server.settings.disk]
  | .phones c content => t.update c ((t.pages c).onPhones values keys content)
  | .settings c content => t.update c ((t.pages c).onSettings keys content)
  | .request r => { t with server := (t.server.handle false r).1 }

def step (values : List String → List String) (t : State C) : Action C → Option (State C)
  | .load c => some (({ t with flight := t.flight.filter fun m => m.page? ≠ some c }.update c
      .start).send [.askPhones c, .askSettings c])
  | .refsite c => some (t.send [.askPhones c, .askSettings c])
  | .click c s on => some { t.update c { t.pages c with
      switches := Function.update (t.pages c).switches s (some on) } with
      clicks := t.clicks ++ [(s, on)] }
  | .choose c number =>
    if number ∈ (t.pages c).options then
      some (t.update c { t.pages c with callto := some number })
    else none
  | .setemer c => some (t.send [.request (t.pages c).setemer])
  | .setbt c => some (t.send [.request (t.pages c).setbt])
  | .helpbut c =>
    let t := t.send [.request .helpbut]
    -- before the first answer the callback throws
    match (t.pages c).settings with
    | none => some t
    | some m =>
      some ((if Switch.callhelp.isOn m then t.call .callhelp m else t).sendsmsall c)
  | .emerbut c =>
    let t := t.send [.request .emerbut]
    match (t.pages c).settings with
    | none => some t
    | some m =>
      some ((if Switch.callemer.isOn m then
        t.update c { t.pages c with timeouts := (t.pages c).timeouts + 1 } else t).sendsmsall c)
  | .timeout c =>
    match (t.pages c).timeouts, (t.pages c).settings with
    | n + 1, some m => some ((t.update c { t.pages c with timeouts := n }).call .callemer m)
    | _, _ => none
  | .deliver i keys => t.flight[i]?.map fun m =>
    { t with flight := t.flight.eraseIdx i }.receive values keys m
  | .lose i => if i < t.flight.length then some { t with flight := t.flight.eraseIdx i } else none
  | .server e =>
    if foreign e then (t.server.step e).map fun server => { t with server := server } else none

end State

/-! ## What is accounted for -/

/-- The first file had the switch so, or somebody has set it so. -/
def Chosen (first : Content JsonMap) (clicks : List (Switch × Bool)) (s : Switch) (on : Bool) :
    Prop :=
  (∃ m, first = .text m ∧ (m s.key).isSome ∧ s.isOn m = on) ∨ (s, on) ∈ clicks

/-- Each switch of the settings is chosen as it is. -/
def Good (first : Content JsonMap) (clicks : List (Switch × Bool)) (m : JsonMap) : Prop :=
  ∀ s : Switch, (m s.key).isSome → Chosen first clicks s (s.isOn m)

variable {C : Type} {first content : Content JsonMap} {clicks clicks' : List (Switch × Bool)}
  {s : Switch} {on : Bool} {m : JsonMap} {page : Page} {keys : List String}
  {values : List String → List String}

theorem Chosen.mono (h : Chosen first clicks s on) (hsub : clicks ⊆ clicks') :
    Chosen first clicks' s on :=
  h.imp id fun hmem => hsub hmem

theorem Good.chosen (h : Good first clicks m) (hon : s.isOn m = true) :
    Chosen first clicks s true := by
  have hsome : (m s.key).isSome := by
    unfold Switch.isOn at hon
    cases hm : m s.key with
    | none => simp [hm, Router.isOn] at hon
    | some j => rfl
  exact hon ▸ h s hsome

theorem Good.mono (h : Good first clicks m) (hsub : clicks ⊆ clicks') : Good first clicks' m :=
  fun s hs => (h s hs).mono hsub

theorem Switch.key_injective {s s' : Switch} (h : s.key = s'.key) : s = s' := by
  cases s <;> cases s' <;> first | rfl | (revert h; decide)

/-- What a page has been shown or told. -/
structure GoodPage (first : Content JsonMap) (clicks : List (Switch × Bool)) (page : Page) :
    Prop where
  settings : ∀ m, page.settings = some m → Good first clicks m
  switches : ∀ s on, page.switches s = some on → Chosen first clicks s on
  timeouts : page.timeouts ≠ 0 → Chosen first clicks .callemer true

/-- A field of a form, as a page sends it. -/
def GoodField (first : Content JsonMap) (clicks : List (Switch × Bool)) (s : Switch) (f : Field) :
    Prop :=
  f = .absent ∨ ∃ on, f = .one (if on then "on" else "off") ∧ Chosen first clicks s on

def GoodRequest (first : Content JsonMap) (clicks : List (Switch × Bool)) : Request → Prop
  | .setemer callhelp alarmhelp callemer alarmemer _ =>
    GoodField first clicks .callhelp callhelp ∧ GoodField first clicks .alarmhelp alarmhelp ∧
      GoodField first clicks .callemer callemer ∧ GoodField first clicks .alarmemer alarmemer
  | .setbt btopen => GoodField first clicks .btopen btopen
  | _ => True

def GoodMessage (first : Content JsonMap) (clicks : List (Switch × Bool)) : Message C → Prop
  | .settings _ content => ∀ m, content = .text m → Good first clicks m
  | .request r => GoodRequest first clicks r
  | _ => True

/-! Another click takes nothing back. -/

theorem GoodPage.mono (h : GoodPage first clicks page) (hsub : clicks ⊆ clicks') :
    GoodPage first clicks' page where
  settings m hm := (h.settings m hm).mono hsub
  switches s on hon := (h.switches s on hon).mono hsub
  timeouts hn := (h.timeouts hn).mono hsub

theorem GoodField.mono {f : Field} (h : GoodField first clicks s f) (hsub : clicks ⊆ clicks') :
    GoodField first clicks' s f :=
  h.imp id fun ⟨on, hf, hon⟩ => ⟨on, hf, hon.mono hsub⟩

theorem GoodMessage.mono {message : Message C} (h : GoodMessage first clicks message)
    (hsub : clicks ⊆ clicks') : GoodMessage first clicks' message := by
  cases message with
  | askPhones c | askSettings c | phones c content => trivial
  | settings c content => exact fun m hm => (h m hm).mono hsub
  | request r =>
    cases r with
    | setemer callhelp alarmhelp callemer alarmemer callto =>
      obtain ⟨hcallhelp, halarmhelp, hcallemer, halarmemer⟩ := h
      exact ⟨hcallhelp.mono hsub, halarmhelp.mono hsub, hcallemer.mono hsub, halarmemer.mono hsub⟩
    | setbt btopen => exact GoodField.mono h hsub
    | _ => trivial

/-! ## The router -/

/-- The settings that are written after an assignment. -/
theorem stringify_assign {map : Map} {key : String} {value : Property} (hkey : key ≠ "__proto__") :
    mapFormat.stringify (map.assign key value) =
      Function.update (mapFormat.stringify map) key value.json? := by
  rw [Map.assign_eq_update fun h => absurd h hkey]
  funext k
  by_cases hk : k = key
  · subst hk
    simp [mapFormat]
  · simp [mapFormat, hk]

theorem Good.update {key : String} {value : Option Json} (h : Good first clicks m)
    (hvalue : ∀ s : Switch, s.key = key → ∀ j, value = some j →
      Chosen first clicks s (Router.isOn (some (.json j)))) :
    Good first clicks (Function.update m key value) := by
  intro s hs
  by_cases hkey : s.key = key
  · rw [hkey, Function.update_self] at hs
    obtain ⟨j, hj⟩ := Option.isSome_iff_exists.mp hs
    have hchosen := hvalue s hkey j hj
    simpa [Switch.isOn, hkey, hj] using hchosen
  · rw [Function.update_of_ne hkey] at hs
    have hchosen := h s hs
    simpa [Switch.isOn, Function.update_of_ne hkey] using hchosen

theorem GoodField.chosen {f : Field} {j : Json} (h : GoodField first clicks s f)
    (hj : f.value.json? = some j) : Chosen first clicks s (Router.isOn (some (.json j))) := by
  obtain rfl | ⟨on, rfl, hon⟩ := h
  · cases hj
  · obtain rfl : Json.str _ = j := Option.some.inj hj
    cases on <;> exact hon

theorem Good.assign {map : Map} {f : Field} (h : Good first clicks (mapFormat.stringify map))
    (hf : GoodField first clicks s f) :
    Good first clicks (mapFormat.stringify (map.assign s.key f.value)) := by
  rw [stringify_assign (by cases s <;> decide)]
  refine h.update fun s' hs' j hj => ?_
  obtain rfl := Switch.key_injective hs'
  exact hf.chosen hj

theorem Good.assign_callto {map : Map} {f : Field}
    (h : Good first clicks (mapFormat.stringify map)) :
    Good first clicks (mapFormat.stringify (map.assign "callto" f.value)) := by
  rw [stringify_assign (by decide)]
  exact h.update fun s' hs' => absurd hs' (by cases s' <;> decide)

/-- The router looks at its variable, where an undefined setting is not there. -/
theorem isOn_stringify {map : Map} (h : Router.isOn (map s.key) = true) :
    s.isOn (mapFormat.stringify map) = true := by
  unfold Switch.isOn
  cases hvalue : map s.key with
  | none => simp [hvalue, Router.isOn] at h
  | some value =>
    cases value with
    | undefined | function => simp [hvalue, Router.isOn] at h
    | json j => simpa [mapFormat, hvalue, Property.json?] using h

theorem good_empty : Good first clicks (mapFormat.stringify mapFormat.empty) :=
  fun s hs => by cases hs

theorem alarm_button {server : Server}
    (h : Good first clicks (mapFormat.stringify server.settings.memory)) (s : Switch)
    (halarm : (server.button s.key).alarm = true) :
    server.alarm = true ∨ Chosen first clicks s true := by
  unfold Server.button at halarm
  split at halarm
  · next hon => exact .inr (h.chosen (isOn_stringify hon))
  · exact .inl halarm

theorem settings_handle {server : Server} {authenticated : Bool} {r : Request}
    (hr : foreign (.request authenticated r)) :
    (server.handle authenticated r).1.settings = server.settings := by
  cases r with
  | setemer | setbt => cases hr
  | updatememos data lastupdate => cases data <;> rfl
  | helpbut | emerbut =>
    simp only [Server.handle, Server.helpbut, Server.emerbut, Server.button]
    split <;> rfl
  | _ => rfl

theorem holds_handle {server : Server} {r : Request}
    (h : server.settings.Holds mapFormat (Good first clicks)) (hr : GoodRequest first clicks r) :
    (server.handle false r).1.settings.Holds mapFormat (Good first clicks) := by
  cases r with
  | setemer callhelp alarmhelp callemer alarmemer callto =>
    obtain ⟨hcallhelp, halarmhelp, hcallemer, halarmemer⟩ := hr
    exact h.save ((((h.memory.assign hcallhelp).assign halarmhelp).assign hcallemer).assign
      halarmemer).assign_callto
  | setbt btopen => exact h.save (h.memory.assign hr)
  | _ =>
    rw [settings_handle (by rfl)]
    exact h

/-- Only the forms change the settings; the reading and the writes of the file do not make
them up. -/
theorem holds_step {server server' : Server} {e : Event}
    (h : server.settings.Holds mapFormat (Good first clicks)) (he : foreign e)
    (hstep : server.step e = some server') :
    server'.settings.Holds mapFormat (Good first clicks) := by
  cases e with
  | request authenticated r =>
    obtain rfl : _ = server' := Option.some.inj hstep
    exact (settings_handle he).symm ▸ h
  | timeout =>
    simp only [Server.step] at hstep
    split at hstep
    · cases hstep
    · obtain rfl : _ = server' := Option.some.inj hstep
      exact h
  | read f =>
    cases f with
    | settings =>
      obtain ⟨saved, hread, rfl⟩ := Option.map_eq_some_iff.mp hstep
      exact h.finishRead (fun _ => good_empty) hread
    | phone | savedbt | newbt | notes =>
      obtain ⟨saved, -, rfl⟩ := Option.map_eq_some_iff.mp hstep
      exact h
  | written f i =>
    cases f with
    | settings =>
      obtain ⟨saved, hwritten, rfl⟩ := Option.map_eq_some_iff.mp hstep
      exact h.complete hwritten
    | phone | savedbt | newbt | notes =>
      obtain ⟨saved, -, rfl⟩ := Option.map_eq_some_iff.mp hstep
      exact h

/-! ## The pages -/

theorem Switch.key_of_ofKey {key : String} (h : Switch.ofKey key = some s) : s.key = key := by
  simpa using List.find?_some h

/-- A form is filled with what the settings say. -/
theorem GoodPage.fill (h : GoodPage first clicks page) (hm : Good first clicks m) :
    GoodPage first clicks (page.fill m keys) := by
  induction keys generalizing page with
  | nil => exact h
  | cons key keys ih =>
    unfold Page.fill
    split
    · exact ih h
    · next value hvalue =>
      split
      · exact ih ⟨h.settings, h.switches, h.timeouts⟩
      · split
        · exact h
        · next s hs =>
          refine ih ⟨h.settings, fun s' on hon => ?_, h.timeouts⟩
          by_cases hsame : s' = s
          · subst hsame
            obtain rfl : s'.isOn m = on := by simpa using hon
            exact hm s' (by rw [Switch.key_of_ofKey hs, hvalue]; rfl)
          · exact h.switches s' on (by simpa [hsame] using hon)

theorem GoodPage.onSettings (h : GoodPage first clicks page)
    (hcontent : ∀ m, content = .text m → Good first clicks m) :
    GoodPage first clicks (page.onSettings keys content) := by
  cases content with
  | missing | blank => exact h
  | text m =>
    refine GoodPage.fill ⟨fun m' hm' => ?_, h.switches, h.timeouts⟩ (hcontent m rfl)
    obtain rfl : m = m' := Option.some.inj hm'
    exact hcontent m rfl

theorem GoodPage.onPhones (h : GoodPage first clicks page) :
    GoodPage first clicks (page.onPhones values keys content) := by
  cases content with
  | missing | blank => exact h
  | text m => exact ⟨h.settings, h.switches, h.timeouts⟩

theorem GoodPage.field (h : GoodPage first clicks page) (s : Switch) :
    GoodField first clicks s (page.field s) := by
  unfold Page.field
  split
  · exact .inl rfl
  · next hon => exact .inr ⟨true, rfl, h.switches s true hon⟩
  · next hoff => exact .inr ⟨false, rfl, h.switches s false hoff⟩

/-! ## Every run -/

structure Inv (first : Content JsonMap) (t : State C) : Prop where
  saved : t.server.settings.Holds mapFormat (Good first t.clicks)
  pages : ∀ c, GoodPage first t.clicks (t.pages c)
  flight : ∀ m ∈ t.flight, GoodMessage first t.clicks m
  calls : ∀ call ∈ t.calls, Chosen first t.clicks call.1 true

variable {t t' : State C}

theorem Inv.send {ms : List (Message C)} (h : Inv first t)
    (hms : ∀ m ∈ ms, GoodMessage first t.clicks m) : Inv first (t.send ms) :=
  { h with flight := List.forall_mem_append.mpr ⟨h.flight, hms⟩ }

theorem Inv.sublist {flight : List (Message C)} (h : Inv first t)
    (hsub : flight.Sublist t.flight) : Inv first { t with flight := flight } :=
  { h with flight := fun m hm => h.flight m (hsub.subset hm) }

theorem Inv.call (h : Inv first t) (hs : Chosen first t.clicks s true) :
    Inv first (t.call s m) :=
  { h with calls := List.forall_mem_append.mpr ⟨h.calls, List.forall_mem_singleton.mpr hs⟩ }

theorem Inv.sendsmsall {c : C} (h : Inv first t) : Inv first (t.sendsmsall c) := { h with }

theorem Inv.clicked (h : Inv first t) :
    Inv first { t with clicks := t.clicks ++ [(s, on)] } where
  saved := h.saved.mono fun _ hm => hm.mono (List.subset_append_left ..)
  pages c := (h.pages c).mono (List.subset_append_left ..)
  flight m hm := (h.flight m hm).mono (List.subset_append_left ..)
  calls call hcall := (h.calls call hcall).mono (List.subset_append_left ..)

variable [DecidableEq C]

theorem Inv.update {c : C} (h : Inv first t) (hpage : GoodPage first t.clicks page) :
    Inv first (t.update c page) where
  saved := h.saved
  pages d := by
    by_cases hd : d = c
    · subst hd
      simpa [State.update] using hpage
    · simpa [State.update, hd] using h.pages d
  flight := h.flight
  calls := h.calls

theorem Inv.receive {message : Message C} (h : Inv first t)
    (hmessage : GoodMessage first t.clicks message) :
    Inv first (t.receive values keys message) := by
  cases message with
  | askPhones c => exact h.send (List.forall_mem_singleton.mpr trivial)
  | askSettings c => exact h.send (List.forall_mem_singleton.mpr h.saved.disk)
  | phones c content => exact h.update (h.pages c).onPhones
  | settings c content => exact h.update ((h.pages c).onSettings hmessage)
  | request r => exact { h with saved := holds_handle h.saved hmessage }

theorem goodPage_start : GoodPage first clicks .start where
  settings m hm := by cases hm
  switches s on hon := by cases hon
  timeouts hn := absurd rfl hn

theorem Inv.step {a : Action C} (h : Inv first t) (hstep : t.step values a = some t') :
    Inv first t' := by
  cases a with
  | load c =>
    obtain rfl : _ = t' := Option.some.inj hstep
    exact ((h.sublist List.filter_sublist).update goodPage_start).send (by simp [GoodMessage])
  | refsite c =>
    obtain rfl : _ = t' := Option.some.inj hstep
    exact h.send (by simp [GoodMessage])
  | click c s on =>
    obtain rfl : _ = t' := Option.some.inj hstep
    have hpage := (h.pages c).mono (List.subset_append_left t.clicks [(s, on)])
    refine h.clicked.update ⟨hpage.settings, fun s' on' hon => ?_, hpage.timeouts⟩
    by_cases hsame : s' = s
    · subst hsame
      obtain rfl : on = on' := by simpa using hon
      exact .inr (List.mem_concat_self)
    · exact hpage.switches s' on' (by simpa [hsame] using hon)
  | choose c number =>
    simp only [State.step] at hstep
    split at hstep
    · obtain rfl : _ = t' := Option.some.inj hstep
      exact h.update ⟨(h.pages c).settings, (h.pages c).switches, (h.pages c).timeouts⟩
    · cases hstep
  | setemer c =>
    obtain rfl : _ = t' := Option.some.inj hstep
    have hfield := (h.pages c).field
    exact h.send (List.forall_mem_singleton.mpr ⟨hfield _, hfield _, hfield _, hfield _⟩)
  | setbt c =>
    obtain rfl : _ = t' := Option.some.inj hstep
    exact h.send (List.forall_mem_singleton.mpr ((h.pages c).field _))
  | helpbut c =>
    have hsend : Inv first (t.send [.request .helpbut]) :=
      h.send (List.forall_mem_singleton.mpr trivial)
    simp only [State.step] at hstep
    split at hstep
    · obtain rfl : _ = t' := Option.some.inj hstep
      exact hsend
    · next m hm =>
      obtain rfl : _ = t' := Option.some.inj hstep
      refine Inv.sendsmsall ?_
      split
      · next hon => exact hsend.call (((h.pages c).settings m hm).chosen hon)
      · exact hsend
  | emerbut c =>
    have hsend : Inv first (t.send [.request .emerbut]) :=
      h.send (List.forall_mem_singleton.mpr trivial)
    simp only [State.step] at hstep
    split at hstep
    · obtain rfl : _ = t' := Option.some.inj hstep
      exact hsend
    · next m hm =>
      obtain rfl : _ = t' := Option.some.inj hstep
      refine Inv.sendsmsall ?_
      split
      · next hon => exact hsend.update ⟨(h.pages c).settings, (h.pages c).switches,
          fun _ => ((h.pages c).settings m hm).chosen hon⟩
      · exact hsend
  | timeout c =>
    simp only [State.step] at hstep
    split at hstep
    · next n m hn hm =>
      obtain rfl : _ = t' := Option.some.inj hstep
      have hchosen := (h.pages c).timeouts (by simp [hn])
      exact Inv.call (h.update ⟨(h.pages c).settings, (h.pages c).switches, fun _ => hchosen⟩)
        hchosen
    · cases hstep
  | deliver i keys =>
    obtain ⟨m, hm, rfl⟩ := Option.map_eq_some_iff.mp hstep
    exact (h.sublist (List.eraseIdx_sublist t.flight i)).receive
      (h.flight m (List.mem_of_getElem? hm))
  | lose i =>
    simp only [State.step] at hstep
    split at hstep
    · obtain rfl : _ = t' := Option.some.inj hstep
      exact h.sublist (List.eraseIdx_sublist t.flight i)
    · cases hstep
  | server e =>
    simp only [State.step] at hstep
    split at hstep
    · next he =>
      obtain ⟨server, hserver, rfl⟩ := Option.map_eq_some_iff.mp hstep
      exact { h with saved := holds_step h.saved he hserver }
    · cases hstep

/-- What somebody has chosen: every switch in the router, in the file and on a page, all that
has let a page call, and all that lets the router turn the alarm on. -/
structure Accounted (first : Content JsonMap) (t : State C) : Prop where
  memory : Good first t.clicks (mapFormat.stringify t.server.settings.memory)
  disk : ∀ m, t.server.settings.disk = .text m → Good first t.clicks m
  pages : ∀ c s on, (t.pages c).switches s = some on → Chosen first t.clicks s on
  calls : ∀ call ∈ t.calls, Chosen first t.clicks call.1 true
  helpbut : t.server.helpbut.alarm = true →
    t.server.alarm = true ∨ Chosen first t.clicks .alarmhelp true
  emerbut : t.server.emerbut.alarm = true →
    t.server.alarm = true ∨ Chosen first t.clicks .alarmemer true

/-- Whatever any number of pages send, each at any moment and from any state of its form,
however answers and requests overtake each other or get lost, and whenever the file of the
settings is read and written: each switch is as the file had it at the start or as somebody
has set it, wherever it is stored or shown, and no page has called and no button turns the
alarm on but by a switch that somebody has turned on. -/
theorem settings_accounted {disk : Disk} {as : List (Action C)}
    (hrun : Transition.run (State.step values) (.start disk) as = some t) :
    Accounted disk.settings t := by
  have hinit : Inv disk.settings (State.start disk : State C) := by
    have hsaved : (Saved.start mapFormat disk.settings).Holds mapFormat (Good disk.settings []) :=
      Saved.Holds.start good_empty fun m hm s hs => .inl ⟨m, hm, hs, rfl⟩
    exact ⟨hsaved, fun c => goodPage_start, List.forall_mem_nil _, List.forall_mem_nil _⟩
  have hinv : Inv disk.settings t :=
    Transition.run_invariant (fun _ _ _ h hstep => h.step hstep) hinit hrun
  exact ⟨hinv.saved.memory, hinv.saved.disk, fun c => (hinv.pages c).switches, hinv.calls,
    alarm_button hinv.saved.memory .alarmhelp, alarm_button hinv.saved.memory .alarmemer⟩

/-- A form that was filled before the alarm was switched off switches it on again. -/
def staleForm : List (Action Bool) :=
  [.click true .alarmhelp true, .setemer true, .deliver 0 [], .server (.written .settings 0),
    .load false, .deliver 1 [], .deliver 1 ["alarmhelp"],
    .click true .alarmhelp false, .setemer true, .deliver 1 [], .setemer false, .deliver 1 []]

theorem settings_accounted_staleForm :
    ∃ t, Transition.run (State.step id)
        (.start ⟨.missing, .missing, .missing, .missing, .missing⟩) staleForm = some t ∧
      t.server.helpbut.alarm = true ∧ (.alarmhelp, true) ∈ t.clicks := by
  obtain ⟨t, hrun, halarm, hoff⟩ : ∃ t, Transition.run (State.step id)
        (.start ⟨.missing, .missing, .missing, .missing, .missing⟩) staleForm = some t ∧
      t.server.helpbut.alarm = true ∧ t.server.alarm = false := ⟨_, rfl, rfl, rfl⟩
  have haccounted := settings_accounted hrun
  rcases haccounted.helpbut halarm with hon | ⟨m, hm, -⟩ | hclick
  · rw [hoff] at hon
    cases hon
  · cases hm
  · exact ⟨t, hrun, halarm, hclick⟩

end SmartDoor.Router.Settings
