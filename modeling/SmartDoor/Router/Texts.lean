-- SUMMARY: The text messages of the emergency buttons: once a change of a phone has been written, a page that is loaded then texts exactly the contacts.
import SmartDoor.Router.Settings
import SmartDoor.Router.Stored

/-!
# The text messages

Both emergency buttons text every number of the page's own list. The list is the
page's last answer to `phone.db`, the file is written behind the router's variable,
and the requests that change the variable come from anywhere. What a page texts is
therefore some version of the file. It is the right one, number by number, for a page
that is loaded when all writes have completed, each in its order.
-/

namespace SmartDoor.Router.Settings

open Transition

variable {C : Type}

/-! ## The contacts -/

/-- The requests that come from elsewhere than the two forms and the buttons. -/
def requested (as : List (Action C)) : List Request :=
  as.filterMap fun
    | .server (.request _ r) => some r
    | _ => none

/-- The phones that people have added to those of the first file and have not deleted. -/
def contacts (disk : Disk) (as : List (Action C)) : Map :=
  ((requested as).foldl Maps.apply disk.load).phones

/-- An action on the phones finds them as its predecessors meant them, and undoes none. -/
def PhonesSafe (t : State C) : Action C → Prop
  | .server (.request _ (.addphone phonename phone)) =>
    (Request.addphone phonename phone).Safe t.server
  | .server (.request _ (.delphone phone)) => (Request.delphone phone).Safe t.server
  | .server (.read .phone) => t.server.ReadsBack .phone
  | .server (.written .phone i) => t.server.InOrder i .phone
  | _ => True

/-- What an action does to the phones of the router. -/
inductive PhoneMove (s : Saved Map JsonMap) : Action C → Saved Map JsonMap → Prop where
  | addphone (authenticated : Bool) (phonename phone : Field) :
    PhoneMove s (.server (.request authenticated (.addphone phonename phone)))
      (s.save mapFormat (s.memory.assign phone.text phonename.value))
  | delphone (authenticated : Bool) (phone : Field) :
    PhoneMove s (.server (.request authenticated (.delphone phone)))
      (s.save mapFormat (s.memory.delete phone.text))
  | read {s' : Saved Map JsonMap} (hread : s.finishRead mapFormat = some s') :
    PhoneMove s (.server (.read .phone)) s'
  | written {s' : Saved Map JsonMap} {i : Nat} (hwritten : s.complete i = some s') :
    PhoneMove s (.server (.written .phone i)) s'
  | other {a : Action C} (ha : ∀ disk as, contacts disk (as ++ [a]) = contacts disk as) :
    PhoneMove s a s

variable {disk : Disk} {as bs : List (Action C)} {a : Action C} {t t' u : State C}
  {values : List String → List String}

theorem requested_concat : requested (as ++ [a]) = requested as ++ requested [a] :=
  List.filterMap_append

theorem contacts_concat_request {authenticated : Bool} {r : Request} :
    contacts disk (as ++ [.server (.request authenticated r)]) =
      (((requested as).foldl Maps.apply disk.load).apply r).phones := by
  rw [contacts, requested_concat, List.foldl_append]
  rfl

theorem contacts_concat_of_requested_nil (ha : requested [a] = []) :
    contacts disk (as ++ [a]) = contacts disk as := by
  rw [contacts, requested_concat, ha, List.append_nil]
  rfl

theorem phoneMove_request {s : Server} {authenticated : Bool} {r : Request} :
    PhoneMove (C := C) s.phones (.server (.request authenticated r))
      (s.handle authenticated r).1.phones := by
  cases r with
  | addphone phonename phone => exact .addphone authenticated phonename phone
  | delphone phone => exact .delphone authenticated phone
  | updatememos data lastupdate =>
    cases data <;> exact .other fun disk as => contacts_concat_request
  | helpbut | emerbut =>
    simp only [Server.handle, Server.helpbut, Server.emerbut, Server.button]
    split <;> exact .other fun disk as => contacts_concat_request
  | _ => exact .other fun disk as => contacts_concat_request

theorem phoneMove_server {s s' : Server} {e : Event} (hstep : s.step e = some s') :
    PhoneMove (C := C) s.phones (.server e) s'.phones := by
  cases e with
  | request authenticated r =>
    obtain rfl : _ = s' := Option.some.inj hstep
    exact phoneMove_request
  | timeout =>
    simp only [Server.step] at hstep
    split at hstep
    · cases hstep
    · obtain rfl : _ = s' := Option.some.inj hstep
      exact .other fun disk as => contacts_concat_of_requested_nil rfl
  | read f =>
    cases f with
    | phone =>
      obtain ⟨saved, hread, rfl⟩ := Option.map_eq_some_iff.mp hstep
      exact .read hread
    | settings | savedbt | newbt | notes =>
      obtain ⟨saved, -, rfl⟩ := Option.map_eq_some_iff.mp hstep
      exact .other fun disk as => contacts_concat_of_requested_nil rfl
  | written f i =>
    cases f with
    | phone =>
      obtain ⟨saved, hwritten, rfl⟩ := Option.map_eq_some_iff.mp hstep
      exact .written hwritten
    | settings | savedbt | newbt | notes =>
      obtain ⟨saved, -, rfl⟩ := Option.map_eq_some_iff.mp hstep
      exact .other fun disk as => contacts_concat_of_requested_nil rfl

theorem phoneMove_other (ha : requested [a] = [])
    (hserver : t'.server = t.server) : PhoneMove t.server.phones a t'.server.phones := by
  rw [hserver]
  exact .other fun disk as => contacts_concat_of_requested_nil ha

/-! ## What is done to the phones -/

theorem PhoneMove.follows {saved : Saved Map JsonMap} (hmove : PhoneMove t.server.phones a saved)
    (h : t.server.phones.Follows mapFormat disk.phone (contacts disk as)) (hsafe : PhonesSafe t a) :
    saved.Follows mapFormat disk.phone (contacts disk (as ++ [a])) := by
  cases hmove with
  | addphone authenticated phonename phone =>
    rw [contacts_concat_request]
    exact follows_assign h hsafe.1 hsafe.2
  | delphone authenticated phone =>
    rw [contacts_concat_request]
    exact follows_delete h hsafe
  | read hread =>
    rw [contacts_concat_of_requested_nil rfl]
    exact h.finishRead hsafe hread
  | written hwritten =>
    rw [contacts_concat_of_requested_nil rfl]
    exact h.complete hsafe hwritten
  | other ha => exact (ha disk as).symm ▸ h

theorem fill_recbtnames {page : Page} {m : JsonMap} {keys : List String} :
    (page.fill m keys).recbtnames = page.recbtnames := by
  induction keys generalizing page with
  | nil => rfl
  | cons key keys ih =>
    unfold Page.fill
    split
    · exact ih
    · split
      · exact ih
      · split
        · rfl
        · exact ih

theorem onSettings_recbtnames {page : Page} {keys : List String} {content : Content JsonMap} :
    (page.onSettings keys content).recbtnames = page.recbtnames := by
  cases content with
  | missing | blank => rfl
  | text m => exact fill_recbtnames

/-- What the message brings to the page `c` is as `P` says. A request of a page leaves the
phones alone. -/
def Message.Brings (c : C) (P : JsonMap → Prop) : Message C → Prop
  | .request r => ∀ s : Server, (s.handle false r).1.phones = s.phones
  | .phones d (.text m) => d = c → P m
  | _ => True

/-- The list of the page `c`, all lists on their way to it, and those it has sent text messages
to since `before`, are as `P` says. -/
structure Told (c : C) (P : JsonMap → Prop) (before : List (C × Option JsonMap)) (t : State C) :
    Prop where
  page : ∀ m, (t.pages c).recbtnames = some m → P m
  flight : ∀ m ∈ t.flight, m.Brings c P
  sent : ∃ sent, t.texts = before ++ sent ∧ ∀ m, (c, some m) ∈ sent → P m

variable {c d : C} {P : JsonMap → Prop} {before : List (C × Option JsonMap)} {page : Page}
  {number : String} {value : Option Json}

theorem Told.send {ms : List (Message C)} (h : Told c P before t)
    (hms : ∀ m ∈ ms, m.Brings c P) : Told c P before (t.send ms) :=
  { h with flight := List.forall_mem_append.mpr ⟨h.flight, hms⟩ }

theorem Told.sublist {flight : List (Message C)} (h : Told c P before t)
    (hsub : flight.Sublist t.flight) : Told c P before { t with flight := flight } :=
  { h with flight := fun m hm => h.flight m (hsub.subset hm) }

theorem Told.sendsmsall (h : Told c P before t) : Told c P before (t.sendsmsall d) where
  page := h.page
  flight := h.flight
  sent := by
    obtain ⟨sent, htexts, hsent⟩ := h.sent
    refine ⟨sent ++ [(d, (t.pages d).recbtnames)], ?_, fun m hm => ?_⟩
    · simp [State.sendsmsall, htexts]
    · rcases List.mem_append.mp hm with hm | hm
      · exact hsent m hm
      · obtain ⟨rfl, hlist⟩ := Prod.mk.inj (List.mem_singleton.mp hm)
        exact h.page m hlist.symm

variable [DecidableEq C]

theorem Told.update (h : Told c P before t)
    (hpage : d = c → ∀ m, page.recbtnames = some m → P m) :
    Told c P before (t.update d page) where
  page := by
    by_cases hd : c = d
    · subst hd
      simpa [State.update] using hpage rfl
    · simpa [State.update, hd] using h.page
  flight := h.flight
  sent := h.sent

/-- The page `d` changes in something else. -/
theorem Told.update_of_eq (h : Told c P before t)
    (hpage : page.recbtnames = (t.pages d).recbtnames) : Told c P before (t.update d page) :=
  h.update fun hd m hm => h.page m (by rw [← hd, ← hpage, hm])

theorem Told.receive {keys : List String} {message : Message C} (h : Told c P before t)
    (hdisk : ∀ m, t.server.phones.disk = .text m → P m) (hmessage : message.Brings c P) :
    Told c P before (t.receive values keys message) := by
  cases message with
  | askPhones d =>
    refine h.send (List.forall_mem_singleton.mpr ?_)
    cases hcontent : t.server.phones.disk with
    | missing | blank => trivial
    | text m => exact fun _ => hdisk m hcontent
  | askSettings d => exact h.send (List.forall_mem_singleton.mpr trivial)
  | phones d content =>
    cases content with
    | missing | blank => exact h.update_of_eq rfl
    | text m =>
      refine h.update fun hd m' hm' => ?_
      obtain rfl : m = m' := Option.some.inj hm'
      exact hmessage hd
  | settings d content => exact h.update_of_eq onSettings_recbtnames
  | request r => exact { h with }

theorem button_phones {setting : String} {s : Server} : (s.button setting).phones = s.phones := by
  unfold Server.button
  split <;> rfl

theorem Told.step (h : Told c P before t) (hdisk : ∀ m, t.server.phones.disk = .text m → P m)
    (hstep : t.step values a = some t') : Told c P before t' := by
  cases a with
  | load d =>
    obtain rfl : _ = t' := Option.some.inj hstep
    refine ((h.sublist List.filter_sublist).update fun _ m hm => ?_).send ?_
    · cases hm
    · simp [Message.Brings]
  | refsite d =>
    obtain rfl : _ = t' := Option.some.inj hstep
    exact h.send (by simp [Message.Brings])
  | click d s on =>
    obtain rfl : _ = t' := Option.some.inj hstep
    have hpage : Told c P before (t.update d { t.pages d with
        switches := Function.update (t.pages d).switches s (some on) }) := h.update_of_eq rfl
    exact ⟨hpage.page, hpage.flight, hpage.sent⟩
  | choose d number =>
    simp only [State.step] at hstep
    split at hstep
    · obtain rfl : _ = t' := Option.some.inj hstep
      exact h.update_of_eq rfl
    · cases hstep
  | setemer d =>
    obtain rfl : _ = t' := Option.some.inj hstep
    exact h.send (List.forall_mem_singleton.mpr fun _ => rfl)
  | setbt d =>
    obtain rfl : _ = t' := Option.some.inj hstep
    exact h.send (List.forall_mem_singleton.mpr fun _ => rfl)
  | helpbut d =>
    have hsend : Told c P before (t.send [.request .helpbut]) :=
      h.send (List.forall_mem_singleton.mpr fun _ => button_phones)
    simp only [State.step] at hstep
    split at hstep
    · obtain rfl : _ = t' := Option.some.inj hstep
      exact hsend
    · obtain rfl : _ = t' := Option.some.inj hstep
      refine Told.sendsmsall ?_
      split
      · exact { hsend with }
      · exact hsend
  | emerbut d =>
    have hsend : Told c P before (t.send [.request .emerbut]) :=
      h.send (List.forall_mem_singleton.mpr fun _ => button_phones)
    simp only [State.step] at hstep
    split at hstep
    · obtain rfl : _ = t' := Option.some.inj hstep
      exact hsend
    · obtain rfl : _ = t' := Option.some.inj hstep
      refine Told.sendsmsall ?_
      split
      · exact hsend.update_of_eq rfl
      · exact hsend
  | timeout d =>
    simp only [State.step] at hstep
    split at hstep
    · next n m hn hm =>
      obtain rfl : _ = t' := Option.some.inj hstep
      have hpage : Told c P before (t.update d { t.pages d with timeouts := n }) :=
        h.update_of_eq rfl
      exact ⟨hpage.page, hpage.flight, hpage.sent⟩
    · cases hstep
  | deliver i keys =>
    obtain ⟨m, hm, rfl⟩ := Option.map_eq_some_iff.mp hstep
    exact (h.sublist (List.eraseIdx_sublist t.flight i)).receive hdisk
      (h.flight m (List.mem_of_getElem? hm))
  | lose i =>
    simp only [State.step] at hstep
    split at hstep
    · obtain rfl : _ = t' := Option.some.inj hstep
      exact h.sublist (List.eraseIdx_sublist t.flight i)
    · cases hstep
  | server e =>
    simp only [State.step] at hstep
    split at hstep
    · obtain ⟨server, -, rfl⟩ := Option.map_eq_some_iff.mp hstep
      exact { h with }
    · cases hstep

/-- A page that is loaded has no list and waits for no old one. -/
theorem Told.load (h : Told c (fun _ => True) [] t) (hstep : t.step values (.load c) = some t') :
    Told c P t.texts t' := by
  obtain rfl : _ = t' := Option.some.inj hstep
  refine Told.send ⟨fun m hm => ?_, fun m hm => ?_, [], by simp [State.update], by simp⟩
    (by simp [Message.Brings])
  · simp [State.update, Page.start] at hm
  · obtain ⟨hmem, hpage⟩ : m ∈ t.flight ∧ m.page? ≠ some c := by
      simpa [State.update] using hm
    have hbrings := h.flight m hmem
    cases m with
    | phones d content =>
      cases content with
      | missing | blank => trivial
      | text list => exact fun hd => absurd (congrArg some hd) hpage
    | request r => exact hbrings
    | askPhones | askSettings | settings => trivial

/-! ## Runs -/

theorem phoneMove_step (h : Told c P before t) (hstep : t.step values a = some t') :
    PhoneMove t.server.phones a t'.server.phones := by
  cases a with
  | server e =>
    simp only [State.step] at hstep
    split at hstep
    · obtain ⟨server, hserver, rfl⟩ := Option.map_eq_some_iff.mp hstep
      exact phoneMove_server hserver
    · cases hstep
  | deliver i keys =>
    obtain ⟨m, hm, rfl⟩ := Option.map_eq_some_iff.mp hstep
    have hphones : ({ t with flight := t.flight.eraseIdx i }.receive values keys m).server.phones =
        t.server.phones := by
      cases m with
      | request r => exact h.flight _ (List.mem_of_getElem? hm) t.server
      | _ => rfl
    rw [hphones]
    exact .other fun disk as => contacts_concat_of_requested_nil rfl
  | load d | refsite d | click d s on | setemer d | setbt d =>
    obtain rfl : _ = t' := Option.some.inj hstep
    exact phoneMove_other rfl rfl
  | choose d number | timeout d | lose i =>
    simp only [State.step] at hstep
    split at hstep
    · obtain rfl : _ = t' := Option.some.inj hstep
      exact phoneMove_other rfl rfl
    · cases hstep
  | helpbut d | emerbut d =>
    simp only [State.step] at hstep
    split at hstep
    · obtain rfl : _ = t' := Option.some.inj hstep
      exact phoneMove_other rfl rfl
    · obtain rfl : _ = t' := Option.some.inj hstep
      refine phoneMove_other rfl ?_
      split <;> rfl

/-- What a run has made of the phones, where every action on them is safe. -/
theorem follows_of_run (hrun : run (State.step values) (.start disk) as = some t)
    (hsafe : Meets (State.step values) PhonesSafe (.start disk) as) :
    t.server.phones.Follows mapFormat disk.phone (contacts disk as) ∧
      Told c (fun _ => True) [] t := by
  refine run_induction (I := fun as t => Meets (State.step values) PhonesSafe (.start disk) as →
    t.server.phones.Follows mapFormat disk.phone (contacts disk as) ∧
      Told c (fun _ => True) [] t) ?_ ?_ hrun hsafe
  · intro _
    exact ⟨Saved.follows_start, fun _ _ => trivial, List.forall_mem_nil _, [], rfl, by simp⟩
  · intro as t a t' hrun ih hstep hsafe
    obtain ⟨hbefore, ha⟩ := (meets_concat hrun).mp hsafe
    obtain ⟨hfollows, htold⟩ := ih hbefore
    exact ⟨(phoneMove_step htold hstep).follows hfollows ha, htold.step (fun _ _ => trivial) hstep⟩

end SmartDoor.Router.Settings
