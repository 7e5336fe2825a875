-- SUMMARY: The pages that share notes through the router, and when a page that holds old notes is told so.
import SmartDoor.Router.Server
import Mathlib

/-!
# Shared notes

Every page of `pages.js` holds a copy of the notes with a time: that of the click
that posted it, or of the arrival of the copy. The router keeps the time of the
click whose post it accepted last. Requests and answers are in flight as long as
they like; the clock is the same everywhere.
-/

namespace SmartDoor.Router.Notes

open Transition

/-! ## The pages -/

/-- The test `Object.keys(memos).length == 0`; of `null` it throws. -/
def noKeys : Json → Bool
  | .obj props => props.isEmpty
  | .arr elems => elems.isEmpty
  | .str s => s.isEmpty
  | .bool _ => true
  | .num _ => true
  | .null => false

structure Client where
  memos : Json
  memlastupdate : Nat
  /-- Whether the warning is visible; `none` once the user has closed it. -/
  warning : Option Bool
  /-- How many posts had been accepted when the copy was served or posted; no code
  can see it. -/
  since : Nat

/-- The page is loaded. -/
def Client.init : Client := ⟨.obj [], 0, some true, 0⟩

/-- The notes of the form: the texts whose box is checked. -/
def collect (boxes : List (Bool × String)) : Json :=
  .obj ((boxes.zipIdx.filter (·.1.1)).map fun box => (box.2.repr, .str box.1.2))

/-- `serverlastupdate > memlastupdate`, where the former is a string of digits. -/
def newer (serverlastupdate : Option Field) (memlastupdate : Nat) : Bool :=
  match serverlastupdate with
  | some (.one s) => s.toNat?.any (memlastupdate < ·)
  | _ => false

/-- The answer to `GET updatememos`. Before the first post it is a number, which
`send` takes as a status, and no success. -/
def Client.onLastupdate (client : Client) (serverlastupdate : Option Field) : Client :=
  if newer serverlastupdate client.memlastupdate then
    { client with warning := client.warning.map fun _ => true }
  else client

/-- The answer to `GET static/db/notes.db`; `JSON.parse` throws on an empty one. -/
def Client.onNotes (client : Client) (now : Nat) (data : Content Json) (since : Nat) : Client :=
  match data with
  | .missing => client
  | .blank => { client with memlastupdate := now }
  | .text memos =>
      { memos := memos, memlastupdate := now, warning := client.warning.map fun _ => false,
        since := since }

/-! ## The network -/

variable {C : Type}

/-- A post of notes, by the time of its click. -/
structure Post (C : Type) where
  client : C
  data : Json
  clicked : Nat

/-- The field `lastupdate` of a post. -/
def Post.lastupdate (p : Post C) : Field := .one p.clicked.repr

/-- The posts accepted and the notes held when a request was served. -/
structure Served (C : Type) where
  accepted : List (Post C)
  memos : Json

inductive Message (C : Type) where
  | post (p : Post C)
  | askLastupdate (c : C)
  /-- With what no code can see, the state it was served in. -/
  | lastupdate (c : C) (value : Option Field) (served : Served C)
  | askNotes (c : C)
  | notes (c : C) (data : Content Json) (since : Nat)

structure State (C : Type) where
  now : Nat
  server : Server
  clients : C → Client
  flight : List (Message C)
  accepted : List (Post C)
  /-- The clicks and the arrivals of notes, with their times. -/
  trace : List (C × Nat)

inductive Action (C : Type) where
  | wait (ms : Nat)
  /-- The user clicks Update with this form. -/
  | updatemems (c : C) (boxes : List (Bool × String))
  | refsite (c : C)
  /-- The user closes the warning. -/
  | close (c : C)
  /-- The `i`th message in flight arrives. -/
  | deliver (i : Nat)
  /-- The initial reading of `notes.db` completes. -/
  | read
  /-- The `i`th pending write of `notes.db` completes. -/
  | written (i : Nat)

namespace State

variable [DecidableEq C]

def start (disk : Disk) : State C where
  now := 0
  server := .start disk
  clients _ := .init
  flight := []
  accepted := []
  trace := []

def send (t : State C) (m : Message C) : State C := { t with flight := t.flight ++ [m] }

def update (t : State C) (c : C) (f : Client → Client) : State C :=
  { t with clients := Function.update t.clients c (f (t.clients c)) }

/-- A time the client `c` will compare with. -/
def mark (t : State C) (c : C) : State C := { t with trace := t.trace ++ [(c, t.now)] }

def updatemems (t : State C) (c : C) (boxes : List (Bool × String)) : State C :=
  let memos := collect boxes
  ((t.update c fun client =>
      { client with memos := memos, memlastupdate := t.now, since := t.accepted.length }).mark
    c).send (.post ⟨c, memos, t.now⟩)

/-- The requests about the notes; the others do not touch them. -/
def refsite (t : State C) (c : C) : State C :=
  if noKeys (t.clients c).memos then (t.send (.askLastupdate c)).send (.askNotes c)
  else t.send (.askLastupdate c)

/-- A message arrives, at the router or at a page. -/
def receive (t : State C) : Message C → State C
  | .post p =>
      { t with server := (t.server.handle true (.updatememos (some p.data) p.lastupdate)).1
               accepted := t.accepted ++ [p] }
  | .askLastupdate c =>
      t.send (.lastupdate c t.server.memlastupdate ⟨t.accepted, t.server.memos.memory⟩)
  | .lastupdate c value _ => t.update c fun client => client.onLastupdate value
  -- the file that is served is the one the router writes
  | .askNotes c => t.send (.notes c t.server.memos.disk t.accepted.length)
  | .notes _ .missing _ => t
  | .notes c data since => (t.update c fun client => client.onNotes t.now data since).mark c

def step (t : State C) : Action C → Option (State C)
  | .wait ms => some { t with now := t.now + ms }
  | .updatemems c boxes => some (t.updatemems c boxes)
  | .refsite c => some (t.refsite c)
  | .close c => some (t.update c fun client => { client with warning := none })
  | .deliver i => t.flight[i]?.map { t with flight := t.flight.eraseIdx i }.receive
  | .read => (t.server.step (.read .notes)).map fun server => { t with server := server }
  | .written i => (t.server.step (.written .notes i)).map fun server => { t with server := server }

end State

/-! ## The times that are compared -/

variable [DecidableEq C]

/-- The time of the last click of `c`, or arrival of notes at `c`. -/
def heldSince (trace : List (C × Nat)) (c : C) : Nat :=
  ((trace.filter (·.1 = c)).getLast?.map (·.2)).getD 0

theorem heldSince_concat {trace : List (C × Nat)} {c d : C} {now : Nat} :
    heldSince (trace ++ [(d, now)]) c = if d = c then now else heldSince trace c := by
  unfold heldSince
  split
  · next h => simp [h]
  · next h => simp [h]

omit [DecidableEq C] in
/-- The strings compare as the times they stand for. -/
theorem newer_lastupdate {p : Post C} {memlastupdate : Nat} :
    newer (some p.lastupdate) memlastupdate ↔ memlastupdate < p.clicked := by
  simp [newer, Post.lastupdate, Nat.toNat?_repr]

theorem onLastupdate_memlastupdate {client : Client} {value : Option Field} :
    (client.onLastupdate value).memlastupdate = client.memlastupdate := by
  unfold Client.onLastupdate
  split
  · rfl
  · rfl

/-- What the variables say about the posts and the trace. -/
structure Inv (t : State C) : Prop where
  server : t.server.memlastupdate = t.accepted.getLast?.map Post.lastupdate
  answers : ∀ c value served, .lastupdate c value served ∈ t.flight →
    value = served.accepted.getLast?.map Post.lastupdate
  held : ∀ c, (t.clients c).memlastupdate = heldSince t.trace c

variable {t t' : State C} {m : Message C} {c : C}

theorem inv_start {disk : Disk} : Inv (State.start disk : State C) where
  server := rfl
  answers c value served h := by cases h
  held c := rfl

/-- A message that says nothing about the time of the last post. -/
theorem Inv.send (h : Inv t) (hm : ∀ c value served, m = .lastupdate c value served →
    value = served.accepted.getLast?.map Post.lastupdate) : Inv (t.send m) where
  server := h.server
  answers c value served hmem := by
    rcases List.mem_append.mp hmem with hmem | hmem
    · exact h.answers c value served hmem
    · exact hm c value served (List.mem_singleton.mp hmem).symm
  held := h.held

/-- A client changes, but not the time it compares with. -/
theorem Inv.update {f : Client → Client} (h : Inv t)
    (hf : (f (t.clients c)).memlastupdate = (t.clients c).memlastupdate) : Inv (t.update c f) where
  server := h.server
  answers := h.answers
  held d := by
    by_cases hd : d = c
    · subst hd
      simpa [State.update, hf] using h.held d
    · simpa [State.update, hd] using h.held d

/-- A client compares with the present time from now on. -/
theorem Inv.updateMark {f : Client → Client} (h : Inv t)
    (hf : (f (t.clients c)).memlastupdate = t.now) : Inv ((t.update c f).mark c) where
  server := h.server
  answers := h.answers
  held d := by
    simp only [State.mark, heldSince_concat]
    by_cases hd : d = c
    · subst hd
      simpa [State.update] using hf
    · simpa [State.update, hd, Ne.symm hd] using h.held d

theorem Inv.receive (h : Inv t) (hm : ∀ c value served, m = .lastupdate c value served →
    value = served.accepted.getLast?.map Post.lastupdate) : Inv (t.receive m) := by
  cases m with
  | post p => exact { h with server := by simp [State.receive, Server.handle, Server.updatememos] }
  | askLastupdate c =>
    refine h.send fun d value served heq => ?_
    cases heq
    exact h.server
  | lastupdate c value served =>
    exact h.update onLastupdate_memlastupdate
  | askNotes c => exact h.send fun d value served heq => by cases heq
  | notes c data since =>
    cases data with
    | missing => exact h
    | blank => exact h.updateMark rfl
    | text memos => exact h.updateMark rfl

theorem Inv.step {a : Action C} (h : Inv t) (hstep : t.step a = some t') : Inv t' := by
  cases a with
  | wait ms =>
    obtain rfl := Option.some.inj hstep
    exact { h with }
  | updatemems c boxes =>
    obtain rfl := Option.some.inj hstep
    exact (h.updateMark rfl).send fun d value served heq => by cases heq
  | refsite c =>
    obtain rfl := Option.some.inj hstep
    unfold State.refsite
    split
    · refine Inv.send (h.send fun d value served heq => ?_) fun d value served heq => ?_
      · cases heq
      · cases heq
    · exact h.send fun d value served heq => by cases heq
  | close c =>
    obtain rfl := Option.some.inj hstep
    exact h.update rfl
  | deliver i =>
    obtain ⟨m, hm, rfl⟩ := Option.map_eq_some_iff.mp hstep
    have herase : Inv { t with flight := t.flight.eraseIdx i } :=
      { h with answers := fun c value served hmem =>
                 h.answers c value served (List.mem_of_mem_eraseIdx hmem) }
    refine herase.receive fun c value served heq => ?_
    exact h.answers c value served (heq ▸ List.mem_of_getElem? hm)
  | read =>
    obtain ⟨server, hserver, rfl⟩ := Option.map_eq_some_iff.mp hstep
    obtain ⟨memos, -, rfl⟩ := Option.map_eq_some_iff.mp hserver
    exact { h with }
  | written i =>
    obtain ⟨server, hserver, rfl⟩ := Option.map_eq_some_iff.mp hstep
    obtain ⟨memos, -, rfl⟩ := Option.map_eq_some_iff.mp hserver
    exact { h with }

theorem inv_of_run {disk : Disk} {as : List (Action C)}
    (hrun : run State.step (State.start disk) as = some t) : Inv t :=
  run_invariant (fun _ _ _ h hstep => h.step hstep) inv_start hrun

/-! ## Old notes -/

/-- The client `c` holds notes that differ from those the router held when it served a
request, because of the post of another client accepted after the copy of `c`. -/
structure Stale (c : C) (client : Client) (served : Served C) : Prop where
  nonempty : noKeys client.memos = false
  differ : client.memos ≠ served.memos
  after : client.since < served.accepted.length
  other : ∀ p ∈ served.accepted.getLast?, p.client ≠ c

omit [DecidableEq C] in
theorem Stale.exists_last {client : Client} {served : Served C} (h : Stale c client served) :
    ∃ p, served.accepted.getLast? = some p := by
  apply Option.isSome_iff_exists.mp
  rw [List.getLast?_isSome]
  intro hnil
  have hafter := h.after
  simp [hnil] at hafter

/-- In the run `as`, from `t` to `t'`, the client `c` is told the time of the last post,
which it asked for in the state `served`. -/
def Refreshes (disk : Disk) (as : List (Action C)) (c : C) (served : Served C)
    (t t' : State C) : Prop :=
  ∃ pre i post value, as = pre ++ .deliver i :: post ∧
    run State.step (State.start disk) pre = some t ∧
    t.flight[i]? = some (.lastupdate c value served) ∧ t.step (.deliver i) = some t'

/-- Whoever holds old notes sees the warning after the next answer. -/
def AlwaysFlagged (disk : Disk) (as : List (Action C)) : Prop :=
  ∀ c served t t', Refreshes disk as c served t t' → Stale c (t.clients c) served →
    (t'.clients c).warning = some true

/-- The answer shows the warning if the last post was clicked after the client's own
last click and arrival. -/
theorem refreshes_warning {disk : Disk} {as : List (Action C)} {served : Served C} {p : Post C}
    (h : Refreshes disk as c served t t') (hp : served.accepted.getLast? = some p) :
    (t'.clients c).warning = some true ↔ (t.clients c).warning = some true ∨
      (t.clients c).warning ≠ none ∧ heldSince t.trace c < p.clicked := by
  obtain ⟨pre, i, post, value, -, hrun, hi, hstep⟩ := h
  have hinv := inv_of_run hrun
  have hvalue := hinv.answers c value served (List.mem_of_getElem? hi)
  rw [hp, Option.map_some] at hvalue
  subst hvalue
  rw [State.step, hi] at hstep
  obtain rfl := Option.some.inj hstep
  simp only [State.receive, State.update, Function.update_self, Client.onLastupdate]
  rw [← hinv.held c]
  split
  · next hnew =>
    rw [newer_lastupdate] at hnew
    cases (t.clients c).warning <;> simp [hnew]
  · next hnew =>
    rw [newer_lastupdate] at hnew
    simp [hnew]

/-- Old notes are always flagged in a run if and only if, whenever a client with old
notes is answered, its warning is visible already, or has not been closed and the
post was clicked after the client's own last click and arrival of notes. -/
theorem always_flagged_iff (disk : Disk) (as : List (Action C)) :
    AlwaysFlagged disk as ↔
      ∀ c served t t', Refreshes disk as c served t t' → Stale c (t.clients c) served →
        (t.clients c).warning = some true ∨
          (t.clients c).warning ≠ none ∧
            ∀ p ∈ served.accepted.getLast?, heldSince t.trace c < p.clicked := by
  constructor
  · intro hflags c served t t' hrefresh hstale
    obtain ⟨p, hp⟩ := hstale.exists_last
    have hwarning := (refreshes_warning hrefresh hp).mp (hflags c served t t' hrefresh hstale)
    simpa [hp] using hwarning
  · intro hclicked c served t t' hrefresh hstale
    obtain ⟨p, hp⟩ := hstale.exists_last
    apply (refreshes_warning hrefresh hp).mpr
    simpa [hp] using hclicked c served t t' hrefresh hstale

/-- The notes of the door before any post. -/
def milk : Disk := { phone := .missing, savedbt := .missing, newbt := .missing,
                     settings := .missing, notes := .text (.obj [("0", .str "milk")]) }

/-- Another client's click is followed by the arrival of a copy that was served before
its post; the next refresh comes after the post. -/
def latePost : List (Action String) :=
  [.read, .wait 10, .updatemems "writer" [(true, "bread")], .refsite "reader",
    -- the reader's requests arrive first
    .deliver 2, .wait 10, .deliver 2, .deliver 1, .deliver 1,
    -- the post arrives, and the reader asks again
    .deliver 0, .refsite "reader", .deliver 0]

/-- The reader holds old notes and is not told. -/
theorem late_post_not_flagged : ¬ AlwaysFlagged milk (latePost ++ [.deliver 0]) := by
  intro hflags
  have hrefresh : ∃ served t t', Refreshes milk (latePost ++ [.deliver 0]) "reader" served t t' ∧
      Stale "reader" (t.clients "reader") served ∧
      served.accepted.getLast? = some ⟨"writer", collect [(true, "bread")], 10⟩ ∧
      (t.clients "reader").warning = some false ∧ heldSince t.trace "reader" = 20 := by
    refine ⟨_, _, _, ⟨latePost, 0, [], _, rfl, rfl, rfl, rfl⟩, ⟨rfl, ?_, ?_, ?_⟩, rfl, rfl, rfl⟩
    · intro heq
      change Json.obj [("0", .str "milk")] = collect [(true, "bread")] at heq
      simp [collect] at heq
    · exact Nat.zero_lt_one
    · intro p hp
      obtain rfl := Option.some.inj hp
      decide
  obtain ⟨served, t, t', hrefresh, hstale, hp, hbefore, hheld⟩ := hrefresh
  have hafter := (refreshes_warning hrefresh hp).mp (hflags _ _ _ _ hrefresh hstale)
  simp [hbefore, hheld] at hafter

end SmartDoor.Router.Notes
