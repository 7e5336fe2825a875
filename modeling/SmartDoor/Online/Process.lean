-- SUMMARY: The process of online.js: the value handler together with the sockets it opens, and the command that each call of applyService belongs to.
import SmartDoor.Online.Attempts
import SmartDoor.Online.Steps

/-!
# The process of `online.js`

The handler of the door node calls `applyService` while it runs; what becomes of
the sockets afterwards is interleaved with later runs of the handler in any way.
A call belongs to the command that was dispatched last when it was made. No run
dispatches between a command and the calls of its branch, so each call has the
arguments its command asks for, and no command calls one service twice.
-/

namespace SmartDoor.Online

variable {C : Type}

/-- The value handler's side of the script, and its sockets. -/
structure Process (C : Type) where
  node : State C
  sockets : Sockets
  deriving DecidableEq, Repr

inductive ProcessAction (C : Type) where
  | node (a : Action C)
  | socket (a : ServiceAction)
  deriving DecidableEq, Repr

/-- What an event of the handler does to the sockets. -/
def Sockets.follow (cfg : DoorConfig) (s : Sockets) : Event C → Sockets
  | .dispatched command _ => { s with dispatched := s.dispatched ++ [command] }
  | .applied service mode emergency => s.applyService cfg service mode emergency
  | _ => s

namespace Process

def init : Process C := ⟨.init, .init⟩

/-- A move of the handler with what it asks of the sockets, or of one socket. -/
def step [DecidableEq C] (cfg : DoorConfig) (nameOf : C → String) (s : Process C) :
    ProcessAction C → Option (Process C)
  | .node a => (s.node.step cfg nameOf a).map fun node =>
    ⟨node, (node.trace.drop s.node.trace.length).foldl (Sockets.follow cfg) s.sockets⟩
  | .socket (.dispatch _) => none
  | .socket a => (s.sockets.step cfg a).map fun sockets => { s with sockets := sockets }

/-- The `writecom` behind the `i`th call: the stamp of the command it was made for. -/
def origin (s : Process C) (i : Nat) : Nat :=
  ((s.sockets.calls[i]?.bind fun call =>
    (s.node.trace.filterMap Event.pick?)[call.issued]?)).getD 0

end Process

/-! ## Requests -/

/-- What a call was made with; a socket keeps it. -/
structure Request where
  issued : Nat
  service : Service
  mode : String
  emergency : Bool
  deriving DecidableEq, Repr

def Call.request (c : Call) : Request := ⟨c.issued, c.service, c.mode, c.emergency⟩

def Sockets.requests (s : Sockets) : List Request := s.calls.map Call.request

variable {cfg : DoorConfig} {s s' : Sockets}

theorem requests_of_set {i : Nat} {c c' : Call} (hi : s.calls[i]? = some c)
    (hs : s'.calls = s.calls.set i c') (hc : c'.request = c.request) :
    s'.requests = s.requests := by
  rw [Sockets.requests, hs, List.map_set, hc]
  exact Lists.set_eq_self (by rw [List.getElem?_map, hi]; rfl)

/-- The moves of the sockets make no calls. -/
theorem requests_of_step {a : ServiceAction} (ha : ∀ command, a ≠ .dispatch command)
    (h : s.step cfg a = some s') : s'.requests = s.requests ∧ s'.dispatched = s.dispatched := by
  cases a with
  | dispatch command => exact absurd rfl (ha command)
  | connected i | refused i | data i | broken i | timeout i =>
    obtain ⟨c, hi, -, rfl⟩ := onCall_eq_some.mp h
    exact ⟨requests_of_set hi rfl rfl, rfl⟩

/-- The arguments of a command's request. -/
def Request.args (r : Request) : Service × String × Bool := (r.service, r.mode, r.emergency)

/-- Two requests of one command go to different services. -/
def Request.Apart (r r' : Request) : Prop := r.issued = r'.issued → r.service ≠ r'.service

/-- Each call was made for a command dispatched before, with arguments the command
asks for, and no other call of the command goes to its service. -/
structure Made (cfg : DoorConfig) (s : Sockets) : Prop where
  asked : ∀ r ∈ s.requests, ∃ command, s.dispatched[r.issued]? = some command ∧
    r.args ∈ applied cfg command
  apart : s.requests.Pairwise Request.Apart

/-- The calls that are left of a branch: the last command asks for them, and has
not called their services before. -/
structure Owed (cfg : DoorConfig) (s : Sockets) (calls : List (Service × String × Bool)) :
    Prop where
  asked : ∃ command, s.dispatched.getLast? = some command ∧ calls <:+ applied cfg command
  fresh : ∀ r ∈ s.requests, r.issued + 1 = s.dispatched.length → r.service ∉ calls.map (·.1)

/-- No command calls one service twice. -/
theorem applied_nodup (cfg : DoorConfig) (command : Command) :
    ((applied cfg command).map (·.1)).Nodup := by
  cases command <;> simp only [applied, branch] <;>
    cases cfg.motorService <;> cases cfg.alarmService <;> cases cfg.notificationService <;>
    decide

theorem Made.issued_lt (h : Made cfg s) {r : Request} (hr : r ∈ s.requests) :
    r.issued < s.dispatched.length := by
  obtain ⟨command, hc, -⟩ := h.asked r hr
  exact (List.getElem?_eq_some_iff.mp hc).1

/-- A command is dispatched: it has made no calls yet, and asks for all of its own. -/
theorem Made.dispatch (h : Made cfg s) (command : Command) :
    Made cfg { s with dispatched := s.dispatched ++ [command] } ∧
      Owed cfg { s with dispatched := s.dispatched ++ [command] } (applied cfg command) := by
  refine ⟨⟨fun r hr => ?_, h.apart⟩, ⟨command, by simp, List.suffix_refl _⟩, fun r hr hlast => ?_⟩
  · obtain ⟨d, hd, hargs⟩ := h.asked r hr
    refine ⟨d, ?_, hargs⟩
    rw [List.getElem?_append_left (h.issued_lt hr), hd]
  · have hlt := h.issued_lt hr
    simp only [List.length_append, List.length_singleton] at hlast
    omega

/-- The next call of a branch is made. -/
theorem Made.applyService (h : Made cfg s) {service : Service} {mode : String}
    {emergency : Bool} {calls : List (Service × String × Bool)}
    (howed : Owed cfg s ((service, mode, emergency) :: calls)) :
    Made cfg (s.applyService cfg service mode emergency) ∧
      Owed cfg (s.applyService cfg service mode emergency) calls := by
  obtain ⟨⟨command, hlast, hsuffix⟩, hfresh⟩ := howed
  have htail : calls <:+ applied cfg command := (List.suffix_cons _ _).trans hsuffix
  have hnodup : service ∉ calls.map (·.1) := by
    have hall := (hsuffix.map (·.1)).sublist.nodup (applied_nodup cfg command)
    exact (List.nodup_cons.mp hall).1
  have hissued : s.dispatched[s.dispatched.length - 1]? = some command := by
    rw [← List.getLast?_eq_getElem?, hlast]
  have hlen : s.dispatched.length - 1 + 1 = s.dispatched.length := by
    have hlt := (List.getElem?_eq_some_iff.mp hissued).1
    omega
  have hold : ∀ r ∈ s.requests, r.issued + 1 = s.dispatched.length →
      r.service ≠ service ∧ r.service ∉ calls.map (·.1) := by
    intro r hr hi
    simpa using hfresh r hr hi
  unfold Sockets.applyService
  dsimp only
  split
  · exact ⟨⟨h.asked, h.apart⟩, ⟨command, hlast, htail⟩, fun r hr hi => (hold r hr hi).2⟩
  · -- the new call is the last one
    have hrequests (r : Request) : r ∈ s.requests ++
        [⟨s.dispatched.length - 1, service, mode, emergency⟩] ↔
        r ∈ s.requests ∨ r = ⟨s.dispatched.length - 1, service, mode, emergency⟩ := by simp
    refine ⟨⟨fun r hr => ?_, ?_⟩, ⟨command, hlast, htail⟩, fun r hr hi => ?_⟩
    · simp only [Sockets.requests, List.map_append] at hr
      rcases (hrequests r).mp hr with hr | rfl
      · exact h.asked r hr
      · exact ⟨command, hissued, hsuffix.subset List.mem_cons_self⟩
    · simp only [Sockets.requests, List.map_append]
      refine List.pairwise_append.mpr ⟨h.apart, List.pairwise_singleton _ _, ?_⟩
      intro r hr r' hr' heq
      obtain rfl := List.mem_singleton.mp hr'
      exact (hold r hr (by rw [heq]; exact hlen)).1
    · simp only [Sockets.requests, List.map_append] at hr
      rcases (hrequests r).mp hr with hr | rfl
      · exact (hold r hr hi).2
      · exact hnodup

theorem Made.of_requests (h : Made cfg s) (hrequests : s'.requests = s.requests)
    (hdispatched : s'.dispatched = s.dispatched) : Made cfg s' := by
  refine ⟨?_, hrequests ▸ h.apart⟩
  rw [hrequests, hdispatched]
  exact h.asked

theorem Owed.of_requests {calls : List (Service × String × Bool)} (h : Owed cfg s calls)
    (hrequests : s'.requests = s.requests) (hdispatched : s'.dispatched = s.dispatched) :
    Owed cfg s' calls := by
  refine ⟨by rw [hdispatched]; exact h.asked, ?_⟩
  rw [hrequests, hdispatched]
  exact h.fresh

/-! ## The plan of a run -/

/-- What a run of the handler has still to do. -/
inductive Plan (cfg : DoorConfig) (s : Sockets) : List Effect → Prop
  | start (snapshot : Snapshot) : Plan cfg s (handler cfg snapshot)
  | ready (snapshot : Snapshot) (command : Command) :
    Plan cfg s (.dispatch command :: branch cfg snapshot command)
  | going {rest : List Effect} (hdispatch : ∀ command, .dispatch command ∉ rest)
    (howed : rest.filterMap Effect.call? = [] ∨ Owed cfg s (rest.filterMap Effect.call?)) :
    Plan cfg s rest

theorem plan_nil : Plan cfg s [] := .going (by simp) (.inl rfl)

theorem Plan.of_requests {rest : List Effect} (h : Plan cfg s rest)
    (hrequests : s'.requests = s.requests) (hdispatched : s'.dispatched = s.dispatched) :
    Plan cfg s' rest := by
  cases h with
  | start snapshot => exact .start snapshot
  | ready snapshot command => exact .ready snapshot command
  | going hdispatch howed =>
    exact .going hdispatch (howed.imp_right fun h => h.of_requests hrequests hdispatched)

theorem Made.follow_of_going {e : Effect} {rest : List Effect} {stamp : Nat} (hmade : Made cfg s)
    (hdispatch : ∀ command, .dispatch command ∉ e :: rest)
    (howed : (e :: rest).filterMap Effect.call? = [] ∨
      Owed cfg s ((e :: rest).filterMap Effect.call?)) :
    Made cfg ((e.event? (C := C) stamp).toList.foldl (Sockets.follow cfg) s) ∧
      Plan cfg ((e.event? (C := C) stamp).toList.foldl (Sockets.follow cfg) s) rest := by
  have hrest : ∀ command, .dispatch command ∉ rest := fun c hc => hdispatch c (.tail e hc)
  cases e with
  | dispatch command => exact absurd List.mem_cons_self (hdispatch command)
  | applyService service mode emergency =>
    have hcalls : (Effect.applyService service mode emergency :: rest).filterMap Effect.call? =
        (service, mode, emergency) :: rest.filterMap Effect.call? := rfl
    rw [hcalls] at howed
    obtain ⟨hmade', howed'⟩ := hmade.applyService (howed.resolve_left (List.cons_ne_nil _ _))
    exact ⟨hmade', .going hrest (.inr howed')⟩
  | set | storeLog | sendnotification => exact ⟨hmade, .going hrest howed⟩

/-- An effect of a plan leaves a plan behind, and the sockets follow it. -/
theorem Plan.perform {e : Effect} {rest : List Effect} (stamp : Nat) (hmade : Made cfg s)
    (h : Plan cfg s (e :: rest)) :
    Made cfg ((e.event? (C := C) stamp).toList.foldl (Sockets.follow cfg) s) ∧
      Plan cfg ((e.event? (C := C) stamp).toList.foldl (Sockets.follow cfg) s) rest := by
  generalize hplan : e :: rest = plan at h
  cases h with
  | start snapshot =>
    have hnull : snapshot.todo ≠ some "null" := by
      intro hnull
      rw [handler_of_null hnull] at hplan
      exact List.cons_ne_nil e rest hplan
    obtain ⟨rest', hhandler, hrest⟩ := handler_cases cfg hnull
    obtain ⟨rfl, rfl⟩ := List.cons.inj (hplan.trans hhandler)
    rcases hrest with rfl | ⟨command, -, rfl⟩
    · exact ⟨hmade, plan_nil⟩
    · exact ⟨hmade, .ready snapshot command⟩
  | ready snapshot command =>
    obtain ⟨rfl, rfl⟩ := List.cons.inj hplan
    obtain ⟨hmade', howed⟩ := hmade.dispatch command
    refine ⟨hmade', .going (fun c hc => (of_mem_branch hc).1 c rfl) (.inr ?_)⟩
    rw [applied_eq cfg snapshot command]
    exact howed
  | going hdispatch howed =>
    subst hplan
    exact hmade.follow_of_going hdispatch howed

/-! ## Steps of the handler -/

/-- An event that the sockets follow. -/
def Event.Followed (e : Event C) : Prop :=
  (∃ command stamp, e = .dispatched command stamp) ∨
    ∃ service mode emergency, e = .applied service mode emergency

theorem follow_of_not_followed {e : Event C} (h : ¬ e.Followed) : s.follow cfg e = s := by
  cases e with
  | dispatched command stamp => exact absurd (.inl ⟨command, stamp, rfl⟩) h
  | applied service mode emergency => exact absurd (.inr ⟨service, mode, emergency, rfl⟩) h
  | wrote | handed | logged | notified => rfl

variable [DecidableEq C] {nameOf : C → String} {t t' : State C}

/-- A step performs an effect of the run in progress, or it leaves nothing that the
sockets follow and at most begins a run of the handler or of a timer. -/
theorem node_cases {a : Action C} (h : Inv cfg t) (hstep : t.step cfg nameOf a = some t') :
    (∃ stamp e rest, Performs t t' stamp e rest) ∨
    (∃ events, t'.trace = t.trace ++ events ∧ ∀ e ∈ events, ¬ e.Followed) ∧
      ∀ f ∈ t'.stack, f ∈ t.stack ∨ (∃ snapshot, f.rest = handler cfg snapshot) ∨
        ∀ e ∈ f.rest, ∃ path value, e = .set path value := by
  cases a with
  | writecom c command =>
    obtain rfl : _ = t' := Option.some.inj hstep
    exact .inr ⟨⟨_, rfl, by simp [Event.Followed]⟩, fun f hf => .inl hf⟩
  | service name path value =>
    simp only [State.step] at hstep
    split at hstep
    · cases hstep
    · obtain rfl : _ = t' := Option.some.inj hstep
      exact .inr ⟨⟨[], by simp, by simp⟩, fun f hf => .inl hf⟩
  | land i =>
    simp only [State.step] at hstep
    split at hstep
    · cases hstep
    · obtain rfl : _ = t' := Option.some.inj hstep
      exact .inr ⟨⟨[], by simp, by simp⟩, fun f hf => .inl hf⟩
  | skip i =>
    simp only [State.step] at hstep
    split at hstep
    · obtain rfl : _ = t' := Option.some.inj hstep
      exact .inr ⟨⟨[], by simp, by simp⟩, fun f hf => .inl hf⟩
    · cases hstep
  | deliver =>
    simp only [State.step] at hstep
    split at hstep
    · next n down hstack hdown =>
      obtain rfl : _ = t' := Option.some.inj hstep
      refine .inr ⟨⟨[.handed n], rfl, by simp [Event.Followed]⟩, fun f hf => .inr (.inl ?_)⟩
      obtain rfl := List.mem_singleton.mp hf
      exact ⟨_, rfl⟩
    · cases hstep
  | exec now =>
    rcases exec_cases h hstep with ⟨f, -, hstack, heq⟩ | hp
    · refine .inr ⟨⟨[], by rw [heq]; simp, by simp⟩, fun g hg => .inl ?_⟩
      rw [hstack]
      exact List.mem_cons_of_mem f hg
    · exact .inl hp
  | beat now =>
    simp only [State.step] at hstep
    split at hstep
    · obtain rfl : _ = t' := Option.some.inj hstep
      exact .inr ⟨⟨[], by simp, by simp⟩, fun f hf => .inr (.inr (by simp_all))⟩
    · cases hstep
  | lanip data =>
    simp only [State.step] at hstep
    split at hstep
    · obtain rfl : _ = t' := Option.some.inj hstep
      exact .inr ⟨⟨[], by simp, by simp⟩, fun f hf => .inr (.inr (by simp_all))⟩
    · cases hstep

/-! ## Every run -/

/-- The command and the stamp of a dispatch. -/
def Event.dispatch? : Event C → Option (Command × Nat)
  | .dispatched command stamp => some (command, stamp)
  | _ => none

variable {p p' : Process C}

/-- What holds in every reachable state of the process. -/
structure Process.Inv (cfg : DoorConfig) (p : Process C) : Prop where
  node : Online.Inv cfg p.node
  dispatched : p.sockets.dispatched = (p.node.trace.filterMap Event.dispatch?).map (·.1)
  made : Made cfg p.sockets
  plan : ∀ f ∈ p.node.stack, Plan cfg p.sockets f.rest

omit [DecidableEq C] in
theorem follow_dispatched (events : List (Event C)) (s : Sockets) :
    (events.foldl (Sockets.follow cfg) s).dispatched =
      s.dispatched ++ (events.filterMap Event.dispatch?).map (·.1) := by
  induction events generalizing s with
  | nil => simp
  | cons e events ih =>
    rw [List.foldl_cons, ih]
    cases e with
    | dispatched command stamp => simp [Sockets.follow, Event.dispatch?]
    | applied service mode emergency =>
      have hsame : (s.applyService cfg service mode emergency).dispatched = s.dispatched := by
        unfold Sockets.applyService
        dsimp only
        split <;> rfl
      simp [Sockets.follow, Event.dispatch?, hsame, List.filterMap_cons]
    | wrote | handed | logged | notified =>
      simp [Sockets.follow, Event.dispatch?, List.filterMap_cons]

omit [DecidableEq C] in
theorem follow_of_forall {events : List (Event C)} (h : ∀ e ∈ events, ¬ e.Followed) :
    events.foldl (Sockets.follow cfg) s = s := by
  induction events with
  | nil => rfl
  | cons e events ih =>
    rw [List.foldl_cons, follow_of_not_followed (h e List.mem_cons_self)]
    exact ih fun x hx => h x (List.mem_cons_of_mem e hx)

omit [DecidableEq C] in
/-- The calls that follow events are new ones. -/
theorem follow_calls (cfg : DoorConfig) (events : List (Event C)) (s : Sockets) :
    ∃ new, (events.foldl (Sockets.follow cfg) s).calls = s.calls ++ new ∧ ∀ c ∈ new, New c := by
  induction events generalizing s with
  | nil => exact ⟨[], by simp, by simp⟩
  | cons e events ih =>
    obtain ⟨new, hnew, hfresh⟩ := ih (s.follow cfg e)
    rw [List.foldl_cons, hnew]
    cases e with
    | applied service mode emergency =>
      obtain ⟨-, first, hfirst, hfirst'⟩ := applyService_cases cfg s service mode emergency
      refine ⟨first ++ new, by rw [← List.append_assoc, ← hfirst]; rfl, fun c hc => ?_⟩
      rcases List.mem_append.mp hc with hc | hc
      · exact hfirst' c hc
      · exact hfresh c hc
    | dispatched | wrote | handed | logged | notified => exact ⟨new, rfl, hfresh⟩

/-- A step makes calls and changes none. -/
theorem requests_prefix_of_step {a : ProcessAction C}
    (hstep : p.step cfg nameOf a = some p') : p.sockets.requests <+: p'.sockets.requests := by
  cases a with
  | node a =>
    obtain ⟨node, -, rfl⟩ := Option.map_eq_some_iff.mp hstep
    obtain ⟨new, hnew, -⟩ := follow_calls cfg
      (node.trace.drop p.node.trace.length) p.sockets
    rw [Sockets.requests, Sockets.requests, hnew, List.map_append]
    exact List.prefix_append _ _
  | socket a =>
    cases a with
    | dispatch command => cases hstep
    | connected i | refused i | data i | broken i | timeout i =>
      obtain ⟨sockets, hsockets, rfl⟩ := Option.map_eq_some_iff.mp hstep
      exact (requests_of_step (by simp) hsockets).1 ▸ List.prefix_refl _

theorem Process.Inv.node_step {a : Action C} {node : State C} (h : p.Inv cfg)
    (hstep : p.node.step cfg nameOf a = some node) :
    Process.Inv cfg ⟨node, (node.trace.drop p.node.trace.length).foldl (Sockets.follow cfg)
      p.sockets⟩ := by
  have hdispatched : ∀ {events}, node.trace = p.node.trace ++ events →
      (events.foldl (Sockets.follow cfg) p.sockets).dispatched =
        (node.trace.filterMap Event.dispatch?).map (·.1) := by
    intro events htrace
    rw [follow_dispatched, h.dispatched, htrace, List.filterMap_append, List.map_append]
  rcases node_cases h.node hstep with ⟨stamp, e, rest, hp⟩ | ⟨⟨events, htrace, hfollow⟩, hstack⟩
  · have hplan : Plan cfg p.sockets (e :: rest) := h.plan ⟨stamp, e :: rest⟩ (by simp [hp.before])
    obtain ⟨hmade, hrest⟩ := hplan.perform (C := C) stamp h.made
    rw [hp.trace, List.drop_left]
    refine ⟨h.node.step hstep, hdispatched hp.trace, hmade, fun f hf => ?_⟩
    rcases hp.after f hf with rfl | hnil
    · exact hrest
    · rw [hnil]
      exact plan_nil
  · rw [htrace, List.drop_left]
    refine ⟨h.node.step hstep, hdispatched htrace, ?_, fun f hf => ?_⟩
    · rw [follow_of_forall hfollow]
      exact h.made
    · rw [follow_of_forall hfollow]
      rcases hstack f hf with hf | ⟨snapshot, hrun⟩ | hsets
      · exact h.plan f hf
      · rw [hrun]
        exact .start snapshot
      · refine .going (fun command hmem => ?_) (.inl ?_)
        · obtain ⟨path, value, heq⟩ := hsets _ hmem
          cases heq
        · rw [List.filterMap_eq_nil_iff]
          intro e he
          obtain ⟨path, value, rfl⟩ := hsets e he
          rfl

theorem Process.Inv.step {a : ProcessAction C} (h : p.Inv cfg)
    (hstep : p.step cfg nameOf a = some p') : p'.Inv cfg := by
  have hsocket : ∀ {a : ServiceAction}, (∀ command, a ≠ .dispatch command) →
      (p.sockets.step cfg a).map (fun sockets => { p with sockets := sockets }) = some p' →
      p'.Inv cfg := by
    intro a ha hmap
    obtain ⟨sockets, hsockets, rfl⟩ := Option.map_eq_some_iff.mp hmap
    obtain ⟨hrequests, hdispatched⟩ := requests_of_step ha hsockets
    exact ⟨h.node, hdispatched.trans h.dispatched, h.made.of_requests hrequests hdispatched,
      fun f hf => (h.plan f hf).of_requests hrequests hdispatched⟩
  cases a with
  | node a =>
    obtain ⟨node, hnode, rfl⟩ := Option.map_eq_some_iff.mp hstep
    exact h.node_step hnode
  | socket a =>
    cases a with
    | dispatch command => cases hstep
    | connected i | refused i | data i | broken i | timeout i => exact hsocket (by simp) hstep

theorem Process.Inv.init : Process.Inv (C := C) cfg .init where
  node := .init
  dispatched := rfl
  made := ⟨by simp [Process.init, Sockets.requests, Sockets.init],
    by simp [Process.init, Sockets.requests, Sockets.init]⟩
  plan := by simp [Process.init, State.init]

/-! ## Where a call comes from -/

omit [DecidableEq C] in
theorem pick?_eq_dispatch? : (Event.pick? : Event C → Option Nat) =
    fun e => e.dispatch?.map (·.2) := by
  funext e
  cases e <;> rfl

/-- A call has the stamp of the dispatch it was issued for. -/
theorem Process.Inv.origin_eq (h : p.Inv cfg) {i : Nat} {call : Call}
    (hi : p.sockets.calls[i]? = some call) :
    ∃ command, call.request.args ∈ applied cfg command ∧
      (p.node.trace.filterMap Event.dispatch?)[call.issued]? = some (command, p.origin i) := by
  have hmem : call.request ∈ p.sockets.requests :=
    List.mem_map.mpr ⟨call, List.mem_of_getElem? hi, rfl⟩
  obtain ⟨command, hcommand, hargs⟩ := h.made.asked _ hmem
  rw [h.dispatched, List.getElem?_map] at hcommand
  obtain ⟨⟨command, stamp⟩, hdispatch, rfl⟩ := Option.map_eq_some_iff.mp hcommand
  have hpick : (p.node.trace.filterMap Event.pick?)[call.issued]? = some stamp := by
    rw [pick?_eq_dispatch?, ← List.map_filterMap, List.getElem?_map]
    exact congrArg _ hdispatch
  have horigin : p.origin i = stamp := by simp [Process.origin, hi, hpick]
  exact ⟨command, hargs, by rw [horigin]; exact hdispatch⟩

/-- Every call was made for a command that a client wrote. -/
theorem Process.Inv.origin (h : p.Inv cfg) {i : Nat} {call : Call}
    (hi : p.sockets.calls[i]? = some call) :
    ∃ command : Command, (∃ c, p.node.trace[p.origin i]? = some (.wrote c command.text)) ∧
      call.request.args ∈ applied cfg command := by
  obtain ⟨command, hargs, hdispatch⟩ := h.origin_eq hi
  obtain ⟨e, he, hdisp⟩ := List.mem_filterMap.mp (List.mem_of_getElem? hdispatch)
  have hevent : e = .dispatched command (p.origin i) := by
    cases e <;> simp_all [Event.dispatch?]
  obtain ⟨k, hk⟩ := List.mem_iff_getElem?.mp (hevent ▸ he)
  obtain ⟨-, hwrote⟩ := h.node.dispatches.caused k (p.origin i) command hk
  exact ⟨command, hwrote, hargs⟩

/-- Two calls to one service come from two calls of `writecom`. -/
theorem Process.Inv.origin_injective (h : p.Inv cfg) {i j : Nat} {c d : Call}
    (hi : p.sockets.calls[i]? = some c) (hj : p.sockets.calls[j]? = some d)
    (hservice : c.service = d.service) (horigin : p.origin i = p.origin j) : i = j := by
  obtain ⟨_, -, hci⟩ := h.origin_eq hi
  obtain ⟨_, -, hdj⟩ := h.origin_eq hj
  have honce : (p.node.trace.filterMap Event.dispatch?).Pairwise fun x y => x.2 ≠ y.2 := by
    refine List.pairwise_filterMap.mpr (h.node.dispatches.once.imp ?_)
    intro e e' hne x hx y hy heq
    simp only [pick?_eq_dispatch?] at hne
    exact hne x.2 (by rw [hx]; rfl) (by rw [hy, heq]; rfl)
  -- the stamps tell the dispatches apart, so both calls were issued for one of them
  have hissued : c.issued = d.issued := by
    obtain ⟨hlt, hgc⟩ := List.getElem?_eq_some_iff.mp hci
    obtain ⟨hlt', hgd⟩ := List.getElem?_eq_some_iff.mp hdj
    rw [List.pairwise_iff_getElem] at honce
    rcases Nat.lt_trichotomy c.issued d.issued with hlt₂ | heq | hlt₂
    · exact absurd (by rw [hgc, hgd]; exact horigin) (honce _ _ hlt hlt' hlt₂)
    · exact heq
    · exact absurd (by rw [hgc, hgd]; exact horigin.symm) (honce _ _ hlt' hlt hlt₂)
  have hapart := List.pairwise_iff_getElem.mp (List.pairwise_map.mp h.made.apart)
  obtain ⟨hlt, hgi⟩ := List.getElem?_eq_some_iff.mp hi
  obtain ⟨hlt', hgj⟩ := List.getElem?_eq_some_iff.mp hj
  rcases Nat.lt_trichotomy i j with hij | rfl | hij
  · exact absurd (by rw [hgi, hgj]; exact hservice)
      (hapart i j hlt hlt' hij (by rw [hgi, hgj]; exact hissued))
  · rfl
  · exact absurd (by rw [hgi, hgj]; exact hservice.symm)
      (hapart j i hlt' hlt hij (by rw [hgi, hgj]; exact hissued.symm))

end SmartDoor.Online
