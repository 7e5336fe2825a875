-- SUMMARY: The lock as a web page shows it, from what doorCommand.js and DoorStatusAnalog.js write.
import Mathlib.Algebra.Order.Group.Int
import SmartDoor.Base.Relay
import SmartDoor.House.System
import SmartDoor.Motor.Published
import SmartDoor.Web.Heartbeat

/-!
# The lock on the web page

Two processes write to the door node how the lock stands. `doorCommand.js` writes
`doorstatus` when a movement begins and when it is over, and `DoorStatusAnalog.js`
writes to `doorcurrentstatus`, at every interval, the position that it reads. The
timer of a page makes its door button and its image from both. Between any two
steps the lock may also be turned by hand.
-/

namespace SmartDoor

/-- The string that is written to `doorstatus`. -/
def Motor.DoorStatus.text : Motor.DoorStatus → String
  | .known p => p.text
  | .Unlocking => "Unlocking"
  | .Locking => "Locking"

namespace House

open Motor (DoorStatus)

/-- The lock, the database and one page. `statuses` and `positions` are the writes of the two
children on their way to the database, `down` the snapshots on their way to the page. -/
structure Panel (K M : Type) where
  now : Int
  motor : Motor.Server K
  /-- When `DoorStatusAnalog.js` has had its last interval. -/
  sampled : Int
  statuses : List (DoorStatus × Int)
  positions : List (Position × Int)
  node : Web.Status M
  down : List (Web.Status M × Int)
  page : Web.Main M
  /-- Whether the page has received a snapshot since it was mounted. -/
  heard : Bool

inductive PanelAction (K M : Type) where
  | pass (ms : Nat)
  /-- The lock is turned by hand. -/
  | turn (reading : Int)
  | motor (a : Motor.Action K)
  /-- The interval of `DoorStatusAnalog.js`. -/
  | interval
  /-- The oldest write of a status, or of a position, reaches the database. -/
  | landStatus
  | landPosition
  /-- Another child of the door node is written. -/
  | edit (status : Web.Status M)
  /-- The page skips to the `i`th snapshot. -/
  | snapshot (i : Nat)
  /-- The timer of the page. -/
  | timer
  | mount

namespace Panel

variable {K M : Type} (cfg : DoorConfig) (before : DoorStatus)

/-- What `MotorStatus(1)` returns. -/
def position (s : Panel K M) : Position := cfg.motorStatus 1 s.motor.board.potentiometer

/-- The status that `doorCommand.js` has written last; an earlier run of it wrote `before`. -/
def doorstatus (s : Panel K M) : DoorStatus := s.motor.board.doorstatus.getD before

/-- `doorCommand.js` starts, `DoorStatusAnalog.js` has just had an interval, and a page has
been mounted. The node has the status and the position of earlier runs. -/
def start (now reading : Int) (position : Position) (node : Web.Status M) : Panel K M :=
  let node := { node with
    doorstatus := some before.text
    doorcurrentstatus := some position.text }
  { now := now
    motor := .init cfg reading
    sampled := now
    statuses := []
    positions := [(cfg.motorStatus 1 reading, now)]
    node := node
    down := [(node, now)]
    page := .init
    heard := false }

/-- The axis of the lock gets another place. -/
def turn (reading : Int) (s : Panel K M) : Panel K M :=
  { s with motor := { s.motor with board := { s.motor.board with potentiometer := reading } } }

/-- The listeners are told of the new state of the node. -/
def publish (s : Panel K M) (node : Web.Status M) : Panel K M :=
  { s with node := node, down := s.down ++ [(node, s.now)] }

/-- The statuses that the motor server has logged since the log was `log`. -/
def written (log : List (Motor.Event K)) (motor : Motor.Server K) : List DoorStatus :=
  (motor.board.log.drop log.length).filterMap Motor.Event.doorstatus?

def step [DecidableEq K] (s : Panel K M) : PanelAction K M → Option (Panel K M)
  | .pass ms => some { s with now := s.now + ms }
  | .turn reading => some (s.turn reading)
  | .motor a => (s.motor.step cfg .driven a).map fun motor => { s with
      motor := motor
      statuses := s.statuses ++ (written s.motor.board.log motor).map fun x => (x, s.now) }
  | .interval => some { s with
      sampled := s.now
      positions := s.positions ++ [(s.position cfg, s.now)] }
  | .landStatus =>
    match s.statuses with
    | [] => none
    | (x, _) :: statuses =>
      some ({ s with statuses := statuses }.publish { s.node with doorstatus := some x.text })
  | .landPosition =>
    match s.positions with
    | [] => none
    | (p, _) :: positions =>
      some ({ s with positions := positions }.publish
        { s.node with doorcurrentstatus := some p.text })
  | .edit status => some (s.publish { status with
      doorstatus := s.node.doorstatus
      doorcurrentstatus := s.node.doorcurrentstatus })
  | .snapshot i => s.down[i]?.map fun m =>
    { s with down := s.down.drop (i + 1), page := s.page.onStatus m.1, heard := true }
  | .timer => some { s with page := s.page.tick s.now }
  | .mount => some { s with page := .init, down := [(s.node, s.now)], heard := false }

/-! ## What a tick shows -/

/-- The image of a lock at rest. -/
def imageOf : Position → String
  | .Open => "./unlock.png"
  | .Close => "./lock.png"
  | .Middle => "./error.png"

/-- The page shows a lock at rest in the position `p`, and its button offers a command that
asks for another one. -/
structure AtRest (page : Web.Main M) (p : Position) : Prop where
  enabled : page.doorbuttondisabled = some false
  image : page.doorimg = some (imageOf p)
  button : ∃ command q, page.doorbutton = command.text ∧ asks q command ∧ q ≠ p

/-- The page shows the status `x` of a movement, with nothing to press, or else the position. -/
structure Shows (page : Web.Main M) (x : DoorStatus) (p : Position) : Prop where
  moving : x = .Unlocking ∨ x = .Locking → page.doorbuttondisabled = some true ∧
    page.doorbutton = x.text ∧ page.doorimg = some "./loading.gif"
  rest : ∀ q, x = .known q → AtRest page p

variable {now : Int} {page : Web.Main M} {x : DoorStatus} {p : Position}

end Panel

end House

/-! ## What the motor server writes -/

namespace Motor

variable {K : Type}

theorem Board.act_log_cases {sensor : Sensor} (i : Int) (b : Board K) (e : Effect K) :
    (b.act sensor i e).2.log = b.log ∨ ∃ event, (b.act sensor i e).2.log = b.log ++ [event] := by
  cases e with
  | getInOperation => exact .inl rfl
  | setInOperation value => exact .inl rfl
  | _ => exact .inr ⟨_, rfl⟩

/-- A step adds at most one entry to the log. -/
theorem Server.step_log_cases [DecidableEq K] {cfg : DoorConfig} {sensor : Sensor}
    {s s' : Server K} {a : Action K} (h : s.step cfg sensor a = some s') :
    s'.board.log = s.board.log ∨ ∃ event, s'.board.log = s.board.log ++ [event] := by
  obtain ⟨_, _, -, rfl⟩ | ⟨_, _, _, _, -, -, rfl⟩ | ⟨i, p, p', board', -, -, hstep, rfl⟩ |
    ⟨_, _, -, -, -, rfl⟩ := step_cases h
  · exact .inl rfl
  · exact .inr ⟨_, rfl⟩
  · cases p with
    | done a => simp [Prog.step] at hstep
    | exec e k =>
      simp only [Prog.step, Option.some.injEq, Prod.mk.injEq] at hstep
      obtain ⟨-, rfl⟩ := hstep
      exact Board.act_log_cases i s.board e
  · exact .inl rfl

end Motor

namespace House.Panel

open Motor (DoorStatus)

variable {K M : Type} {cfg : DoorConfig} {before : DoorStatus}

/-- A step of the motor server writes no status, or one, which is then the last one. -/
theorem motor_cases [DecidableEq K] (before : DoorStatus) {s s' : Panel K M}
    {a : Motor.Action K} (h : s.step cfg (.motor a) = some s') :
    ∃ motor, s.motor.step cfg .driven a = some motor ∧
      (s' = { s with motor := motor } ∧ s'.doorstatus before = s.doorstatus before ∨
      ∃ x, s' = { s with motor := motor, statuses := s.statuses ++ [(x, s.now)] } ∧
        s'.doorstatus before = x) := by
  obtain ⟨motor, hmotor, rfl⟩ := Option.map_eq_some_iff.mp h
  refine ⟨motor, hmotor, ?_⟩
  unfold written doorstatus Motor.Board.doorstatus
  obtain hlog | ⟨event, hlog⟩ := Motor.Server.step_log_cases hmotor
  · exact .inl (by simp [hlog])
  · rw [hlog, List.drop_left, List.filterMap_append]
    cases hx : event.doorstatus? with
    | none => exact .inl (by simp [hx])
    | some x => exact .inr ⟨x, by simp [hx]⟩

/-! ## What is on its way -/

variable {s s' : Panel K M} {a : PanelAction K M} {d : Web.Delays} {since : Int}
  {P : Int → Position → Prop} {Q : Int → DoorStatus → Prop}

/-- The intervals have come at least every `d.period`, and nothing is on its way to the
database for longer than `d.up`, or from there to the page for longer than `d.down`. -/
structure OnTime (d : Web.Delays) (s : Panel K M) : Prop where
  sampled : s.now ≤ s.sampled + d.period
  statuses : ∀ m ∈ s.statuses, s.now ≤ m.2 + d.up
  positions : ∀ m ∈ s.positions, s.now ≤ m.2 + d.up
  down : ∀ m ∈ s.down, s.now ≤ m.2 + d.down

/-- After the moment `since`, no time passes that breaks the bounds. -/
def Kept (d : Web.Delays) (since : Int) (s : Panel K M) : PanelAction K M → Prop
  | .pass ms => since < s.now + ms → OnTime d { s with now := s.now + ms }
  | _ => True

instance : Decidable (OnTime d s) :=
  decidable_of_iff (s.now ≤ s.sampled + d.period ∧ (∀ m ∈ s.statuses, s.now ≤ m.2 + d.up) ∧
    (∀ m ∈ s.positions, s.now ≤ m.2 + d.up) ∧ ∀ m ∈ s.down, s.now ≤ m.2 + d.down)
    ⟨fun ⟨h₁, h₂, h₃, h₄⟩ => ⟨h₁, h₂, h₃, h₄⟩, fun ⟨h₁, h₂, h₃, h₄⟩ => ⟨h₁, h₂, h₃, h₄⟩⟩

instance (d : Web.Delays) (since : Int) (s : Panel K M) : ∀ a, Decidable (Kept d since s a)
  | .pass _ => inferInstanceAs (Decidable (_ → _))
  | .turn _ | .motor _ | .interval | .landStatus | .landPosition | .edit _ | .snapshot _ | .timer
  | .mount => isTrue trivial

/-- The position that has been sampled, a while ago. -/
def Sampled (P : Int → Position → Prop) (d : Web.Delays) (since u : Int) (p : Position) : Prop :=
  since < u → Relay.Within P d.period u p

/-- The node has a status and a position that the lock had a while ago. -/
def Current (P : Int → Position → Prop) (Q : Int → DoorStatus → Prop) (d : Web.Delays)
    (since u : Int) (status : Web.Status M) : Prop :=
  since + d.up < u → ∃ x p, status.doorstatus = some x.text ∧
    status.doorcurrentstatus = some p.text ∧ Relay.Within Q d.up u x ∧
    Relay.Within P (d.period + d.up) u p

/-- What is known of the two children, where `P` and `Q` say how the lock stood. -/
structure Tracks (before : DoorStatus) (P : Int → Position → Prop) (Q : Int → DoorStatus → Prop)
    (d : Web.Delays) (since : Int) (s : Panel K M) : Prop where
  onTime : since < s.now → OnTime d s
  position : ∃ p, s.node.doorcurrentstatus = some p.text ∧
    Relay.Until (Sampled P d since) s.now p s.positions ∧ P s.sampled (Relay.newest p s.positions)
  status : ∃ x, s.node.doorstatus = some x.text ∧
    Relay.Until (fun u x => since < u → Q u x) s.now x s.statuses ∧
    Relay.newest x s.statuses = s.doorstatus before

theorem Tracks.current (h : Tracks before P Q d since s) : Current P Q d since s.now s.node := by
  intro hlate
  have honTime := h.onTime (by omega)
  obtain ⟨p, hp, hsampled, -⟩ := h.position
  obtain ⟨x, hx, hwritten, -⟩ := h.status
  obtain ⟨u, hu, hule⟩ := hsampled.recent (by omega) honTime.positions
  obtain ⟨v, hv, hvle⟩ := hwritten.recent (by omega) honTime.statuses
  exact ⟨x, p, hx, hp, ⟨v, hv (by omega), hvle⟩, (hu (by omega)).later hule⟩

theorem landStatus_eq_some [DecidableEq K] (h : s.step cfg .landStatus = some s') :
    ∃ x u statuses, s.statuses = (x, u) :: statuses ∧
      s' = { s with statuses := statuses }.publish { s.node with doorstatus := some x.text } := by
  simp only [step] at h
  split at h
  · cases h
  · next x u statuses hs => exact ⟨x, u, statuses, hs, (Option.some.inj h).symm⟩

theorem landPosition_eq_some [DecidableEq K] (h : s.step cfg .landPosition = some s') :
    ∃ p u positions, s.positions = (p, u) :: positions ∧
      s' = { s with positions := positions }.publish
        { s.node with doorcurrentstatus := some p.text } := by
  simp only [step] at h
  split at h
  · cases h
  · next p u positions hs => exact ⟨p, u, positions, hs, (Option.some.inj h).symm⟩

/-- What is sent now is on time. -/
theorem forall_mem_concat {V : Type} {queue : List (V × Int)} {now : Int} {v : V} {delay : Nat}
    (h : ∀ m ∈ queue, now ≤ m.2 + delay) : ∀ m ∈ queue ++ [(v, now)], now ≤ m.2 + delay :=
  List.forall_mem_append.mpr ⟨h, List.forall_mem_singleton.mpr (by simp only; omega)⟩

theorem OnTime.publish (h : OnTime d s) {node : Web.Status M} : OnTime d (s.publish node) :=
  { h with down := forall_mem_concat h.down }

theorem Tracks.step [DecidableEq K] (h : Tracks before P Q d since s) (hkept : Kept d since s a)
    (hstep : s.step cfg a = some s') (hP : P s'.now (s'.position cfg))
    (hQ : Q s'.now (s'.doorstatus before)) : Tracks before P Q d since s' := by
  have ⟨honTime, ⟨p, hp, hsampled, hnewest⟩, ⟨x, hx, hwritten, hlast⟩⟩ := h
  cases a with
  | pass ms =>
    obtain rfl : _ = s' := Option.some.inj hstep
    exact ⟨hkept,
      ⟨p, hp, hsampled.pass fun hlate => ⟨s.sampled, hnewest, (hkept hlate).sampled⟩, hnewest⟩,
      ⟨x, hx, hwritten.pass fun _ => by rw [hlast]; exact hQ, hlast⟩⟩
  | turn reading =>
    obtain rfl : _ = s' := Option.some.inj hstep
    exact ⟨fun hlate => { honTime hlate with }, ⟨p, hp, hsampled, hnewest⟩,
      ⟨x, hx, hwritten, hlast⟩⟩
  | motor b =>
    obtain ⟨motor, -, ⟨rfl, hsame⟩ | ⟨y, rfl, hy⟩⟩ := motor_cases before hstep
    · exact ⟨fun hlate => { honTime hlate with }, ⟨p, hp, hsampled, hnewest⟩,
        ⟨x, hx, hwritten, hlast.trans hsame.symm⟩⟩
    · refine ⟨fun hlate => ?_, ⟨p, hp, hsampled, hnewest⟩, ⟨x, hx, ?_, ?_⟩⟩
      · exact { honTime hlate with statuses := forall_mem_concat (honTime hlate).statuses }
      · exact hwritten.send fun _ => hy ▸ hQ
      · exact Relay.newest_concat.trans hy.symm
  | interval =>
    obtain rfl : _ = s' := Option.some.inj hstep
    refine ⟨fun hlate => ?_, ⟨p, hp, ?_, ?_⟩, ⟨x, hx, hwritten, hlast⟩⟩
    · exact { honTime hlate with
        sampled := by simp only; omega
        positions := forall_mem_concat (honTime hlate).positions }
    · exact hsampled.send fun _ => ⟨s.now, hP, by omega⟩
    · rw [Relay.newest_concat]
      exact hP
  | landStatus =>
    obtain ⟨y, u, statuses, hs, rfl⟩ := landStatus_eq_some hstep
    rw [hs] at hwritten hlast
    refine ⟨fun hlate => ?_, ⟨p, hp, hsampled, hnewest⟩, ⟨y, rfl, hwritten.2, hlast⟩⟩
    exact OnTime.publish (s := { s with statuses := statuses }) { honTime hlate with
      statuses := fun m hm => (honTime hlate).statuses m (hs ▸ List.mem_cons_of_mem _ hm) }
  | landPosition =>
    obtain ⟨q, u, positions, hs, rfl⟩ := landPosition_eq_some hstep
    rw [hs] at hsampled hnewest
    refine ⟨fun hlate => ?_, ⟨q, rfl, hsampled.2, hnewest⟩, ⟨x, hx, hwritten, hlast⟩⟩
    exact OnTime.publish (s := { s with positions := positions }) { honTime hlate with
      positions := fun m hm => (honTime hlate).positions m (hs ▸ List.mem_cons_of_mem _ hm) }
  | edit status =>
    obtain rfl : _ = s' := Option.some.inj hstep
    exact ⟨fun hlate => (honTime hlate).publish, ⟨p, hp, hsampled, hnewest⟩,
      ⟨x, hx, hwritten, hlast⟩⟩
  | snapshot i =>
    obtain ⟨m, hm, rfl⟩ := Option.map_eq_some_iff.mp hstep
    exact ⟨fun hlate => { honTime hlate with
        down := fun m hm => (honTime hlate).down m (List.mem_of_mem_drop hm) },
      ⟨p, hp, hsampled, hnewest⟩, ⟨x, hx, hwritten, hlast⟩⟩
  | timer =>
    obtain rfl : _ = s' := Option.some.inj hstep
    exact ⟨fun hlate => { honTime hlate with }, ⟨p, hp, hsampled, hnewest⟩,
      ⟨x, hx, hwritten, hlast⟩⟩
  | mount =>
    obtain rfl : _ = s' := Option.some.inj hstep
    exact ⟨fun hlate => { honTime hlate with down := forall_mem_concat (List.forall_mem_nil _) },
      ⟨p, hp, hsampled, hnewest⟩, ⟨x, hx, hwritten, hlast⟩⟩

/-! ## What the page follows -/

/-- The page has been sent all that the node has been. -/
def Follows (cur : Int → Web.Status M → Prop) (s : Panel K M) : Prop :=
  Relay.Subscribed cur s.now s.heard s.page.status s.down s.node

variable {cur : Int → Web.Status M → Prop}

theorem Follows.step [DecidableEq K] (h : Follows cur s) (hstep : s.step cfg a = some s')
    (hnode : cur s'.now s'.node) : Follows cur s' := by
  cases a with
  | pass ms =>
    obtain rfl : _ = s' := Option.some.inj hstep
    exact h.pass hnode
  | turn reading | interval | timer =>
    obtain rfl : _ = s' := Option.some.inj hstep
    exact h
  | motor b =>
    obtain ⟨motor, -, rfl⟩ := Option.map_eq_some_iff.mp hstep
    exact h
  | landStatus =>
    obtain ⟨x, u, statuses, -, rfl⟩ := landStatus_eq_some hstep
    exact h.send hnode
  | landPosition =>
    obtain ⟨p, u, positions, -, rfl⟩ := landPosition_eq_some hstep
    exact h.send hnode
  | edit status =>
    obtain rfl : _ = s' := Option.some.inj hstep
    exact h.send hnode
  | snapshot i =>
    obtain ⟨m, hm, rfl⟩ := Option.map_eq_some_iff.mp hstep
    exact Relay.Subscribed.receive h hm
  | mount =>
    obtain rfl : _ = s' := Option.some.inj hstep
    exact .start hnode

end House.Panel

/-! ## A lock that nobody moves -/

namespace Motor

variable {K α : Type} {b : Board K} {I : Board K → Prop} {s s' : Server K} {a : Action K}

/-- Where each read may return anything, the place of the axis does not matter. -/
theorem Board.act_turn (i reading : Int) (b : Board K) (e : Effect K) :
    ∃ reading', Board.act .free i { b with potentiometer := reading } e =
      ((b.act .free i e).1, { (b.act .free i e).2 with potentiometer := reading' }) := by
  cases e <;> exact ⟨_, rfl⟩

/-- Whatever the axis does, a read might have returned it. -/
theorem Board.act_driven (i : Int) (b : Board K) (e : Effect K) :
    ∃ j reading, b.act .driven i e =
      ((b.act .free j e).1, { (b.act .free j e).2 with potentiometer := reading }) := by
  cases e <;> exact ⟨b.potentiometer, _, rfl⟩

theorem wp_turn {p : Program K α} {Q : α → Board K → Prop} {reading : Int}
    (hQ : ∀ a b reading, Q a b → Q a { b with potentiometer := reading })
    (h : p.wp (Board.act .free) Q b) :
    p.wp (Board.act .free) Q { b with potentiometer := reading } := by
  induction p generalizing b reading with
  | done a => exact hQ a b reading h
  | exec e k ih =>
    intro i
    obtain ⟨reading', hact⟩ := Board.act_turn i reading b e
    rw [hact]
    exact ih _ (h i)

theorem Server.Upholds.turn {reading : Int} (h : s.Upholds .free I)
    (hI : ∀ b reading, I b → I { b with potentiometer := reading }) :
    Server.Upholds .free I
      { s with board := { s.board with potentiometer := reading } } := by
  unfold Server.Upholds at h ⊢
  split at h
  · next hidle => simpa only [hidle] using hI _ _ h
  · next p hp => simpa only [hp] using wp_turn (fun _ => hI) h

/-- What is upheld where reads are free is upheld by a lock that the motor drives. -/
theorem Server.Upholds.driven [DecidableEq K] {cfg : DoorConfig} (h : s.Upholds .free I)
    (hI : ∀ b reading, I b → I { b with potentiometer := reading })
    (hdata : ∀ b socket text, I b → Prog.wp (Board.act .free) (onData cfg socket text)
      (fun _ b' => I b') (b.record (.data socket text)))
    (hstep : s.step cfg .driven a = some s') : s'.Upholds .free I := by
  obtain ⟨_, _, -, rfl⟩ | ⟨socket, _, text, _, -, hnone, rfl⟩ |
    ⟨i, p, p', board', -, hp, hexec, rfl⟩ | ⟨i, p, -, hp, hexec, rfl⟩ := step_cases hstep
  · exact h
  · simp only [Upholds, hnone] at h
    exact hdata s.board socket text h
  · simp only [Upholds, hp] at h
    cases p with
    | done a => simp [Prog.step] at hexec
    | exec e k =>
      simp only [Prog.step, Option.some.injEq, Prod.mk.injEq] at hexec
      obtain ⟨rfl, rfl⟩ := hexec
      obtain ⟨j, reading, hact⟩ := Board.act_driven i s.board e
      simp only [Upholds, hact]
      exact wp_turn (fun _ => hI) (h j)
  · simp only [Upholds, hp] at h
    cases p with
    | done a => exact h
    | exec e k => simp [Prog.step] at hexec

end Motor

namespace House.Panel

open Motor (DoorStatus)

variable {K M : Type} {cfg : DoorConfig} {before : DoorStatus} {s s' t : Panel K M}
  {a : PanelAction K M} {as : List (PanelAction K M)} {d : Web.Delays} {now reading since : Int}
  {p₀ : Position} {node : Web.Status M}

/-- When no handler is running, the status that was written last is a position. -/
def Settles (s : Panel K M) : Prop := s.motor.Upholds .free Motor.Published

theorem Settles.known (h : Settles s) (hidle : s.motor.running = none) :
    ∃ q, s.doorstatus before = .known q := by
  simp only [Settles, Motor.Server.Upholds, hidle] at h
  obtain ⟨q, hq⟩ := h.doorstatus
  exact ⟨q, by simp [doorstatus, hq]⟩

variable [DecidableEq K]

theorem Settles.step (h : Settles s) (hstep : s.step cfg a = some s') : Settles s' := by
  have hturn : ∀ (b : Motor.Board K) reading, Motor.Published b →
      Motor.Published { b with potentiometer := reading } :=
    fun b reading hb => ⟨hb.inOperation, hb.doorstatus, hb.exchanges⟩
  cases a with
  | pass ms | interval | edit status | timer | mount =>
    obtain rfl : _ = s' := Option.some.inj hstep
    exact h
  | turn reading =>
    obtain rfl : _ = s' := Option.some.inj hstep
    exact Motor.Server.Upholds.turn h hturn
  | motor b =>
    obtain ⟨motor, hmotor, rfl⟩ := Option.map_eq_some_iff.mp hstep
    exact Motor.Server.Upholds.driven h hturn
      (fun b socket text hb => Motor.onData_published cfg hb) hmotor
  | landStatus =>
    obtain ⟨x, u, statuses, -, rfl⟩ := landStatus_eq_some hstep
    exact h
  | landPosition =>
    obtain ⟨p, u, positions, -, rfl⟩ := landPosition_eq_some hstep
    exact h
  | snapshot i =>
    obtain ⟨m, -, rfl⟩ := Option.map_eq_some_iff.mp hstep
    exact h

/-! ## Every run -/

/-- The run `as` is at a state of which `f` is `v` at the moment `w`. -/
def Was {V : Type} (cfg : DoorConfig) (s₀ : Panel K M) (as : List (PanelAction K M))
    (f : Panel K M → V) (w : Int) (v : V) : Prop :=
  ∃ u, Transition.Passes (step cfg) s₀ as u ∧ u.now = w ∧ f u = v

end House.Panel

end SmartDoor
