-- SUMMARY: The published door state is coherent: in every idle state, and across every exchange with a client.
import SmartDoor.Motor.Laws

/-!
# Published door state

Between two handlers the board's log is the start-up's entries followed by one
exchange per message. `Published` says so, together with what each exchange
did; the start-up establishes it and every handler establishes it again.
-/

namespace SmartDoor.Motor

variable {K : Type} (cfg : DoorConfig)

/-! ## Exchanges -/

/-- A message and the entries its handler added to the log. -/
structure Exchange (K : Type) where
  socket : K
  data : String
  events : List (Event K)

def Exchange.log (x : Exchange K) : List (Event K) := .data x.socket x.data :: x.events

/-- What one exchange does. The entries contain no other message; there is one
reply; an accepted command leaves the same position in `doorstatus`, in
`doorneedtobe` and in the reply; other data writes no child and no pin. -/
structure Exchange.Coherent (x : Exchange K) : Prop where
  own : x.events.filterMap Event.data? = []
  oneReply : ∃ msg, x.events.filterMap Event.reply? = [(x.socket, msg)]
  command : IsCommand x.data → ∃ p : Position,
    (x.events.filterMap Event.doorstatus?).getLast? = some (.known p) ∧
    x.events.filterMap Event.doorneedtobe? = [p] ∧
    x.events.filterMap Event.reply? = [(x.socket, "Door " ++ p.text)]
  other : ¬ IsCommand x.data →
    x.events.filterMap Event.doorstatus? = [] ∧ x.events.filterMap Event.doorneedtobe? = [] ∧
    x.events.filterMap Event.doormsg? = [] ∧ x.events.filterMap Event.pin? = []

/-- The log is the start-up's entries, which contain no message and no reply,
followed by coherent exchanges. -/
def Exchanges (log : List (Event K)) : Prop :=
  ∃ (start : List (Event K)) (xs : List (Exchange K)),
    log = start ++ xs.flatMap Exchange.log ∧
    start.filterMap Event.data? = [] ∧ start.filterMap Event.reply? = [] ∧
    ∀ x ∈ xs, x.Coherent

/-- What holds of the board whenever no handler is running. -/
structure Published (b : Board K) : Prop where
  inOperation : b.inOperation = 0
  doorstatus : ∃ p, b.doorstatus = some (.known p)
  exchanges : Exchanges b.log

theorem Exchanges.concat {log : List (Event K)} {x : Exchange K} (h : Exchanges log)
    (hx : x.Coherent) : Exchanges (log ++ x.log) := by
  obtain ⟨start, xs, rfl, hdata, hreply, hxs⟩ := h
  refine ⟨start, xs ++ [x], by simp, hdata, hreply, fun y hy => ?_⟩
  rcases List.mem_append.mp hy with hy | hy
  · exact hxs y hy
  · obtain rfl := List.mem_singleton.mp hy
    exact hx

/-! ## Each handler publishes -/

theorem quiet_filterMap {evs : List (Event K)} (h : ∀ e ∈ evs, e.Quiet) :
    evs.filterMap Event.reply? = [] ∧ evs.filterMap Event.doorneedtobe? = [] ∧
    evs.filterMap Event.data? = [] := by
  simp only [List.filterMap_eq_nil_iff]
  exact ⟨fun e he => (h e he).1, fun e he => (h e he).2.1, fun e he => (h e he).2.2⟩

/-- The exchange of an accepted command, whose `doorCom` added `evs`. -/
theorem coherent_of_isCommand (socket : K) {data : String} {evs : List (Event K)} (value : Int)
    (hdata : IsCommand data) (hevs : ∀ e ∈ evs, e.Quiet) :
    (⟨socket, data, evs ++ [.read value,
      .did (.setDoorstatus (.known (cfg.motorStatus 1 value))),
      .did (.setDoorneedtobe (cfg.motorStatus 1 value)),
      .did (.write socket ("Door " ++ (cfg.motorStatus 1 value).text))]⟩ :
      Exchange K).Coherent := by
  obtain ⟨hreply, hneed, hdat⟩ := quiet_filterMap hevs
  refine ⟨?_, ⟨"Door " ++ (cfg.motorStatus 1 value).text, ?_⟩, fun _ =>
    ⟨cfg.motorStatus 1 value, ?_, ?_, ?_⟩, fun hn => absurd hdata hn⟩
  · simp [hdat, List.filterMap_cons, Event.data?]
  · simp [hreply, List.filterMap_cons, Event.reply?]
  · simp [List.findSome?_cons, Event.doorstatus?]
  · simp [hneed, List.filterMap_cons, Event.doorneedtobe?]
  · simp [hreply, List.filterMap_cons, Event.reply?]

/-- The exchange of other data. -/
theorem coherent_of_not_isCommand {socket : K} {data : String} (hdata : ¬ IsCommand data) :
    (⟨socket, data, [.did (.write socket "Error, bad command")]⟩ : Exchange K).Coherent :=
  ⟨rfl, ⟨_, rfl⟩, fun h => absurd h hdata, fun _ => ⟨rfl, rfl, rfl, rfl⟩⟩

theorem startup_published {sensor : Sensor} {reading : Int} :
    Prog.wp (Board.act sensor) (startup cfg) (fun _ b => Published (K := K) b)
      ⟨reading, 0, []⟩ := by
  simp only [startup, motorStatus, perform, Prog.wp_bind, Prog.wp_perform, Prog.wp_pure]
  intro i _
  refine ⟨rfl, ⟨cfg.motorStatus 1 (sensor.read i reading), rfl⟩, ?_⟩
  exact ⟨_, [], (List.append_nil _).symm, rfl, rfl, by simp⟩

theorem onData_published {sensor : Sensor} {b : Board K} {socket : K} {data : String}
    (hb : Published b) :
    Prog.wp (Board.act sensor) (onData cfg socket data) (fun _ b' => Published b')
      (b.record (.data socket data)) := by
  by_cases hdata : IsCommand data
  · refine wp_onData_of_isCommand cfg (by simpa using hb.inOperation) hdata fun b' i hq => ?_
    obtain ⟨-, evs, hlog, hevs⟩ := hq
    refine ⟨rfl, ⟨cfg.motorStatus 1 (sensor.read i b'.potentiometer), ?_⟩, ?_⟩
    · simp [Board.doorstatus, Board.publish, List.findSome?_cons, Event.doorstatus?]
    · have h := hb.exchanges.concat
        (coherent_of_isCommand cfg socket (sensor.read i b'.potentiometer) hdata hevs)
      simpa [Board.publish, hlog, Exchange.log] using h
  · refine wp_onData_of_not_isCommand cfg (by simpa using hb.inOperation) hdata ?_
    refine ⟨hb.inOperation, ?_, ?_⟩
    · obtain ⟨p, hp⟩ := hb.doorstatus
      exact ⟨p, by simpa [Board.doorstatus, List.findSome?_cons, Event.doorstatus?] using hp⟩
    · simpa [Exchange.log] using hb.exchanges.concat (coherent_of_not_isCommand hdata)

/-! ## Every run -/

variable [DecidableEq K] {cfg}

/-- In every state of the server in which no handler is running, `doorstatus` is
a position of the lock, and every message so far had a coherent exchange. -/
theorem published_of_run {sensor : Sensor} {reading : Int} {as : List (Action K)} {s : Server K}
    (hrun : Transition.run (Server.step cfg sensor) (Server.init cfg reading) as = some s)
    (hidle : s.running = none) :
    (∃ p, s.board.doorstatus = some (.known p)) ∧ Exchanges s.board.log := by
  have h := Server.upholds_of_run (startup_published cfg)
    (fun b socket text hb => onData_published cfg hb) hrun
  simp only [Server.Upholds, hidle] at h
  exact ⟨h.doorstatus, h.exchanges⟩

/-- An unlock of a closed lock whose first pulse reaches the open position, then
data that is not a command. -/
def openingRun : List (Action Unit) :=
  [.exec 700, .exec 0, .exec 0, .arrive () "Open", .data () 1] ++
    [0, 0, 700, 0, 0, 0, 0, 800, 960, 0, 960, 0, 960, 0, 0, 0, 0, 0].map .exec ++
    [.arrive () "Ope", .data () 1, .exec 0, .exec 0, .exec 0]

theorem published_of_run_openingRun :
    ∃ s, Transition.run (Server.step doorconfig .free) (Server.init doorconfig 700) openingRun
        = some s ∧ s.running = none ∧
      (∃ p, s.board.doorstatus = some (.known p)) ∧ Exchanges s.board.log := by
  have hobs : (Transition.run (Server.step doorconfig .free) (Server.init doorconfig 700)
      openingRun).map (fun s => s.running.isNone) = some true := rfl
  obtain ⟨s, hrun, hs⟩ := Option.map_eq_some_iff.mp hobs
  have hidle : s.running = none := by simpa using hs
  exact ⟨s, hrun, hidle, published_of_run hrun hidle⟩

end SmartDoor.Motor
