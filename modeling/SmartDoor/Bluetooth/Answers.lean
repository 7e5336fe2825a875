-- SUMMARY: Which alarm clients are answered: a request made while another one is outstanding takes its place.
import SmartDoor.Base.Transition
import SmartDoor.Bluetooth.Chunking

/-!
# Answers to the alarm clients

The service remembers one request: its byte in `btdata`, its socket in
`socketwrite`. A request that arrives before the echo of an earlier one
replaces both, so the earlier client is never answered.
-/

namespace SmartDoor.Bluetooth

variable {K : Type}

/-! ## Requests and answers -/

/-- A request for a mode: its socket and its text. -/
def Event.accepted? : Event K → Option (K × String)
  | .request socket text => if text = "On" ∨ text = "Off" then some (socket, text) else none
  | _ => none

/-- The requests for a mode among the events, in order. -/
def requests (es : List (Event K)) : List (K × String) := es.filterMap Event.accepted?

/-- The replies that answer a request for a mode, in order. -/
def KeepAlive.answers (s : KeepAlive K) : List (K × String) :=
  s.replies.filter (·.2 ≠ "Error, bad command")

def KeepAlive.step (s : KeepAlive K) (e : Event K) : Option (KeepAlive K) := some (e.handle s)

/-- A request for a mode is made while none is outstanding. -/
def Alone (s : KeepAlive K) (e : Event K) : Prop := e.accepted?.isSome → s.btwait = false

instance (s : KeepAlive K) (e : Event K) : Decidable (Alone s e) := by
  unfold Alone
  infer_instance

theorem requests_concat {es : List (Event K)} {e : Event K} :
    requests (es ++ [e]) = requests es ++ e.accepted?.toList := by
  cases h : e.accepted? <;> simp [requests, h]

theorem run_exec {s : KeepAlive K} {es : List (Event K)} :
    Transition.run KeepAlive.step s es = some (exec s es) := by
  induction es generalizing s with
  | nil => rfl
  | cons e es ih => exact ih

/-! ## What each event does to the outstanding request -/

/-- The outstanding request and the replies are as before. -/
structure SameWait (s s' : KeepAlive K) : Prop where
  btwait : s'.btwait = s.btwait
  btdata : s'.btdata = s.btdata
  socketwrite : s'.socketwrite = s.socketwrite
  answers : s'.answers = s.answers

theorem tick_sameWait (s : KeepAlive K) : SameWait s s.tick := by
  unfold KeepAlive.tick
  constructor
  · simp only [apply_ite KeepAlive.btwait, ite_self]
  · simp only [apply_ite KeepAlive.btdata, ite_self]
  · simp only [apply_ite KeepAlive.socketwrite, ite_self]
  · simp only [KeepAlive.answers, apply_ite KeepAlive.replies, ite_self]

/-- A chunk is the echo that ends the wait, or it does not matter for it. -/
theorem onData_cases (s : KeepAlive K) (chunk : List Char) :
    (∃ m : Mode, s.btwait = true ∧ s.btdata = [m.byte] ∧ s.onData chunk = s.ack m) ∨
      SameWait s (s.onData chunk) := by
  by_cases hm : ∃ m : Mode, chunk = [m.byte]
  · obtain ⟨m, rfl⟩ := hm
    rw [s.onData_byte]
    split
    · next h => exact .inl ⟨m, h.1, h.2, rfl⟩
    · exact .inr ⟨rfl, rfl, rfl, rfl⟩
  · right
    by_cases h4 : chunk = ['4']
    · rw [h4, s.onData_four]
      exact ⟨rfl, rfl, rfl, rfl⟩
    · by_cases h5 : chunk = ['5']
      · rw [h5, s.onData_five]
        exact ⟨rfl, rfl, rfl, rfl⟩
      · rw [s.onData_other h4 h5 fun m h => hm ⟨m, h⟩]
        exact ⟨rfl, rfl, rfl, rfl⟩

/-- Every event either leaves the wait alone and is no request, or is the echo
that ends it, or is a request for a mode, which replaces the outstanding one. -/
theorem handle_cases (s : KeepAlive K) (e : Event K) :
    (e.accepted? = none ∧ SameWait s (e.handle s)) ∨
    (e.accepted? = none ∧ ∃ m : Mode, s.btwait = true ∧ s.btdata = [m.byte] ∧
      e.handle s = s.ack m) ∨
    ∃ socket, ∃ m : Mode, e = .request socket m.text ∧ e.accepted? = some (socket, m.text) := by
  cases e with
  | tick => exact .inl ⟨rfl, tick_sameWait s⟩
  | data chunk =>
    obtain hack | hsame := onData_cases s chunk
    · exact .inr (.inl ⟨rfl, hack⟩)
    · exact .inl ⟨rfl, hsame⟩
  | request socket text =>
    by_cases hm : ∃ m : Mode, text = m.text
    · obtain ⟨m, rfl⟩ := hm
      refine .inr (.inr ⟨socket, m, rfl, ?_⟩)
      cases m <;> simp [Event.accepted?, Mode.text]
    · have hne : ∀ m : Mode, text ≠ m.text := fun m h => hm ⟨m, h⟩
      have hon : text ≠ "On" := hne .On
      have hoff : text ≠ "Off" := hne .Off
      refine .inl ⟨by simp [Event.accepted?, hon, hoff], ?_⟩
      rw [Event.handle, KeepAlive.onRequest_of_ne_text socket hne]
      exact ⟨rfl, rfl, rfl, by simp [KeepAlive.answers]⟩

theorem answers_ack {s : KeepAlive K} {socket : K} (m : Mode) (h : s.socketwrite = some socket) :
    (s.ack m).answers = s.answers ++ [(socket, m.text)] := by
  have hm : m.text ≠ "Error, bad command" := by cases m <;> decide
  simp [KeepAlive.ack, KeepAlive.answer, KeepAlive.answers, h, hm]

/-! ## The requests that are answered -/

/-- What the service owes after the events. The outstanding request is the last
one; without interference all others are answered in order, and each request
that replaced another has cost one answer. -/
structure Owed (es : List (Event K)) (s : KeepAlive K) : Prop where
  waiting : s.btwait = true → ∃ socket, ∃ m : Mode,
    s.socketwrite = some socket ∧ s.btdata = [m.byte] ∧
    (Transition.Meets KeepAlive.step Alone .init es →
      requests es = s.answers ++ [(socket, m.text)])
  settled : s.btwait = false → Transition.Meets KeepAlive.step Alone .init es →
    requests es = s.answers
  length : s.answers.length + (if s.btwait then 1 else 0) ≤ (requests es).length
  lost : ¬ Transition.Meets KeepAlive.step Alone .init es →
    s.answers.length + (if s.btwait then 1 else 0) < (requests es).length

variable {es : List (Event K)} {s : KeepAlive K}

theorem Owed.handle (h : Owed es s) (hrun : Transition.run KeepAlive.step .init es = some s)
    (e : Event K) : Owed (es ++ [e]) (e.handle s) := by
  obtain ⟨hnone, hsame⟩ | ⟨hnone, m, hwait, hdata, hack⟩ | ⟨socket, m, rfl, hsome⟩ :=
    handle_cases s e
  · have hmeets : Transition.Meets KeepAlive.step Alone .init (es ++ [e]) ↔
        Transition.Meets KeepAlive.step Alone .init es := by
      rw [Transition.meets_concat hrun, and_iff_left]
      simp [Alone, hnone]
    have hreq : requests (es ++ [e]) = requests es := by simp [requests_concat, hnone]
    constructor
    · rw [hsame.btwait, hsame.socketwrite, hsame.btdata, hsame.answers, hmeets, hreq]
      exact h.waiting
    · rw [hsame.btwait, hsame.answers, hmeets, hreq]
      exact h.settled
    · rw [hsame.btwait, hsame.answers, hreq]
      exact h.length
    · rw [hsame.btwait, hsame.answers, hmeets, hreq]
      exact h.lost
  · -- the echo: the outstanding request is answered
    obtain ⟨socket, m', hsocket, hdata', hall⟩ := h.waiting hwait
    obtain rfl : m = m' := by
      rw [hdata'] at hdata
      exact Mode.byte_injective (List.singleton_inj.mp hdata).symm
    have hmeets : Transition.Meets KeepAlive.step Alone .init (es ++ [e]) ↔
        Transition.Meets KeepAlive.step Alone .init es := by
      rw [Transition.meets_concat hrun, and_iff_left]
      simp [Alone, hnone]
    have hreq : requests (es ++ [e]) = requests es := by simp [requests_concat, hnone]
    have hanswers := answers_ack m hsocket
    have hended := ack_btwait s m
    have hlength := h.length
    have hlost := h.lost
    simp only [hwait, if_true] at hlength hlost
    rw [hack]
    constructor
    · simp [hended]
    · rw [hanswers, hmeets, hreq]
      exact fun _ => hall
    · rw [hanswers, hreq, hended]
      simpa using hlength
    · rw [hanswers, hreq, hended, hmeets]
      simpa using hlost
  · -- a request, which takes the place of the outstanding one
    have hmeets : Transition.Meets KeepAlive.step Alone .init (es ++ [.request socket m.text]) ↔
        Transition.Meets KeepAlive.step Alone .init es ∧ s.btwait = false := by
      rw [Transition.meets_concat hrun]
      simp [Alone, hsome]
    have hreq : requests (es ++ [.request socket m.text]) = requests es ++ [(socket, m.text)] := by
      simp [requests_concat, hsome]
    have hanswers : (s.onRequest socket m.text).answers = s.answers := by
      simp [KeepAlive.answers]
    have hbtwait : (s.onRequest socket m.text).btwait = true := by simp
    have hlength := h.length
    rw [Event.handle]
    constructor
    · intro _
      refine ⟨socket, m, by simp, by simp, fun hall => ?_⟩
      obtain ⟨hall, hidle⟩ := hmeets.mp hall
      rw [hreq, hanswers, h.settled hidle hall]
    · simp
    · rw [hreq, hanswers, hbtwait]
      simp only [if_true, List.length_append, List.length_singleton]
      omega
    · rw [hreq, hanswers, hbtwait, hmeets]
      intro hnot
      simp only [if_true, List.length_append, List.length_singleton]
      by_cases hwait : s.btwait = true
      · simp only [hwait, if_true] at hlength
        omega
      · have hidle : s.btwait = false := by simpa using hwait
        have hlost := h.lost fun hall => hnot ⟨hall, hidle⟩
        omega

theorem owed_exec (es : List (Event K)) : Owed es (exec KeepAlive.init es) := by
  refine Transition.run_induction (I := Owed) ?_ ?_ (run_exec (s := KeepAlive.init))
  · refine ⟨fun h => ?_, fun _ _ => rfl, Nat.le_refl _, fun h => absurd trivial h⟩
    cases h
  · intro es s e s' hrun h he
    obtain rfl := Option.some.inj he
    exact h.handle hrun e

/-- Once nothing is outstanding, every request for a mode has been answered
exactly once, on its socket and with its mode, exactly if each was made while no
other one was outstanding. -/
theorem answered_once_iff (es : List (Event K)) (h : (exec KeepAlive.init es).btwait = false) :
    (exec KeepAlive.init es).answers.Perm (requests es) ↔
      Transition.Meets KeepAlive.step Alone .init es := by
  have howed := owed_exec es
  constructor
  · intro hperm
    by_contra hnot
    have hlost := howed.lost hnot
    have hlength := hperm.length_eq
    rw [h] at hlost
    simp at hlost
    omega
  · intro hall
    rw [howed.settled h hall]

/-- Two clients, and the device's echoes of both requests. -/
def twoClients : List (Event Bool) :=
  [.request false "On", .request true "Off", .data ['1'], .data ['0']]

theorem answered_once_iff_twoClients :
    (exec KeepAlive.init twoClients).answers.Perm (requests twoClients) ↔
      Transition.Meets KeepAlive.step Alone .init twoClients :=
  answered_once_iff twoClients rfl

/-- Nothing is outstanding, and the first client was never answered. -/
theorem first_client_unanswered :
    (exec KeepAlive.init twoClients).btwait = false ∧
      (false, "On") ∈ requests twoClients ∧
      (exec KeepAlive.init twoClients).replies = [(true, "Off")] ∧
      ¬ (exec KeepAlive.init twoClients).answers.Perm (requests twoClients) := by
  refine ⟨rfl, by decide, rfl, fun h => ?_⟩
  exact absurd h.length_eq (by decide)

end SmartDoor.Bluetooth
