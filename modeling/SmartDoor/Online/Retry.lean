-- SUMMARY: When the mode of an earlier command is written to a service after that of a later one.
import SmartDoor.Online.Service

/-!
# Late retries

Nothing cancels the retries of a superseded emergency call. They are the only
calls that can write an earlier mode after a later one, except for a first
attempt that was in progress when the later mode was written.
-/

namespace SmartDoor.Online

/-- The mode of the `i`th call has been written after that of the `j`th, which is
to the same service and for a later command. -/
structure Late (s : Sockets) (i j : Nat) (c d : Call) : Prop where
  call : s.calls[i]? = some c
  other : s.calls[j]? = some d
  service : c.service = d.service
  issued : c.issued < d.issued
  written : ∃ l₁ l₂, s.written = l₁ ++ j :: l₂ ∧ i ∈ l₂

/-- The first attempt of the call is in progress. -/
structure Fresh (call : Call) : Prop where
  phase : call.phase = .connecting
  errors : call.errors = 0

/-- The first attempt of the `i`th call was in progress when the `j`th connected. -/
def Beside (cfg : DoorConfig) (as : List ServiceAction) (i j : Nat) : Prop :=
  ∃ pre post t c, as = pre ++ .connected j :: post ∧
    Transition.run (Sockets.step cfg) .init pre = some t ∧ t.calls[i]? = some c ∧ Fresh c

/-- An emergency call whose socket has failed at least once. -/
structure Retried (call : Call) : Prop where
  emergency : call.emergency = true
  errors : 1 ≤ call.errors

/-! ## The invariant -/

variable {cfg : DoorConfig} {s s' : Sockets} {beside : Nat → Nat → Prop}

/-- What holds of each call. -/
structure CallOk (cfg : DoorConfig) (s : Sockets) (call : Call) : Prop where
  waiting : call.phase = .waiting → 1 ≤ call.errors
  retried : 1 ≤ call.errors → call.phase ≠ .closed → call.emergency = true
  command : ∃ command, s.dispatched[call.issued]? = some command ∧
    (call.service, call.mode, call.emergency) ∈ applied cfg command

/-- The earlier calls to the service of the `j`th are past their first attempts,
or were beside it. -/
def Overtakes (beside : Nat → Nat → Prop) (s : Sockets) (j : Nat) : Prop :=
  ∃ d, s.calls[j]? = some d ∧
    ∀ i c, i < j → s.calls[i]? = some c → c.service = d.service → Fresh c → beside i j

/-- `beside` tells which first attempts were in progress when a later call connected. -/
structure SocketsInv (cfg : DoorConfig) (beside : Nat → Nat → Prop) (s : Sockets) : Prop where
  call : ∀ (i : Nat) (c : Call), s.calls[i]? = some c → CallOk cfg s c
  issued : ∀ (i j : Nat) (c d : Call), i < j → s.calls[i]? = some c → s.calls[j]? = some d →
    c.issued ≤ d.issued
  written : ∀ j ∈ s.written, Overtakes beside s j
  order : s.written.Pairwise fun j i => ∀ c d, s.calls[i]? = some c → s.calls[j]? = some d →
    c.service = d.service → i < j → Retried c ∨ beside i j

theorem socketsInv_init : SocketsInv cfg beside .init where
  call := by simp [Sockets.init]
  issued := by simp [Sockets.init]
  written := by simp [Sockets.init]
  order := by simp [Sockets.init]

/-! ## A call is made -/

theorem CallOk.extend {c : Call} (h : CallOk cfg s c)
    (hdispatched : s.dispatched <+: s'.dispatched) : CallOk cfg s' c := by
  obtain ⟨command, hcommand, happlied⟩ := h.command
  obtain ⟨rest, hrest⟩ := hdispatched
  have hlt : c.issued < s.dispatched.length := (List.getElem?_eq_some_iff.mp hcommand).1
  exact ⟨h.waiting, h.retried, command,
    by rw [← hrest, List.getElem?_append_left hlt, hcommand], happlied⟩

theorem SocketsInv.of_calls_eq (h : SocketsInv cfg beside s) (hcalls : s'.calls = s.calls)
    (hwritten : s'.written = s.written) (hdispatched : s.dispatched <+: s'.dispatched) :
    SocketsInv cfg beside s' := by
  refine ⟨fun i c hi => ?_, ?_, ?_, ?_⟩
  · exact (h.call i c (hcalls ▸ hi)).extend hdispatched
  · simpa only [hcalls] using h.issued
  · simpa only [Overtakes, hcalls, hwritten] using h.written
  · simpa only [hcalls, hwritten] using h.order

/-- The new call is the latest one. -/
theorem SocketsInv.push (h : SocketsInv cfg beside s) {call : Call} (hok : CallOk cfg s' call)
    (hcalls : s'.calls = s.calls ++ [call]) (hwritten : s'.written = s.written)
    (hdispatched : s'.dispatched = s.dispatched) (hlast : s.dispatched.length ≤ call.issued + 1) :
    SocketsInv cfg beside s' := by
  have hold : ∀ {i : Nat}, i < s.calls.length → s'.calls[i]? = s.calls[i]? := by
    intro i hi
    rw [hcalls, List.getElem?_append_left hi]
  have hlt : ∀ {j : Nat}, j ∈ s.written → j < s.calls.length := by
    intro j hmem
    obtain ⟨d, hd, -⟩ := h.written j hmem
    exact (List.getElem?_eq_some_iff.mp hd).1
  refine ⟨fun i c hi => ?_, fun i j c d hij hi hj => ?_, fun j hmem => ?_, ?_⟩
  · rw [hcalls] at hi
    rcases Lists.getElem?_concat_eq_some hi with hi | ⟨-, rfl⟩
    · exact (h.call i c hi).extend (hdispatched ▸ List.prefix_refl _)
    · exact hok
  · rw [hcalls] at hj
    rcases Lists.getElem?_concat_eq_some hj with hj | ⟨rfl, rfl⟩
    · have hlen : j < s.calls.length := (List.getElem?_eq_some_iff.mp hj).1
      rw [hold (Nat.lt_trans hij hlen)] at hi
      exact h.issued i j c d hij hi hj
    · rw [hold hij] at hi
      obtain ⟨command, hcommand, -⟩ := (h.call i c hi).command
      have hissued : c.issued < s.dispatched.length := (List.getElem?_eq_some_iff.mp hcommand).1
      omega
  · rw [hwritten] at hmem
    obtain ⟨d, hd, hbeside⟩ := h.written j hmem
    refine ⟨d, by rw [hold (hlt hmem), hd], fun i c hij hi => ?_⟩
    rw [hold (Nat.lt_trans hij (hlt hmem))] at hi
    exact hbeside i c hij hi
  · rw [hwritten]
    refine h.order.imp_of_mem fun hj hi hr c d hc hd hsv hij => ?_
    rw [hold (hlt hi)] at hc
    rw [hold (hlt hj)] at hd
    exact hr c d hc hd hsv hij

theorem SocketsInv.applyService {service : Service} {mode : String} {emergency : Bool}
    (h : SocketsInv cfg beside s) {command : Command} (hlast : s.dispatched.getLast? = some command)
    (happlied : (service, mode, emergency) ∈ applied cfg command) :
    SocketsInv cfg beside (s.applyService cfg service mode emergency) := by
  unfold Sockets.applyService
  dsimp only
  split
  · exact h.of_calls_eq rfl rfl (List.prefix_refl _)
  · have hpos : s.dispatched ≠ [] := by
      rintro hnil
      simp [hnil] at hlast
    have hlen : 0 < s.dispatched.length := List.length_pos_iff.mpr hpos
    refine h.push ?_ rfl rfl rfl (by dsimp only; omega)
    exact ⟨by simp, by simp, command, by rw [← hlast, List.getLast?_eq_getElem?], happlied⟩

theorem SocketsInv.dispatch (h : SocketsInv cfg beside s) (command : Command) :
    SocketsInv cfg beside (s.dispatch cfg command) := by
  have hfold : ∀ (l : List (Service × String × Bool)) (t : Sockets),
      (∀ x ∈ l, x ∈ applied cfg command) → SocketsInv cfg beside t →
      t.dispatched.getLast? = some command →
      SocketsInv cfg beside
        (l.foldl (fun s call => s.applyService cfg call.1 call.2.1 call.2.2) t) := by
    intro l
    induction l with
    | nil => exact fun t _ ht _ => ht
    | cons x l ih =>
      intro t hl ht hlast
      refine ih _ (fun y hy => hl y (.tail _ hy)) (ht.applyService hlast (hl _ (.head _))) ?_
      unfold Sockets.applyService
      dsimp only
      split <;> exact hlast
  refine hfold _ _ (fun _ hx => hx) ?_ (by simp)
  exact h.of_calls_eq rfl rfl (List.prefix_append _ _)

/-! ## A call goes on -/

/-- What every move of a call keeps. -/
structure SameCall (c c' : Call) : Prop where
  issued : c'.issued = c.issued
  service : c'.service = c.service
  emergency : c'.emergency = c.emergency
  errors : c.errors ≤ c'.errors

theorem SameCall.retried {c c' : Call} (h : SameCall c c') (hr : Retried c) : Retried c' :=
  ⟨h.emergency.trans hr.emergency, Nat.le_trans hr.errors h.errors⟩

theorem SameCall.refl (c : Call) : SameCall c c := ⟨rfl, rfl, rfl, Nat.le_refl _⟩

/-- One call moves on; its first attempt is over afterwards. -/
structure Replaces (s s' : Sockets) (i : Nat) (c c' : Call) : Prop where
  before : s.calls[i]? = some c
  after : s'.calls = s.calls.set i c'
  dispatched : s'.dispatched = s.dispatched
  same : SameCall c c'
  stale : ¬ Fresh c'

namespace Replaces

variable {i : Nat} {c c' : Call}

/-- Every call comes from one in the same place. -/
theorem lookup (h : Replaces s s' i c c') {k : Nat} {d : Call} (hk : s'.calls[k]? = some d) :
    ∃ d₀, s.calls[k]? = some d₀ ∧ SameCall d₀ d ∧ (k = i ∧ d = c' ∨ k ≠ i ∧ d₀ = d) := by
  rw [h.after] at hk
  rcases (Lists.getElem?_set_eq_some h.before).mp hk with ⟨rfl, rfl⟩ | ⟨hne, hk⟩
  · exact ⟨c, h.before, h.same, .inl ⟨rfl, rfl⟩⟩
  · exact ⟨d, hk, .refl d, .inr ⟨hne, rfl⟩⟩

/-- A call in its first attempt has not moved. -/
theorem lookup_fresh (h : Replaces s s' i c c') {k : Nat} {d : Call} (hk : s'.calls[k]? = some d)
    (hd : Fresh d) : s.calls[k]? = some d := by
  obtain ⟨d₀, hk₀, -, ⟨-, rfl⟩ | ⟨-, rfl⟩⟩ := h.lookup hk
  · exact absurd hd h.stale
  · exact hk₀

theorem overtakes (h : Replaces s s' i c c') {j : Nat} (hj : Overtakes beside s j) :
    Overtakes beside s' j := by
  obtain ⟨d, hd, hbeside⟩ := hj
  have hlen : j < s'.calls.length := by
    rw [h.after, List.length_set]
    exact (List.getElem?_eq_some_iff.mp hd).1
  have hd' : s'.calls[j]? = some s'.calls[j] := List.getElem?_eq_getElem hlen
  obtain ⟨d₀, hd₀, hsame, -⟩ := h.lookup hd'
  obtain rfl : d = d₀ := Option.some.inj (hd.symm.trans hd₀)
  refine ⟨s'.calls[j], hd', fun k e hkj hk hsv hfresh => ?_⟩
  exact hbeside k e hkj (h.lookup_fresh hk hfresh) (hsv.trans hsame.service) hfresh

/-- If no mode is written, the invariant is kept. -/
theorem inv (h : Replaces s s' i c c') (hinv : SocketsInv cfg beside s) (hok : CallOk cfg s' c')
    (hwritten : s'.written = s.written) : SocketsInv cfg beside s' := by
  refine ⟨fun k d hk => ?_, fun k j d e hkj hk hj => ?_, fun j hj => ?_, ?_⟩
  · obtain ⟨d₀, hk₀, -, ⟨-, rfl⟩ | ⟨-, rfl⟩⟩ := h.lookup hk
    · exact hok
    · exact (hinv.call k d₀ hk₀).extend (h.dispatched ▸ List.prefix_refl _)
  · obtain ⟨d₀, hk₀, hd, -⟩ := h.lookup hk
    obtain ⟨e₀, hj₀, he, -⟩ := h.lookup hj
    rw [hd.issued, he.issued]
    exact hinv.issued k j d₀ e₀ hkj hk₀ hj₀
  · exact h.overtakes (hinv.written j (hwritten ▸ hj))
  · rw [hwritten]
    refine hinv.order.imp fun hr d e hk hj hsv hkj => ?_
    obtain ⟨d₀, hk₀, hd, -⟩ := h.lookup hk
    obtain ⟨e₀, hj₀, he, -⟩ := h.lookup hj
    exact (hr d₀ e₀ hk₀ hj₀ (by rw [← hd.service, hsv, he.service]) hkj).imp_left hd.retried

end Replaces

section Moves

variable {i : Nat} {c : Call}

/-- A socket that has failed waits for its timeout, or is not used any more. -/
theorem SocketsInv.onError (h : SocketsInv cfg beside s) (hi : s.calls[i]? = some c) :
    SocketsInv cfg beside (s.onError i c) := by
  have hc := h.call i c hi
  have hrep : ∀ phase, Replaces s
      { s with calls := s.calls.set i { c with errors := c.errors + 1, phase := phase } } i c
      { c with errors := c.errors + 1, phase := phase } := fun _ =>
    ⟨hi, rfl, rfl, ⟨rfl, rfl, rfl, Nat.le_succ _⟩, fun hf => Nat.succ_ne_zero _ hf.errors⟩
  unfold Sockets.onError
  dsimp only
  split
  · next hretry =>
    apply (hrep .waiting).inv h _ rfl
    exact ⟨fun _ => Nat.le_add_left _ _, fun _ _ => hretry.1, hc.command⟩
  · apply (hrep .closed).inv h _ rfl
    exact ⟨by simp, by simp, hc.command⟩

theorem SocketsInv.onData (h : SocketsInv cfg beside s) (hi : s.calls[i]? = some c) :
    SocketsInv cfg beside (s.onData i c) := by
  have hc := h.call i c hi
  have hrep : Replaces s (s.onData i c) i c { c with phase := .closed } :=
    ⟨hi, rfl, rfl, ⟨rfl, rfl, rfl, Nat.le_refl _⟩, fun hf => nomatch hf.phase⟩
  apply hrep.inv h _ rfl
  exact ⟨by simp, by simp, hc.command⟩

/-- A second attempt is no first one. -/
theorem SocketsInv.onTimeout (h : SocketsInv cfg beside s) (hi : s.calls[i]? = some c)
    (hphase : c.phase = .waiting) : SocketsInv cfg beside (s.onTimeout i c) := by
  have hc := h.call i c hi
  have herrors := hc.waiting hphase
  have hrep : Replaces s (s.onTimeout i c) i c
      { c with listeners := c.listeners + 1, phase := .connecting } :=
    ⟨hi, rfl, rfl, ⟨rfl, rfl, rfl, Nat.le_refl _⟩, fun hf => Nat.ne_of_gt herrors hf.errors⟩
  apply hrep.inv h _ rfl
  exact ⟨by simp, fun _ _ => hc.retried herrors (by simp [hphase]), hc.command⟩

/-- What `beside` has to tell of the action `a`. -/
def Noted (beside : Nat → Nat → Prop) (s : Sockets) (a : ServiceAction) : Prop :=
  ∀ i j c, a = .connected j → s.calls[i]? = some c → Fresh c → beside i j

theorem SocketsInv.connected (h : SocketsInv cfg beside s) (hi : s.calls[i]? = some c)
    (hphase : c.phase = .connecting) (hnoted : Noted beside s (.connected i)) :
    SocketsInv cfg beside (s.connected i c) := by
  have hc := h.call i c hi
  have hretried : 1 ≤ c.errors → c.emergency = true := fun he => hc.retried he (by simp [hphase])
  have hrep : Replaces s
      { s with calls := s.calls.set i { c with listeners := 0, phase := .connected } } i c
      { c with listeners := 0, phase := .connected } :=
    ⟨hi, rfl, rfl, ⟨rfl, rfl, rfl, Nat.le_refl _⟩, fun hf => nomatch hf.phase⟩
  have hinv := hrep.inv h ⟨by simp, fun he _ => hretried he, hc.command⟩ rfl
  refine ⟨fun k d hk => (hinv.call k d hk).extend (List.prefix_refl _), hinv.issued,
    fun j hj => ?_, ?_⟩
  · rcases List.mem_append.mp hj with hold | hnew
    · exact hinv.written j hold
    · obtain rfl := List.eq_of_mem_replicate hnew
      refine ⟨_, (Lists.getElem?_set_eq_some hi).mpr (.inl ⟨rfl, rfl⟩), fun k d _ hk _ hfresh => ?_⟩
      exact hnoted k j d rfl (hrep.lookup_fresh hk hfresh) hfresh
  · refine List.pairwise_append.mpr ⟨hinv.order, ?_, fun j hj k hk d e hd he hsv hkj => ?_⟩
    · refine List.pairwise_of_forall_mem_list fun a ha b hb _ _ _ _ _ hab => ?_
      rw [List.eq_of_mem_replicate ha, List.eq_of_mem_replicate hb] at hab
      exact absurd hab (Nat.lt_irrefl _)
    · -- the later call has been written before, so this one was beside it or is a retry
      obtain rfl := List.eq_of_mem_replicate hk
      obtain ⟨e₀, he₀, hbeside⟩ := h.written j hj
      obtain ⟨d₀, hd₀, hsame, -⟩ := hrep.lookup hd
      obtain ⟨e₁, he₁, hsame', -⟩ := hrep.lookup he
      obtain rfl : c = d₀ := Option.some.inj (hi.symm.trans hd₀)
      obtain rfl : e₀ = e₁ := Option.some.inj (he₀.symm.trans he₁)
      have hservice : c.service = e₀.service := by rw [← hsame.service, hsv, hsame'.service]
      by_cases hzero : c.errors = 0
      · exact .inr (hbeside k c hkj hi hservice ⟨hphase, hzero⟩)
      · have herrors := Nat.one_le_iff_ne_zero.mpr hzero
        exact .inl (hsame.retried ⟨hretried herrors, herrors⟩)

end Moves

theorem SocketsInv.step {a : ServiceAction} (h : SocketsInv cfg beside s)
    (hnoted : Noted beside s a) (hstep : s.step cfg a = some s') : SocketsInv cfg beside s' := by
  cases a with
  | dispatch command =>
    obtain rfl : _ = s' := Option.some.inj hstep
    exact h.dispatch command
  | connected i =>
    obtain ⟨c, hi, hphase, rfl⟩ := onCall_eq_some.mp hstep
    exact h.connected hi hphase hnoted
  | refused i =>
    obtain ⟨c, hi, -, rfl⟩ := onCall_eq_some.mp hstep
    exact h.onError hi
  | data i =>
    obtain ⟨c, hi, -, rfl⟩ := onCall_eq_some.mp hstep
    exact h.onData hi
  | broken i =>
    obtain ⟨c, hi, -, rfl⟩ := onCall_eq_some.mp hstep
    exact h.onError hi
  | timeout i =>
    obtain ⟨c, hi, hphase, rfl⟩ := onCall_eq_some.mp hstep
    exact h.onTimeout hi hphase

/-! ## Every run -/

theorem socketsInv_of_run {as : List ServiceAction}
    (hrun : Transition.run (Sockets.step cfg) .init as = some s) :
    SocketsInv cfg (Beside cfg as) s := by
  have hmeets : Transition.Meets (Sockets.step cfg) (Noted (Beside cfg as)) .init as := by
    refine Transition.meets_of_run hrun fun pre a post t _ has hpre _ _ i j c ha hi hfresh => ?_
    exact ⟨pre, post, t, c, ha ▸ has, hpre, hi, hfresh⟩
  exact Transition.run_invariant_of_meets (fun _ _ _ h hg hstep => h.step hg hstep)
    socketsInv_init hmeets hrun

/-- A mode is written to a service after that of a later command only by a call
of Emergency or AlarmOff whose socket has failed before, or by a first attempt
that was in progress when the later command's call connected. -/
theorem late_write_cases {as : List ServiceAction}
    (hrun : Transition.run (Sockets.step cfg) .init as = some s) {i j : Nat} {c d : Call}
    (h : Late s i j c d) :
    (1 ≤ c.errors ∧ c.emergency = true ∧
      (s.dispatched[c.issued]? = some .Emergency ∨ s.dispatched[c.issued]? = some .AlarmOff)) ∨
    Beside cfg as i j := by
  have hinv := socketsInv_of_run hrun
  have hij : i < j := by
    rcases Nat.lt_trichotomy i j with hij | rfl | hji
    · exact hij
    · obtain rfl : c = d := Option.some.inj (h.call.symm.trans h.other)
      exact absurd h.issued (Nat.lt_irrefl _)
    · exact absurd (hinv.issued j i d c hji h.other h.call) (Nat.not_le_of_lt h.issued)
  obtain ⟨l₁, l₂, hwritten, hlate⟩ := h.written
  have horder := hinv.order
  rw [hwritten] at horder
  have hcons := (List.pairwise_append.mp horder).2.1
  have hcases := (List.pairwise_cons.mp hcons).1 i hlate c d h.call h.other h.service hij
  rcases hcases with hretried | hbeside
  · left
    obtain ⟨command, hcommand, happlied⟩ := (hinv.call i c h.call).command
    refine ⟨hretried.errors, hretried.emergency, ?_⟩
    rw [hretried.emergency] at happlied
    rcases emergency_of_applied happlied with rfl | rfl
    · exact .inl hcommand
    · exact .inr hcommand
  · exact .inr hbeside

/-- The motor refuses the Emergency, is locked, and then the retry succeeds. -/
def lockAfterEmergency : List ServiceAction :=
  [.dispatch .Emergency, .refused 0, .dispatch .Lock, .connected 2, .timeout 0, .connected 0]

theorem late_lockAfterEmergency : ∃ s c d,
    Transition.run (Sockets.step doorconfig) .init lockAfterEmergency = some s ∧
    Late s 0 2 c d :=
  ⟨_, _, _, rfl, rfl, rfl, rfl, by decide, [], [0, 0], rfl, by decide⟩

theorem late_write_cases_lockAfterEmergency :
    ∃ s c d, Transition.run (Sockets.step doorconfig) .init lockAfterEmergency = some s ∧
      Late s 0 2 c d ∧
      ((1 ≤ c.errors ∧ c.emergency = true ∧
        (s.dispatched[c.issued]? = some .Emergency ∨ s.dispatched[c.issued]? = some .AlarmOff)) ∨
      Beside doorconfig lockAfterEmergency 0 2) := by
  obtain ⟨s, c, d, hrun, hlate⟩ := late_lockAfterEmergency
  exact ⟨s, c, d, hrun, hlate, late_write_cases hrun hlate⟩

/-- The Unlock connects while the attempt of the Lock is still in progress. -/
def lockBesideUnlock : List ServiceAction :=
  [.dispatch .Lock, .dispatch .Unlock, .connected 1, .connected 0]

/-- The door is opened again after it has been locked; and a mode can be late
without any retry. -/
theorem modes_written_late :
    (¬ ∀ (as : List ServiceAction) (s : Sockets) (i j : Nat) (c d : Call),
      Transition.run (Sockets.step doorconfig) .init as = some s → ¬ Late s i j c d) ∧
    ¬ ∀ (as : List ServiceAction) (s : Sockets) (i j : Nat) (c d : Call),
      Transition.run (Sockets.step doorconfig) .init as = some s → Late s i j c d →
      1 ≤ c.errors := by
  constructor
  · intro h
    obtain ⟨s, c, d, hrun, hlate⟩ := late_lockAfterEmergency
    exact h _ s 0 2 c d hrun hlate
  · intro h
    obtain ⟨s, c, d, hrun, herrors, hlate⟩ : ∃ s c d,
        Transition.run (Sockets.step doorconfig) .init lockBesideUnlock = some s ∧
        c.errors = 0 ∧ Late s 0 1 c d :=
      ⟨_, _, _, rfl, rfl, rfl, rfl, rfl, by decide, [], [0], rfl, by decide⟩
    exact absurd (h _ s 0 1 c d hrun hlate) (by simp [herrors])

end SmartDoor.Online
