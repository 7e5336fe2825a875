-- SUMMARY: Nothing moves the lock unasked: every request that the motor server takes has its own command or its own spoken words behind it.
import SmartDoor.House.System
import SmartDoor.Online.Dispatch
import SmartDoor.Motor.Streams

/-!
# Where the motor's requests come from

A message of the motor server is cut from what one client wrote on its connection.
A connection was made for a call of `applyService`, which was made for a command
that somebody wrote, or for a result of the speech recognition. Only the calls of
Emergency connect again; all others make one connection and write their mode once
on it, so whatever the network does, each command is taken once at most.
-/

namespace SmartDoor.House

open Online

variable {C : Type} [DecidableEq C] {S : Setting C} {h h' : State C}

/-! ## The invariant -/

/-- The call is one of Emergency or AlarmOff, which connect again after a failure. -/
def Opener.Repeats (h : State C) : Opener → Prop
  | .call i => ∃ r, h.online.sockets.requests[i]? = some r ∧ r.emergency = true
  | .voice _ => False

/-- What is known of a connection from its opener. -/
def Connection.Backed (toUpperCase : String → String) (h : State C) (c : Connection) : Prop :=
  match c.opener with
  | .call i => ∃ r n, h.online.sockets.requests[i]? = some r ∧ c.service = r.service ∧
    c.sent = (List.replicate n r.mode.toList).flatten ∧ (r.emergency = false → n = 1)
  | .voice j => c.service = .Motor ∧ c.sent = "Open".toList ∧
    ∃ words, h.heard[j]? = some (some words) ∧ toUpperCase words = "OPEN SESAME"

/-- A call that does not repeat: it is connecting for the first time, or has connected
or failed for good. -/
structure Single (h : State C) (i : Nat) (c : Call) : Prop where
  first : c.phase = .connecting → c.listeners = 1 ∧ ∀ x ∈ h.connections, x.opener ≠ .call i
  last : c.phase ≠ .waiting

/-- The bytes that have arrived at the motor server on the `k`th connection. -/
def arrivedAtMotor (h : State C) (k : Nat) : List Char :=
  match h.connections[k]? with
  | some c => if c.service = .Motor then c.sent.take (h.arrived k) else []
  | none => []

/-- What holds in every reachable state of the house. -/
structure Inv (S : Setting C) (h : State C) : Prop where
  online : h.online.Inv S.cfg
  taken : h.recordings ≤ h.knock.sent.length
  given : h.heard.length ≤ h.recordings
  backed : ∀ c ∈ h.connections, c.Backed S.toUpperCase h
  apart : h.connections.Pairwise fun c c' => c.opener = c'.opener → c.opener.Repeats h
  single : ∀ i c, h.online.sockets.calls[i]? = some c → c.emergency = false → Single h i c
  stream : ∀ k, h.motor.stream k = arrivedAtMotor h k
  unmade : ∀ k, h.connections.length ≤ k → h.arrived k = 0

/-! ## What later states keep -/

omit [DecidableEq C] in
theorem Opener.Repeats.mono {o : Opener} (ho : o.Repeats h)
    (hrequests : h.online.sockets.requests <+: h'.online.sockets.requests) : o.Repeats h' := by
  cases o with
  | call i =>
    obtain ⟨r, hr, hemergency⟩ := ho
    exact ⟨r, Lists.getElem?_of_prefix hrequests hr, hemergency⟩
  | voice j => exact ho

omit [DecidableEq C] in
theorem Connection.Backed.mono {c : Connection} (hc : c.Backed S.toUpperCase h)
    (hrequests : h.online.sockets.requests <+: h'.online.sockets.requests)
    (hheard : h.heard <+: h'.heard) : c.Backed S.toUpperCase h' := by
  unfold Connection.Backed at hc ⊢
  split
  · next i hi =>
    rw [hi] at hc
    obtain ⟨r, n, hr, hrest⟩ := hc
    exact ⟨r, n, Lists.getElem?_of_prefix hrequests hr, hrest⟩
  · next j hj =>
    rw [hj] at hc
    obtain ⟨hservice, hsent, words, hwords, hupper⟩ := hc
    exact ⟨hservice, hsent, words, Lists.getElem?_of_prefix hheard hwords, hupper⟩

omit [DecidableEq C] in
/-- A connection that has just been made has brought nothing yet. -/
theorem Inv.arrived_append (hunmade : ∀ k, h.connections.length ≤ k → h.arrived k = 0)
    {new : List Connection} (hconnections : h'.connections = h.connections ++ new)
    (harrived : h'.arrived = h.arrived) (k : Nat) : arrivedAtMotor h' k = arrivedAtMotor h k := by
  unfold arrivedAtMotor
  rw [hconnections, harrived]
  by_cases hk : k < h.connections.length
  · rw [List.getElem?_append_left hk]
  · rw [List.getElem?_eq_none (Nat.le_of_not_lt hk), hunmade k (Nat.le_of_not_lt hk)]
    cases (h.connections ++ new)[k]? with
    | none => rfl
    | some c => simp

/-- The frame of the steps that neither move `online.js` nor make connections. -/
theorem Inv.frame (hinv : Inv S h) (honline : h'.online = h.online)
    (hconnections : h'.connections = h.connections) (hheard : h'.heard = h.heard)
    (htaken : h'.recordings ≤ h'.knock.sent.length) (hgiven : h.recordings ≤ h'.recordings)
    (hstream : ∀ k, h'.motor.stream k = arrivedAtMotor h' k)
    (hunmade : ∀ k, h.connections.length ≤ k → h'.arrived k = 0) : Inv S h' := by
  have hrequests : h.online.sockets.requests <+: h'.online.sockets.requests :=
    honline ▸ List.prefix_refl _
  refine ⟨honline ▸ hinv.online, htaken, ?_, ?_, ?_, ?_, hstream, by rwa [hconnections]⟩
  · rw [hheard]
    exact Nat.le_trans hinv.given hgiven
  · rw [hconnections]
    exact fun c hc => (hinv.backed c hc).mono hrequests (hheard ▸ List.prefix_refl _)
  · rw [hconnections]
    exact hinv.apart.imp fun hrep heq => (hrep heq).mono hrequests
  · rw [honline]
    intro i c hi hemergency
    obtain ⟨hfirst, hlast⟩ := hinv.single i c hi hemergency
    exact ⟨by rw [hconnections]; exact hfirst, hlast⟩

/-! ## A move of `online.js` -/

/-- Calls that have just been made have not connected yet. -/
theorem Inv.single_of_append (hinv : Inv S h) {new : List Call}
    (hcalls : h'.online.sockets.calls = h.online.sockets.calls ++ new)
    (hnew : ∀ c ∈ new, New c) (hconnections : h'.connections = h.connections) {i : Nat} {c : Call}
    (hi : h'.online.sockets.calls[i]? = some c) (hemergency : c.emergency = false) :
    Single h' i c := by
  rw [hcalls, List.getElem?_append] at hi
  split at hi
  · obtain ⟨hfirst, hlast⟩ := hinv.single i c hi hemergency
    exact ⟨by rwa [hconnections], hlast⟩
  · next hge =>
    obtain ⟨hphase, -, hlisteners⟩ := hnew c (List.mem_of_getElem? hi)
    refine ⟨fun _ => ⟨hlisteners, fun x hx hopener => ?_⟩, by simp [hphase]⟩
    rw [hconnections] at hx
    -- a connection belongs to a call that had been made
    have hbacked := hinv.backed x hx
    rw [Connection.Backed, hopener] at hbacked
    obtain ⟨r, n, hr, -⟩ := hbacked
    have hlt := (List.getElem?_eq_some_iff.mp hr).1
    rw [Sockets.requests, List.length_map] at hlt
    exact hge hlt

/-- Where a call that does not repeat stands after its socket has moved. -/
theorem Single.of_set {i : Nat} {c c' : Call} (hinv : Inv S h)
    (hi : h.online.sockets.calls[i]? = some c)
    (hcalls : h'.online.sockets.calls = h.online.sockets.calls.set i c')
    (hconnections : ∀ x ∈ h'.connections, x ∈ h.connections ∨ x.opener = .call i)
    (hemergency : c'.emergency = c.emergency)
    (hphase : c.emergency = false → c'.phase = .connected ∨ c'.phase = .closed)
    {j : Nat} {d : Call} (hj : h'.online.sockets.calls[j]? = some d) (hd : d.emergency = false) :
    Single h' j d := by
  rw [hcalls] at hj
  rcases (Lists.getElem?_set_eq_some hi).mp hj with ⟨rfl, rfl⟩ | ⟨hne, hj⟩
  · rcases hphase (hemergency ▸ hd) with hp | hp
    · exact ⟨by simp [hp], by simp [hp]⟩
    · exact ⟨by simp [hp], by simp [hp]⟩
  · obtain ⟨hfirst, hlast⟩ := hinv.single j d hj hd
    refine ⟨fun hconn => ⟨(hfirst hconn).1, fun x hx hopener => ?_⟩, hlast⟩
    rcases hconnections x hx with hx | hx
    · exact (hfirst hconn).2 x hx hopener
    · rw [hx] at hopener
      exact hne (Opener.call.inj hopener).symm

omit [DecidableEq C] in
theorem opened_eq {i : Nat} {c : Call} (hi : h.online.sockets.calls[i]? = some c) :
    opened (C := C) h.online.sockets (.socket (.connected i)) =
      [⟨.call i, c.service, (List.replicate c.listeners c.mode.toList).flatten⟩] := by
  simp [opened, hi]

/-- The connection of a call that has just connected. -/
theorem Inv.connected (hinv : Inv S h) {i : Nat} {c : Call} {x : Connection}
    (hi : h.online.sockets.calls[i]? = some c) (hphase : c.phase = .connecting)
    (hx : x = ⟨.call i, c.service, (List.replicate c.listeners c.mode.toList).flatten⟩) :
    x.Backed S.toUpperCase h ∧ ∀ y ∈ h.connections, y.opener = x.opener → y.opener.Repeats h := by
  subst hx
  have hrequest : h.online.sockets.requests[i]? = some c.request := by
    rw [Sockets.requests, List.getElem?_map, hi]
    rfl
  refine ⟨⟨c.request, c.listeners, hrequest, rfl, rfl, fun he => ?_⟩, fun y hy hopener => ?_⟩
  · exact ((hinv.single i c hi he).first hphase).1
  · rw [hopener]
    refine ⟨c.request, hrequest, ?_⟩
    by_contra he
    have hemergency : c.emergency = false := by simpa [Call.request] using he
    exact ((hinv.single i c hi hemergency).first hphase).2 y hy hopener

/-- The frame of the steps that make connections. -/
theorem Inv.extend (hinv : Inv S h) (h' : State C) (new : List Connection)
    (honline : h'.online.Inv S.cfg)
    (hrequests : h.online.sockets.requests <+: h'.online.sockets.requests)
    (hheard : h.heard <+: h'.heard) (htaken : h'.recordings ≤ h'.knock.sent.length)
    (hgiven : h'.heard.length ≤ h'.recordings)
    (hconnections : h'.connections = h.connections ++ new)
    (hbacked : ∀ c ∈ new, c.Backed S.toUpperCase h') (hnew : new.length ≤ 1)
    (hapart : ∀ c ∈ new, ∀ y ∈ h.connections, y.opener = c.opener → y.opener.Repeats h')
    (hsingle : ∀ i c, h'.online.sockets.calls[i]? = some c → c.emergency = false → Single h' i c)
    (hmotor : h'.motor = h.motor) (harrived : h'.arrived = h.arrived) : Inv S h' := by
  refine ⟨honline, htaken, hgiven, fun c hc => ?_, ?_, hsingle, fun k => ?_, fun k hk => ?_⟩
  · rw [hconnections] at hc
    rcases List.mem_append.mp hc with hc | hc
    · exact (hinv.backed c hc).mono hrequests hheard
    · exact hbacked c hc
  · rw [hconnections]
    refine List.pairwise_append.mpr ⟨?_, ?_, fun y hy c hc heq => hapart c hc y hy heq⟩
    · exact hinv.apart.imp fun hrep heq => (hrep heq).mono hrequests
    · match new, hnew with
      | [], _ => exact List.Pairwise.nil
      | [c], _ => exact List.pairwise_singleton _ _
  · rw [hmotor, hinv.stream, Inv.arrived_append hinv.unmade hconnections harrived]
  · rw [harrived]
    refine hinv.unmade k (Nat.le_trans ?_ hk)
    rw [hconnections, List.length_append]
    exact Nat.le_add_right _ _

theorem Inv.online_step (hinv : Inv S h) {a : ProcessAction C} {online : Process C}
    (hstep : h.online.step S.cfg S.nameOf a = some online)
    (hh' : h' = { h with
      online := online
      connections := h.connections ++ opened h.online.sockets a }) : Inv S h' := by
  have hrequests : h.online.sockets.requests <+: h'.online.sockets.requests := by
    rw [hh']
    exact requests_prefix_of_step hstep
  have honline : h'.online.Inv S.cfg := by
    rw [hh']
    exact hinv.online.step hstep
  have hextend := fun hbacked hnew hapart hsingle =>
    hinv.extend h' (opened h.online.sockets a) honline hrequests
      (by subst hh'; exact List.prefix_refl _) (by rw [hh']; exact hinv.taken)
      (by rw [hh']; exact hinv.given) (by rw [hh']) hbacked hnew hapart hsingle
      (by rw [hh']) (by rw [hh'])
  cases a with
  | node a =>
    refine hextend (by simp [opened]) (by simp [opened]) (by simp [opened]) ?_
    obtain ⟨node, -, rfl⟩ := Option.map_eq_some_iff.mp hstep
    obtain ⟨new, hcalls, hnew⟩ := follow_calls S.cfg
      (node.trace.drop h.online.node.trace.length) h.online.sockets
    exact fun i c hi he => hinv.single_of_append (by rw [hh']; exact hcalls) hnew
      (by rw [hh']; simp [opened]) hi he
  | socket a =>
    cases a with
    | dispatch command => cases hstep
    | connected i =>
      obtain ⟨sockets, hsockets, rfl⟩ := Option.map_eq_some_iff.mp hstep
      obtain ⟨c, hi, hphase, rfl⟩ := onCall_eq_some.mp hsockets
      have hopened := opened_eq hi
      obtain ⟨hbacked, hapart⟩ := hinv.connected hi hphase rfl
      rw [hopened] at hextend
      refine hextend ?_ (by simp) ?_ fun j d hj hd => ?_
      · intro x hx
        obtain rfl := List.mem_singleton.mp hx
        exact hbacked.mono hrequests (by subst hh'; exact List.prefix_refl _)
      · intro x hx y hy hopener
        obtain rfl := List.mem_singleton.mp hx
        exact (hapart y hy hopener).mono hrequests
      · have hcalls : h'.online.sockets.calls = (h.online.sockets.connected i c).calls := by
          rw [hh']
        refine Single.of_set hinv hi hcalls (fun x hx => ?_) rfl (fun _ => .inl rfl) hj hd
        rw [hh', hopened] at hx
        rcases List.mem_append.mp hx with hx | hx
        · exact .inl hx
        · obtain rfl := List.mem_singleton.mp hx
          exact .inr rfl
    | refused i | broken i =>
      obtain ⟨sockets, hsockets, rfl⟩ := Option.map_eq_some_iff.mp hstep
      obtain ⟨c, hi, hphase, rfl⟩ := onCall_eq_some.mp hsockets
      refine hextend (by simp [opened]) (by simp [opened]) (by simp [opened]) fun j d hj hd => ?_
      have hcalls : h'.online.sockets.calls = (h.online.sockets.onError i c).calls := by
        rw [hh']
      refine Single.of_set hinv hi hcalls (fun x hx => .inl ?_) rfl
        (fun he => .inr (by simp [he])) hj hd
      rw [hh'] at hx
      simpa [opened] using hx
    | data i =>
      obtain ⟨sockets, hsockets, rfl⟩ := Option.map_eq_some_iff.mp hstep
      obtain ⟨c, hi, hphase, rfl⟩ := onCall_eq_some.mp hsockets
      refine hextend (by simp [opened]) (by simp [opened]) (by simp [opened]) fun j d hj hd => ?_
      have hcalls : h'.online.sockets.calls = (h.online.sockets.onData i c).calls := by
        rw [hh']
      refine Single.of_set hinv hi hcalls (fun x hx => .inl ?_) rfl (fun _ => .inr rfl) hj hd
      rw [hh'] at hx
      simpa [opened] using hx
    | timeout i =>
      obtain ⟨sockets, hsockets, rfl⟩ := Option.map_eq_some_iff.mp hstep
      obtain ⟨c, hi, hphase, rfl⟩ := onCall_eq_some.mp hsockets
      refine hextend (by simp [opened]) (by simp [opened]) (by simp [opened]) fun j d hj hd => ?_
      have hcalls : h'.online.sockets.calls = (h.online.sockets.onTimeout i c).calls := by
        rw [hh']
      refine Single.of_set hinv hi hcalls (fun x hx => .inl ?_) rfl
        (fun he => absurd hphase (hinv.single i c hi he).last) hj hd
      rw [hh'] at hx
      simpa [opened] using hx

/-! ## The other moves -/

theorem sent_length_le (p : Knockdetect.Process) (s : Knockdetect.Sample) :
    p.sent.length ≤ (p.tick s).sent.length := by
  have hreport : ∀ q : Knockdetect.Process, q.sent = p.sent →
      p.sent.length ≤ (if q.knockCount ≥ 3 then q.report s else q).sent.length := by
    intro q hq
    split
    · simp [Knockdetect.Process.report, hq]
    · rw [hq]
  refine hreport _ ?_
  simp only [apply_ite Knockdetect.Process.sent, Knockdetect.Process.took, ite_self]

omit [DecidableEq C] in
/-- Bytes that arrive are the next ones of their connection. -/
theorem arrivedAtMotor_bytes {k n : Nat} {c : Connection} (hk : h.connections[k]? = some c)
    (hconnections : h'.connections = h.connections)
    (harrived : h'.arrived = Function.update h.arrived k (h.arrived k + n)) (j : Nat) :
    arrivedAtMotor h' j = arrivedAtMotor h j ++
      (if j = k ∧ c.service = .Motor then (c.sent.drop (h.arrived k)).take n else []) := by
  unfold arrivedAtMotor
  rw [hconnections, harrived]
  by_cases hj : j = k
  · subst hj
    rw [hk]
    by_cases hservice : c.service = .Motor
    · simp [hservice, List.take_add]
    · simp [hservice]
  · simp [hj]

theorem Inv.receive (hinv : Inv S h) {k n : Nat} {c : Connection}
    (hk : h.connections[k]? = some c) {state : State C}
    (hstate : state = { h with arrived := Function.update h.arrived k (h.arrived k + n) })
    (hstep : state.receive S k c.service (String.ofList ((c.sent.drop (h.arrived k)).take n)) =
      some h') : Inv S h' := by
  have hlt : k < h.connections.length := (List.getElem?_eq_some_iff.mp hk).1
  have hunmade : ∀ j, h.connections.length ≤ j →
      Function.update h.arrived k (h.arrived k + n) j = 0 := by
    intro j hj
    rw [Function.update_of_ne (by omega)]
    exact hinv.unmade j hj
  have hframe : h'.online = h.online → h'.connections = h.connections → h'.heard = h.heard →
      h'.recordings = h.recordings → h'.knock = h.knock →
      h'.arrived = Function.update h.arrived k (h.arrived k + n) →
      (∀ j, h'.motor.stream j = h.motor.stream j ++
        if j = k ∧ c.service = .Motor then (c.sent.drop (h.arrived k)).take n else []) →
      Inv S h' := by
    intro honline hconnections hheard hrecordings hknock harrived hstream
    refine hinv.frame honline hconnections hheard (by rw [hrecordings, hknock]; exact hinv.taken)
      (Nat.le_of_eq hrecordings.symm) (fun j => ?_) (by rw [harrived]; exact hunmade)
    rw [arrivedAtMotor_bytes hk hconnections harrived, hstream, hinv.stream]
  subst hstate
  unfold State.receive at hstep
  split at hstep
  · next hservice =>
    obtain ⟨motor, hmotor, rfl⟩ := Option.map_eq_some_iff.mp hstep
    refine hframe rfl rfl rfl rfl rfl rfl fun j => (Motor.stream_arrive hmotor).2.trans ?_
    simp [hservice]
  · next hservice =>
    obtain rfl : _ = h' := Option.some.inj hstep
    exact hframe rfl rfl rfl rfl rfl rfl fun j => by simp [hservice]

/-- The speech service makes at most one connection for a result. -/
theorem Inv.recognized (hinv : Inv S h) {result : Option String}
    (hlt : h.heard.length < h.recordings)
    (hh' : h' = { h with
      heard := h.heard ++ [result]
      connections := h.connections ++ answered S.toUpperCase h.heard.length result }) :
    Inv S h' := by
  have hsame : h'.online = h.online := by rw [hh']
  refine hinv.extend h' (answered S.toUpperCase h.heard.length result) (hsame ▸ hinv.online)
    (hsame ▸ List.prefix_refl _) (by rw [hh']; exact List.prefix_append _ _)
    (by rw [hh']; exact hinv.taken) (by rw [hh', List.length_append]; exact hlt) (by rw [hh'])
    (fun c hc => ?_) ?_ (fun c hc y hy hopener => ?_) (fun i c hi he => ?_) (by rw [hh'])
    (by rw [hh'])
  · unfold answered at hc
    split at hc
    · next hwords =>
      obtain rfl := List.mem_singleton.mp hc
      obtain ⟨words, rfl, hupper⟩ := Option.map_eq_some_iff.mp hwords
      exact ⟨rfl, rfl, words, by rw [hh']; simp, hupper⟩
    · cases hc
  · unfold answered
    split <;> simp
  · -- no connection was made for this result before
    unfold answered at hc
    split at hc
    · obtain rfl := List.mem_singleton.mp hc
      have hbacked := hinv.backed y hy
      rw [Connection.Backed, hopener] at hbacked
      obtain ⟨-, -, words, hwords, -⟩ := hbacked
      simp at hwords
    · cases hc
  · rw [hsame] at hi
    obtain ⟨hfirst, hlast⟩ := hinv.single i c hi he
    refine ⟨fun hphase => ⟨(hfirst hphase).1, fun x hx => ?_⟩, hlast⟩
    rw [hh'] at hx
    rcases List.mem_append.mp hx with hx | hx
    · exact (hfirst hphase).2 x hx
    · unfold answered at hx
      split at hx
      · obtain rfl := List.mem_singleton.mp hx
        simp
      · cases hx

theorem Inv.step {a : Action C} (hinv : Inv S h) (hstep : h.step S a = some h') : Inv S h' := by
  cases a with
  | online a =>
    obtain ⟨online, honline, rfl⟩ := Option.map_eq_some_iff.mp hstep
    exact hinv.online_step honline rfl
  | knock s =>
    obtain rfl : _ = h' := Option.some.inj hstep
    exact hinv.frame rfl rfl rfl (Nat.le_trans hinv.taken (sent_length_le h.knock s))
      (Nat.le_refl _) hinv.stream hinv.unmade
  | record =>
    simp only [State.step] at hstep
    split at hstep
    · next hlt =>
      obtain rfl : _ = h' := Option.some.inj hstep
      exact hinv.frame rfl rfl rfl hlt (Nat.le_succ _) hinv.stream hinv.unmade
    · cases hstep
  | recognized result =>
    simp only [State.step] at hstep
    split at hstep
    · next hlt =>
      obtain rfl : _ = h' := Option.some.inj hstep
      exact hinv.recognized hlt rfl
    · cases hstep
  | bytes k n =>
    simp only [State.step] at hstep
    split at hstep
    · next c hk =>
      split at hstep
      · exact hinv.receive hk rfl hstep
      · cases hstep
    · cases hstep
  | motor a =>
    have hmotor : ∀ {motor}, (∀ socket text, a ≠ .arrive socket text) →
        h.motor.step S.cfg S.sensor a = some motor → Inv S { h with motor := motor } := by
      intro motor ha hm
      refine hinv.frame rfl rfl rfl hinv.taken (Nat.le_refl _) (fun k => ?_) hinv.unmade
      exact (Motor.stream_of_step ha hm).trans (hinv.stream k)
    cases a with
    | arrive socket text => cases hstep
    | data socket n =>
      obtain ⟨motor, hm, rfl⟩ := Option.map_eq_some_iff.mp hstep
      exact hmotor (by simp) hm
    | exec i =>
      obtain ⟨motor, hm, rfl⟩ := Option.map_eq_some_iff.mp hstep
      exact hmotor (by simp) hm
  | serial data =>
    obtain rfl : _ = h' := Option.some.inj hstep
    exact hinv.frame rfl rfl rfl hinv.taken (Nat.le_refl _) hinv.stream hinv.unmade
  | interval =>
    obtain rfl : _ = h' := Option.some.inj hstep
    exact hinv.frame rfl rfl rfl hinv.taken (Nat.le_refl _) hinv.stream hinv.unmade

theorem Inv.init {reading : Int} : Inv S (.init S.cfg reading) where
  online := .init
  taken := Nat.le_refl _
  given := Nat.le_refl _
  backed := by simp [State.init]
  apart := by simp [State.init]
  single := by simp [State.init, Process.init, Sockets.init]
  stream := fun k => rfl
  unmade := fun _ _ => rfl

theorem inv_of_run {reading : Int} {as : List (Action C)}
    (hrun : Transition.run (State.step S) (.init S.cfg reading) as = some h) : Inv S h :=
  Transition.run_invariant (fun _ _ _ hinv hstep => hinv.step hstep) .init hrun

/-! ## What is behind a message -/

theorem Position.eq_of_subset {p q : Position} (h : q.text.toList ⊆ p.text.toList) : q = p := by
  cases p <;> cases q <;> first | rfl | exact absurd h (by decide)

theorem mem_applied {cfg : DoorConfig} {command : Command} {r : Request}
    (h : r.args ∈ applied cfg command) :
    .applyService r.service r.mode r.emergency ∈ branch cfg ⟨none, none⟩ command := by
  obtain ⟨e, he, hcall⟩ := List.mem_filterMap.mp h
  cases e with
  | applyService service mode emergency =>
    obtain ⟨rfl, rfl, rfl⟩ : service = r.service ∧ mode = r.mode ∧ emergency = r.emergency := by
      simpa [Effect.call?, Request.args] using hcall
    exact he
  | set | storeLog | dispatch | sendnotification => simp [Effect.call?] at hcall

/-- What the calls to the motor ask for, and which of them repeat. -/
theorem motor_args {cfg : DoorConfig} {command : Command} {r : Request}
    (h : r.args ∈ applied cfg command) (hservice : r.service = .Motor) :
    ∃ p : Position, r.mode = p.text ∧ asks p command ∧
      (r.emergency = true → command = .Emergency) := by
  have hmem := mem_applied h
  rw [hservice] at hmem
  cases command with
  | Lock =>
    obtain ⟨-, hmode, hemergency⟩ : cfg.motorService = true ∧ r.mode = "Close" ∧
      r.emergency = false := by simpa [branch] using hmem
    exact ⟨.Close, hmode, .inl ⟨rfl, rfl⟩, by simp [hemergency]⟩
  | Unlock =>
    obtain ⟨-, hmode, hemergency⟩ : cfg.motorService = true ∧ r.mode = "Open" ∧
      r.emergency = false := by simpa [branch] using hmem
    exact ⟨.Open, hmode, .inr ⟨rfl, .inl rfl⟩, by simp [hemergency]⟩
  | AlarmOff => simp [branch] at hmem
  | Emergency =>
    obtain ⟨-, hmode, -⟩ : cfg.motorService = true ∧ r.mode = "Open" ∧ r.emergency = true := by
      simpa [branch] using hmem
    exact ⟨.Open, hmode, .inr ⟨rfl, .inr rfl⟩, fun _ => rfl⟩

/-- The message at the `i`th entry of the log asks for `p` and came on the connection `c`. -/
structure Behind (S : Setting C) (h : State C) (i : Nat) (p : Position) (k : Nat)
    (c : Connection) : Prop where
  log : h.motor.board.log[i]? = some (.data k p.text)
  connection : h.connections[k]? = some c
  cause : cause h i = c.opener.cause h
  causes : Causes S.toUpperCase h p (c.opener.cause h)
  sent : h.motor.stream k <+: c.sent
  again : c.opener.Repeats h → ∃ t, c.opener.cause h = .command t ∧ Wrote h t .Emergency
  whole : ¬ c.opener.Repeats h → c.sent = p.text.toList
  service : c.service = .Motor

theorem Inv.behind_of_taken (hinv : Inv S h) {i : Nat} {p : Position} (htaken : TakenAt h i p) :
    ∃ k c, Behind S h i p k c := by
  obtain ⟨k, hlog⟩ := htaken
  have hchars : ∀ x ∈ p.text.toList, x ∈ arrivedAtMotor h k := by
    intro x hx
    rw [← hinv.stream]
    exact Motor.mem_stream_of_taken hlog hx
  obtain ⟨x, hx⟩ : ∃ x, x ∈ p.text.toList := by cases p <;> exact ⟨_, List.mem_cons_self⟩
  -- bytes have arrived, so there is a connection to the motor server
  obtain ⟨c, hk, hservice, harrived⟩ : ∃ c, h.connections[k]? = some c ∧ c.service = .Motor ∧
      arrivedAtMotor h k = c.sent.take (h.arrived k) := by
    have hmem := hchars x hx
    unfold arrivedAtMotor at hmem ⊢
    split at hmem
    · next c hk =>
      split at hmem
      · next hservice => exact ⟨c, hk, hservice, by simp [hservice]⟩
      · cases hmem
    · cases hmem
  have hsubset : p.text.toList ⊆ c.sent := fun y hy =>
    List.mem_of_mem_take (harrived ▸ hchars y hy)
  have hcause : House.cause h i = c.opener.cause h := by
    simp [House.cause, hlog, Motor.Event.data?, hk]
  have hsent : h.motor.stream k <+: c.sent := by
    rw [hinv.stream, harrived]
    exact List.take_prefix _ _
  have hbacked := hinv.backed c (List.mem_of_getElem? hk)
  unfold Connection.Backed at hbacked
  split at hbacked
  · next j hj =>
    obtain ⟨r, n, hr, hrservice, hwritten, honce⟩ := hbacked
    rw [Sockets.requests, List.getElem?_map] at hr
    obtain ⟨call, hcall, rfl⟩ := Option.map_eq_some_iff.mp hr
    obtain ⟨command, hwrote, hargs⟩ := hinv.online.origin hcall
    obtain ⟨q, hmode, hasks, hemergency⟩ := motor_args hargs (hrservice ▸ hservice)
    have hpq : p = q := by
      refine Position.eq_of_subset fun y hy => ?_
      have hmem := hsubset hy
      rw [hwritten, hmode, List.mem_flatten] at hmem
      obtain ⟨l, hl, hyl⟩ := hmem
      rwa [List.eq_of_mem_replicate hl] at hyl
    subst hpq
    have hrequest : h.online.sockets.requests[j]? = some call.request := by
      rw [Sockets.requests, List.getElem?_map, hcall]
      rfl
    refine ⟨k, c, hlog, hk, hcause, ?_, hsent, fun hrep => ?_, fun hrep => ?_, hservice⟩
    · rw [hj]
      exact ⟨command, hasks, hwrote⟩
    · rw [hj] at hrep ⊢
      obtain ⟨r', hr', he⟩ := hrep
      obtain rfl := Option.some.inj (hrequest.symm.trans hr')
      obtain rfl := hemergency he
      exact ⟨_, rfl, hwrote⟩
    · have hfirst : call.request.emergency = false := by
        by_contra he
        exact hrep (by rw [hj]; exact ⟨_, hrequest, by simpa using he⟩)
      rw [hwritten, honce hfirst, hmode]
      simp
  · next j hj =>
    obtain ⟨-, hwritten, words, hwords, hupper⟩ := hbacked
    have hp : p = .Open := Position.eq_of_subset (hwritten ▸ hsubset)
    have hlt : j < h.heard.length := (List.getElem?_eq_some_iff.mp hwords).1
    refine ⟨k, c, hlog, hk, hcause, ?_, hsent, fun hrep => ?_, fun _ => ?_, hservice⟩
    · rw [hj]
      exact ⟨hp, Nat.lt_of_lt_of_le hlt (Nat.le_trans hinv.given hinv.taken), words, hwords, hupper⟩
    · rw [hj] at hrep
      exact hrep.elim
    · rw [hwritten, hp]
      rfl

/-- Two connections to the motor server with one thing behind them have one opener. -/
theorem Inv.opener_eq (hinv : Inv S h) {c d : Connection} (hc : c ∈ h.connections)
    (hd : d ∈ h.connections) (hservice : c.service = .Motor) (hservice' : d.service = .Motor)
    (hcause : c.opener.cause h = d.opener.cause h) : c.opener = d.opener := by
  have hbacked := hinv.backed c hc
  have hbacked' := hinv.backed d hd
  unfold Connection.Backed at hbacked hbacked'
  cases hco : c.opener with
  | voice i =>
    cases hdo : d.opener with
    | voice j =>
      rw [hco, hdo] at hcause
      exact congrArg _ (Cause.voice.inj hcause)
    | call j =>
      rw [hco, hdo] at hcause
      cases hcause
  | call i =>
    cases hdo : d.opener with
    | voice j =>
      rw [hco, hdo] at hcause
      cases hcause
    | call j =>
      rw [hco] at hcause hbacked
      rw [hdo] at hcause hbacked'
      obtain ⟨r, -, hr, hrservice, -⟩ := hbacked
      obtain ⟨r', -, hr', hrservice', -⟩ := hbacked'
      rw [Sockets.requests, List.getElem?_map] at hr hr'
      obtain ⟨call, hcall, rfl⟩ := Option.map_eq_some_iff.mp hr
      obtain ⟨call', hcall', rfl⟩ := Option.map_eq_some_iff.mp hr'
      have hsame : call.service = call'.service :=
        (hrservice ▸ hservice).trans (hrservice' ▸ hservice').symm
      exact congrArg _ (hinv.online.origin_injective hcall hcall' hsame (Cause.command.inj hcause))

/-- An opener that does not repeat has made one connection. -/
theorem Inv.connection_eq (hinv : Inv S h) {k l : Nat} {c d : Connection}
    (hk : h.connections[k]? = some c) (hl : h.connections[l]? = some d)
    (hopener : c.opener = d.opener) (hrep : ¬ c.opener.Repeats h) : k = l := by
  have hapart := List.pairwise_iff_getElem.mp hinv.apart
  obtain ⟨hlt, rfl⟩ := List.getElem?_eq_some_iff.mp hk
  obtain ⟨hlt', rfl⟩ := List.getElem?_eq_some_iff.mp hl
  rcases Nat.lt_trichotomy k l with hkl | rfl | hkl
  · exact absurd (hapart k l hlt hlt' hkl hopener) hrep
  · rfl
  · exact absurd (hopener ▸ hapart l k hlt' hlt hkl hopener.symm) hrep

/-- Two messages with one thing behind them are one, unless that repeats. -/
theorem Inv.eq_of_cause (hinv : Inv S h) {i j k l : Nat} {p q : Position} {c d : Connection}
    (hi : Behind S h i p k c) (hj : Behind S h j q l d)
    (hcause : c.opener.cause h = d.opener.cause h) (hrep : ¬ c.opener.Repeats h) : i = j := by
  have hopener : c.opener = d.opener := hinv.opener_eq (List.mem_of_getElem? hi.connection)
    (List.mem_of_getElem? hj.connection) hi.service hj.service hcause
  obtain rfl : k = l := hinv.connection_eq hi.connection hj.connection hopener hrep
  obtain rfl : c = d := Option.some.inj (hi.connection.symm.trans hj.connection)
  have hp : p.text.toList = q.text.toList := (hi.whole hrep).symm.trans (hj.whole hrep)
  obtain rfl : p = q := Motor.Position.text_injective (String.toList_inj.mp hp)
  refine Motor.eq_of_taken (fun htext => ?_) (hi.whole hrep ▸ hi.sent) hi.log hj.log
  cases p <;> exact absurd htext (by decide)

/-- In every reachable state of the house, each request that the motor server has taken
has a command or spoken words behind it, and no two have the same, unless it is a
command for an emergency. -/
theorem taken_caused {reading : Int} {as : List (Action C)}
    (hrun : Transition.run (State.step S) (.init S.cfg reading) as = some h) :
    (∀ i p, TakenAt h i p → Causes S.toUpperCase h p (cause h i)) ∧
    ∀ i j p q, TakenAt h i p → TakenAt h j q → cause h i = cause h j →
      i = j ∨ ∃ t, cause h i = .command t ∧ Wrote h t .Emergency := by
  have hinv : Inv S h := inv_of_run hrun
  refine ⟨fun i p hi => ?_, fun i j p q hi hj heq => ?_⟩
  · obtain ⟨k, c, hb⟩ := hinv.behind_of_taken hi
    rw [hb.cause]
    exact hb.causes
  · obtain ⟨k, c, hb⟩ := hinv.behind_of_taken hi
    obtain ⟨l, d, hb'⟩ := hinv.behind_of_taken hj
    by_cases hrep : c.opener.Repeats h
    · right
      rw [hb.cause]
      exact hb.again hrep
    · left
      rw [hb.cause, hb'.cause] at heq
      exact hinv.eq_of_cause hb hb' heq hrep

/-- A guest locks the door; the bytes of the message arrive in two parts. -/
def lockTaken : List (Action Unit) :=
  (lockOnce ++ List.replicate 3 (Online.Action.exec 5)).map (fun a => .online (.node a)) ++
  [.online (.socket (.connected 0)), .bytes 0 2, .motor (.exec 960), .motor (.exec 0),
    .motor (.exec 0), .bytes 0 3, .motor (.data 0 2)]

theorem taken_caused_lockTaken :
    ∃ h, Transition.run (State.step ⟨doorconfig, fun _ => "guest", .free, id⟩)
        (.init doorconfig 960) lockTaken = some h ∧ TakenAt h 2 .Close ∧
      Causes id h .Close (cause h 2) := by
  obtain ⟨h, hrun, hlog⟩ : ∃ h, Transition.run
      (State.step ⟨doorconfig, fun _ => "guest", .free, id⟩) (.init doorconfig 960) lockTaken
        = some h ∧ h.motor.board.log[2]? = some (.data 0 "Close") := ⟨_, rfl, rfl⟩
  have htaken : TakenAt h 2 .Close := ⟨0, hlog⟩
  exact ⟨h, hrun, htaken, (taken_caused hrun).1 2 .Close htaken⟩

end SmartDoor.House
