-- SUMMARY: When the end of a wait means that the device is in the mode of the last request.
import Mathlib.Data.List.DropRight
import SmartDoor.Bluetooth.Device

/-!
# Acknowledged requests

An acknowledgement carries no sequence number, so an echo of an older copy can
end the wait for a newer request. `Stale` is the state of the channels and the
device in which that can go wrong. A request that is not made in such a state can
be trusted, whatever became of the requests before it: once its wait has ended,
the device is in its mode.
-/

namespace SmartDoor.Bluetooth

variable {K : Type}

/-! ## Stale requests -/

/-- A request for `m` is stale: an echo of `m` is on its way back although the
device is not in mode `m` or is about to leave it, or a copy of `m` is on its
way to the device ahead of a byte of the other mode. -/
def Stale (s : Link K) (m : Mode) : Prop :=
  (m.byte ∈ s.back ∧ (s.device ≠ m ∨ m.other.byte ∈ s.app.port)) ∨
    [m.byte, m.other.byte].Sublist s.app.port

instance (s : Link K) (m : Mode) : Decidable (Stale s m) := by
  unfold Stale
  infer_instance

/-- The device is in mode `m` and will stay there. -/
def Holds (s : Link K) (m : Mode) : Prop := s.device = m ∧ m.other.byte ∉ s.app.port

/-- What a wait for the mode `m` relies on. -/
structure Trusted (s : Link K) (m : Mode) : Prop where
  echo : m.byte ∈ s.back → Holds s m
  copy : ¬ [m.byte, m.other.byte].Sublist s.app.port

theorem trusted_of_not_stale {s : Link K} {m : Mode} (h : ¬ Stale s m) : Trusted s m := by
  simp only [Stale, not_or, not_and, not_not] at h
  exact ⟨h.1, h.2⟩

/-- While the service waits for the mode `m` it may trust the next echo, and
once it has stopped waiting the device holds the mode. -/
structure Reliable (s : Link K) (m : Mode) : Prop where
  waiting : s.app.btwait = true → Trusted s m
  settled : s.app.btwait = false → Holds s m

/-- The service is reliable for the mode it has last sent. -/
def LinkInv (s : Link K) : Prop := ∀ m : Mode, s.app.btdata = [m.byte] → Reliable s m

/-! ## What the moves keep -/

section Moves

variable {s s' : Link K} {m : Mode}

theorem Holds.of_sublist (h : Holds s m) (hd : s'.device = s.device)
    (hp : s'.app.port.Sublist s.app.port) : Holds s' m :=
  ⟨hd.trans h.1, fun hmem => h.2 (hp.subset hmem)⟩

theorem Trusted.of_sublist (h : Trusted s m) (hd : s'.device = s.device)
    (hp : s'.app.port.Sublist s.app.port) (hb : s'.back.Sublist s.back) : Trusted s' m :=
  ⟨fun hmem => (h.echo (hb.subset hmem)).of_sublist hd hp, fun hsub => h.copy (hsub.trans hp)⟩

/-- Bytes other than the opposite mode may be added behind. -/
theorem Holds.send {cs : List Char} (h : Holds s m) (hd : s'.device = s.device)
    (hp : s'.app.port = s.app.port ++ cs) (hcs : m.other.byte ∉ cs) : Holds s' m :=
  ⟨hd.trans h.1, by simpa [hp, hcs] using h.2⟩

/-- A pair that ends among the added bytes ends in one of them. -/
theorem pair_sublist_of_append {a b : Char} {l cs : List Char} (hcs : b ∉ cs)
    (h : [a, b].Sublist (l ++ cs)) : [a, b].Sublist l := by
  obtain ⟨l₁, l₂, hsplit, h₁, h₂⟩ := List.sublist_append_iff.mp h
  rcases List.eq_nil_or_concat l₂ with rfl | ⟨init, last, rfl⟩
  · rw [List.append_nil] at hsplit
    exact hsplit ▸ h₁
  · have hlast : b = last := by
      simpa using congrArg List.getLast? hsplit
    exact absurd (h₂.subset (by simp [hlast])) hcs

theorem Trusted.send {cs : List Char} (h : Trusted s m) (hd : s'.device = s.device)
    (hb : s'.back = s.back) (hp : s'.app.port = s.app.port ++ cs)
    (hcs : m.other.byte ∉ cs) : Trusted s' m :=
  ⟨fun hmem => (h.echo (hb ▸ hmem)).send hd hp hcs,
    fun hsub => h.copy (pair_sublist_of_append hcs (hp ▸ hsub))⟩

theorem Reliable.send {cs : List Char} (h : Reliable s m) (hw : s'.app.btwait = s.app.btwait)
    (hd : s'.device = s.device) (hb : s'.back = s.back) (hp : s'.app.port = s.app.port ++ cs)
    (hcs : m.other.byte ∉ cs) : Reliable s' m :=
  ⟨fun h' => (h.waiting (hw ▸ h')).send hd hb hp hcs,
    fun h' => (h.settled (hw ▸ h')).send hd hp hcs⟩

theorem Reliable.of_sublist (h : Reliable s m) (hw : s'.app.btwait = s.app.btwait)
    (hd : s'.device = s.device) (hp : s'.app.port.Sublist s.app.port)
    (hb : s'.back.Sublist s.back) : Reliable s' m :=
  ⟨fun h' => (h.waiting (hw ▸ h')).of_sublist hd hp hb,
    fun h' => (h.settled (hw ▸ h')).of_sublist hd hp⟩

end Moves

/-- The device handles the byte `c`, with `port` behind it. -/
def Link.handle (s : Link K) (c : Char) (port : List Char) : Link K where
  app := { s.app with port := port }
  device := (respond s.device c).1
  back := s.back ++ (respond s.device c).2

theorem Holds.handle {s : Link K} {m : Mode} {c : Char} {port : List Char} (h : Holds s m)
    (hport : s.app.port = c :: port) : Holds (s.handle c port) m := by
  have hmem : m.other.byte ≠ c ∧ m.other.byte ∉ port := by
    simpa [hport] using h.2
  refine ⟨?_, hmem.2⟩
  by_cases hc : c = m.byte
  · simp [Link.handle, hc, respond_byte]
  · refine (respond_of_ne_byte fun m' => ?_).1.trans h.1
    rcases m.eq_or_eq_other m' with rfl | rfl
    · exact hc
    · exact hmem.1.symm

/-- The only new echo of `m` is that of a copy, which no opposite byte follows. -/
theorem Trusted.handle {s : Link K} {m : Mode} {c : Char} {port : List Char} (h : Trusted s m)
    (hport : s.app.port = c :: port) : Trusted (s.handle c port) m := by
  refine ⟨fun hmem => ?_, fun hsub => h.copy (hport ▸ hsub.cons c)⟩
  rcases List.mem_append.mp hmem with hback | hnew
  · exact (h.echo hback).handle hport
  · by_cases hc : c = m.byte
    · refine ⟨by simp [Link.handle, hc, respond_byte], fun ho => h.copy ?_⟩
      rw [hport, hc]
      exact (List.singleton_sublist.mpr ho).cons_cons _
    · by_cases ho : c = m.other.byte
      · simp [ho, respond_byte, m.byte_ne_other_byte] at hnew
      · refine absurd hnew ((respond_of_ne_byte fun m' => ?_).2 m)
        rcases m.eq_or_eq_other m' with rfl | rfl
        · exact hc
        · exact ho

/-! ## The invariant -/

/-- A request of a mode that is not stale starts a wait that can be trusted. -/
theorem linkInv_request {s : Link K} {socket : K} {m : Mode} (h : ¬ Stale s m) :
    LinkInv { s with app := s.app.onRequest socket m.text } := by
  intro m' hm'
  rw [KeepAlive.onRequest_text] at hm' ⊢
  obtain rfl : m = m' := Mode.byte_injective (by simpa using hm')
  refine ⟨fun _ => (trusted_of_not_stale h).send rfl rfl rfl ?_, fun hw => by simp at hw⟩
  simpa using m.byte_ne_other_byte.symm

theorem LinkInv.tick {s : Link K} (h : LinkInv s) : LinkInv { s with app := s.app.tick } := by
  obtain ⟨hdata, hwait, hport⟩ := tick_frame s.app
  intro m hm
  have hm' : s.app.btdata = [m.byte] := hdata ▸ hm
  refine (h m hm').send hwait rfl rfl hport ?_
  simp only [List.mem_append, List.mem_singleton, not_or]
  refine ⟨?_, three_ne_byte m.other⟩
  split
  · simpa [hm'] using m.byte_ne_other_byte.symm
  · simp

theorem LinkInv.deliver {s : Link K} {c : Char} {back : List Char} (h : LinkInv s)
    (hback : s.back = c :: back) : LinkInv { s with app := s.app.onData [c], back := back } := by
  obtain ⟨hdata, hport, hwait⟩ := onData_singleton s.app c
  intro m hm
  have hm' : s.app.btdata = [m.byte] := hdata ▸ hm
  have hsub : back.Sublist s.back := hback ▸ List.sublist_cons_self c back
  rcases hwait with hwait | ⟨hw, hc, hwait⟩
  · exact (h m hm').of_sublist hwait rfl (by simp [hport]) hsub
  · -- the awaited echo was on its way, so the device already held the mode
    have hmem : m.byte ∈ s.back := by
      rw [hm'] at hc
      simpa [hback] using .inl (List.singleton_inj.mp hc)
    refine ⟨fun hw' => ?_, fun _ => (((h m hm').waiting hw).echo hmem).of_sublist rfl ?_⟩
    · simp [hwait] at hw'
    · simp [hport]

theorem LinkInv.step {s s' : Link K} {a : LinkAction K} (h : LinkInv s) (ha : a.mode? = none)
    (hstep : s.step a = some s') : LinkInv s' := by
  cases move_of_step hstep with
  | request socket text =>
    rcases mode?_request socket text with ⟨m, -, hmode⟩ | ⟨hne, -⟩
    · rw [hmode] at ha
      cases ha
    · intro m hm
      rw [KeepAlive.onRequest_of_ne_text socket hne] at hm ⊢
      exact (h m hm).of_sublist rfl rfl (List.Sublist.refl _) (List.Sublist.refl _)
  | tick => exact h.tick
  | device hport =>
    intro m hm
    exact ⟨fun hw => ((h m hm).waiting hw).handle hport,
      fun hw => ((h m hm).settled hw).handle hport⟩
  | deliver hback => exact h.deliver hback
  | loseForth i =>
    intro m hm
    exact (h m hm).of_sublist rfl rfl (List.eraseIdx_sublist _ i) (List.Sublist.refl _)
  | loseBack i =>
    intro m hm
    exact (h m hm).of_sublist rfl rfl (List.Sublist.refl _) (List.eraseIdx_sublist _ i)

theorem LinkInv.run {s t : Link K} {as : List (LinkAction K)} (h : LinkInv s)
    (hall : ∀ a ∈ as, a.mode? = none) (hrun : Transition.run Link.step s as = some t) :
    LinkInv t :=
  Transition.run_invariant_of_meets (g := fun _ a => a.mode? = none)
    (fun _ _ _ h ha hstep => h.step ha hstep) h
    (Transition.meets_of_forall fun a ha _ => hall a ha) hrun

/-! ## Before the last request -/

/-- The actions before the last request. -/
def beforeLast (as : List (LinkAction K)) : List (LinkAction K) :=
  (as.rdropWhile fun a => a.mode?.isNone).dropLast

theorem eq_request_of_mode? {a : LinkAction K} {m : Mode} (h : a.mode? = some m) :
    ∃ socket, a = .request socket m.text := by
  cases a with
  | request socket text =>
    rcases mode?_request socket text with ⟨m', rfl, hmode⟩ | ⟨-, hnone⟩
    · obtain rfl : m' = m := Option.some.inj (hmode.symm.trans h)
      exact ⟨socket, rfl⟩
    · rw [hnone] at h
      cases h
  | _ => cases h

theorem eq_beforeLast_append {as : List (LinkAction K)} {m : Mode} (h : lastRequest as = some m) :
    ∃ socket post, as = beforeLast as ++ .request socket m.text :: post ∧
      ∀ a ∈ post, a.mode? = none := by
  unfold lastRequest at h
  unfold beforeLast
  induction as using List.reverseRecOn with
  | nil => cases h
  | append_singleton as a ih =>
    rw [List.filterMap_append] at h
    cases ha : a.mode? with
    | none =>
      obtain ⟨socket, post, has, hall⟩ := ih (by simpa [ha] using h)
      refine ⟨socket, post ++ [a], ?_, ?_⟩
      · rw [List.rdropWhile_concat_pos _ _ _ (by simp [ha]), ← List.cons_append,
          ← List.append_assoc, ← has]
      · simpa [or_imp, forall_and, ha] using hall
    | some m' =>
      obtain rfl : m' = m := by simpa [ha] using h
      obtain ⟨socket, rfl⟩ := eq_request_of_mode? ha
      refine ⟨socket, [], ?_, by simp⟩
      rw [List.rdropWhile_concat_neg _ _ _ (by simp [ha]), List.dropLast_concat]

/-! ## A stale request can go wrong -/

/-- `t` is reached from `s` without a further request for a mode. -/
def Silently (s t : Link K) : Prop :=
  ∃ as, (∀ a ∈ as, LinkAction.mode? a = none) ∧ Transition.run Link.step s as = some t

namespace Silently

theorem refl (s : Link K) : Silently s s := ⟨[], by simp, rfl⟩

theorem head {s s' t : Link K} {a : LinkAction K} (ha : a.mode? = none) (hstep : s.step a = some s')
    (h : Silently s' t) : Silently s t := by
  obtain ⟨as, hall, hrun⟩ := h
  exact ⟨a :: as, by simpa [ha] using hall, Transition.run_cons_eq_some.mpr ⟨s', hstep, hrun⟩⟩

theorem trans {s t u : Link K} (h : Silently s t) (h' : Silently t u) : Silently s u := by
  obtain ⟨as, hall, hrun⟩ := h
  obtain ⟨bs, hall', hrun'⟩ := h'
  refine ⟨as ++ bs, ?_, by rw [Transition.run_append, hrun, Option.bind_some, hrun']⟩
  simpa [or_imp, forall_and] using ⟨hall, hall'⟩

end Silently

/-- The channel may keep any part of what is on its way to the device. -/
theorem silently_lose {s : Link K} {pre l l' : List Char} (h : l'.Sublist l)
    (hport : s.app.port = pre ++ l) :
    Silently s { s with app := { s.app with port := pre ++ l' } } := by
  induction h generalizing s pre with
  | slnil =>
    rw [← hport]
    exact .refl s
  | @cons l' l a _ ih =>
    have hstep : s.step (.loseForth pre.length) =
        some { s with app := { s.app with port := pre ++ l } } := by
      simp [Link.step, hport, List.eraseIdx_append_of_length_le]
    exact .head rfl hstep (ih rfl)
  | @cons_cons l' l a _ ih =>
    have hport' : s.app.port = (pre ++ [a]) ++ l := by simpa using hport
    simpa using ih hport'

/-- Once an awaited echo is on its way, delivering all bytes ends the wait. -/
theorem silently_drain {s : Link K} (h : s.app.btwait = false ∨
    ∃ m : Mode, s.app.btdata = [m.byte] ∧ m.byte ∈ s.back) :
    ∃ t, Silently s t ∧ t.back = [] ∧ t.app.btwait = false ∧ t.app.port = s.app.port ∧
      t.device = s.device := by
  obtain ⟨app, device, back⟩ := s
  induction back generalizing app with
  | nil => exact ⟨_, .refl _, rfl, by simpa using h, rfl, rfl⟩
  | cons c back ih =>
    obtain ⟨hdata, hport, hwait⟩ := onData_singleton app c
    have hnext : (app.onData [c]).btwait = false ∨
        ∃ m : Mode, (app.onData [c]).btdata = [m.byte] ∧ m.byte ∈ back := by
      rcases hwait with hwait | ⟨-, -, hwait⟩
      · rcases h with hfalse | ⟨m, hm, hmem⟩
        · exact .inl (hwait.trans hfalse)
        · rcases List.mem_cons.mp hmem with rfl | hmem
          · left
            rw [KeepAlive.onData_byte]
            split
            · exact (app.ack_frame m).1
            · next hno => exact eq_false_of_ne_true fun hw => hno ⟨hw, hm⟩
          · exact .inr ⟨m, hdata.trans hm, hmem⟩
      · exact .inl hwait
    obtain ⟨t, hst, hback, hdone, hp, hd⟩ := ih _ hnext
    have hstep : Link.step ⟨app, device, c :: back⟩ .deliver =
        some ⟨app.onData [c], device, back⟩ := rfl
    exact ⟨t, .head rfl hstep hst, hback, hdone, hp.trans hport, hd⟩

/-- The request `m` has been acknowledged, both channels are empty, and the
device is in the other mode. -/
structure Betrayed (t : Link K) (m : Mode) : Prop where
  btwait : t.app.btwait = false
  port : t.app.port = []
  back : t.back = []
  device : t.device ≠ m

theorem betrayed_of_drain {s : Link K} {m : Mode} (hdata : s.app.btdata = [m.byte])
    (hport : s.app.port = []) (hback : m.byte ∈ s.back) (hdev : s.device ≠ m) :
    ∃ t, Silently s t ∧ Betrayed t m := by
  obtain ⟨t, hst, hb, hw, hp, hd⟩ := silently_drain (.inr ⟨m, hdata, hback⟩)
  exact ⟨t, hst, hw, hp.trans hport, hb, hd ▸ hdev⟩

theorem step_device {s : Link K} {c : Char} {port : List Char} (hport : s.app.port = c :: port) :
    s.step .device = some (s.handle c port) := by
  simp [Link.step, hport, Link.handle]

/-- After a stale request the acknowledgement can be that of an older copy. -/
theorem betrayed_of_stale {s : Link K} {m : Mode} (hdata : s.app.btdata = [m.byte])
    (h : Stale s m) : ∃ t, Silently s t ∧ Betrayed t m := by
  have hlose : ∀ {l : List Char}, l.Sublist s.app.port →
      Silently s { s with app := { s.app with port := l } } :=
    fun hl => silently_lose hl (List.nil_append _).symm
  rcases h with ⟨hback, hdev | hother⟩ | hpair
  · obtain ⟨t, hst, ht⟩ := betrayed_of_drain (s := { s with app := { s.app with port := [] } })
      hdata rfl hback hdev
    exact ⟨t, (hlose (List.nil_sublist _)).trans hst, ht⟩
  · -- only the opposite byte arrives
    obtain ⟨t, hst, ht⟩ := betrayed_of_drain (s := s.handle m.other.byte []) hdata rfl
      (by simp [Link.handle, hback]) (by simp [Link.handle, respond_byte, m.other_ne])
    exact ⟨t, (hlose (List.singleton_sublist.mpr hother)).trans (.head rfl (step_device rfl) hst), ht⟩
  · -- the old copy arrives, then the opposite byte
    obtain ⟨t, hst, ht⟩ :=
      betrayed_of_drain (s := (s.handle m.byte [m.other.byte]).handle m.other.byte []) hdata rfl
        (by simp [Link.handle, respond_byte]) (by simp [Link.handle, respond_byte, m.other_ne])
    exact ⟨t, (hlose hpair).trans (.head rfl (step_device rfl) (.head rfl (step_device rfl) hst)), ht⟩

theorem Stale.send {s : Link K} {m : Mode} (socket : K) (h : Stale s m) :
    Stale { s with app := s.app.onRequest socket m.text } m := by
  rw [KeepAlive.onRequest_text]
  rcases h with ⟨hback, hdev | hother⟩ | hpair
  · exact .inl ⟨hback, .inl hdev⟩
  · exact .inl ⟨hback, .inr (by simp [hother])⟩
  · exact .inr (hpair.trans (List.sublist_append_left _ _))

/-! ## Acknowledged requests have taken effect -/

/-- In every run whose last request was not stale when it was made, whenever the
service does not wait, the device is in the mode of that request. After any stale
request some run without a further one ends with the request acknowledged, the
channels empty and the device in the other mode. -/
theorem acknowledged_of_fresh (d : Mode) :
    (∀ (as : List (LinkAction K)) (s t : Link K) (m : Mode),
      Transition.run Link.step (Link.init d) as = some t → lastRequest as = some m →
      Transition.run Link.step (Link.init d) (beforeLast as) = some s → ¬ Stale s m →
      t.app.btwait = false → t.device = m) ∧
    (∀ (s : Link K) (socket : K) (m : Mode), Stale s m →
      ∃ s' t, s.step (.request socket m.text) = some s' ∧ Silently s' t ∧ Betrayed t m) := by
  constructor
  · intro as s t m hrun hlast hbefore hfresh hdone
    have hdata : t.app.btdata = [m.byte] := by
      simpa [hlast] using btdata_of_run hrun
    obtain ⟨socket, post, has, hpost⟩ := eq_beforeLast_append hlast
    rw [has, Transition.run_append, hbefore, Option.bind_some, Transition.run_cons_eq_some] at hrun
    obtain ⟨s', hstep, hrest⟩ := hrun
    obtain rfl : _ = s' := Option.some.inj hstep
    exact (((linkInv_request hfresh).run hpost hrest m hdata).settled hdone).1
  · intro s socket m hstale
    obtain ⟨t, hst, ht⟩ := betrayed_of_stale (by simp) (hstale.send socket)
    exact ⟨_, t, rfl, hst, ht⟩

/-- The echo of the first request for On ends the wait for the second one, whose
byte is lost; the device has handled the Off between them. -/
def lateEcho : List (LinkAction Unit) :=
  [.request () "On", .request () "Off", .request () "On", .device, .device, .loseForth 0,
    .deliver, .deliver]

/-- The next request for On, handled and acknowledged. -/
def switchOn : List (LinkAction Unit) := lateEcho ++ [.request () "On", .device, .deliver]

theorem acknowledged_of_fresh_switchOn :
    ∃ t, Transition.run Link.step (Link.init .Off) switchOn = some t ∧
      t.app.btwait = false ∧ t.device = .On := by
  obtain ⟨s, hbefore, hfresh⟩ :
      ∃ s, Transition.run Link.step (Link.init .Off) (beforeLast switchOn) = some s ∧
        ¬ Stale s .On := ⟨_, rfl, by decide⟩
  obtain ⟨t, hrun, hwait⟩ : ∃ t, Transition.run Link.step (Link.init .Off) switchOn = some t ∧
      t.app.btwait = false := ⟨_, rfl, rfl⟩
  exact ⟨t, hrun, hwait,
    (acknowledged_of_fresh .Off).1 switchOn s t .On hrun rfl hbefore hfresh hwait⟩

/-- An acknowledged request can have been lost. -/
theorem late_echo_acknowledges_lost_request :
    ¬ ∀ (as : List (LinkAction Unit)) (t : Link Unit) (m : Mode),
      Transition.run Link.step (Link.init .Off) as = some t → lastRequest as = some m →
      t.app.btwait = false → (∀ m' : Mode, m'.byte ∉ t.app.port ∧ m'.byte ∉ t.back) →
      t.device = m := by
  intro h
  have := h lateEcho _ .On rfl rfl rfl (fun m => by cases m <;> decide)
  revert this
  decide

end SmartDoor.Bluetooth
