-- SUMMARY: When the cutting of the serial stream into chunks matters: the exact condition on the stretches of bytes between other events.
import SmartDoor.Bluetooth.KeepAlive

/-!
# Cutting the serial stream

A timeline is what happens byte by byte: bytes of the device, ticks and
requests. The serial port cuts every stretch of bytes between two other events
into chunks, in any way. A chunk of two bytes or more is ignored, so the cut
does not matter exactly where the bytes of a stretch change nothing one by one
either.
-/

namespace SmartDoor.Bluetooth

variable {K : Type}

/-! ## Timelines and cuts -/

/-- What happens, byte by byte. -/
inductive Item (K : Type) where
  | byte (c : Char)
  | tick
  | request (socket : K) (text : String)
  deriving DecidableEq, Repr

/-- What the service is handed. -/
inductive Event (K : Type) where
  | data (chunk : List Char)
  | tick
  | request (socket : K) (text : String)
  deriving DecidableEq, Repr

namespace Event

def items : Event K → List (Item K)
  | .data chunk => chunk.map .byte
  | .tick => [.tick]
  | .request socket text => [.request socket text]

def handle (s : KeepAlive K) : Event K → KeepAlive K
  | .data chunk => s.onData chunk
  | .tick => s.tick
  | .request socket text => s.onRequest socket text

end Event

/-- The service after the events. -/
def exec (s : KeepAlive K) (es : List (Event K)) : KeepAlive K := es.foldl Event.handle s

/-- `es` is a way of cutting the timeline into events. -/
def Cuts (es : List (Event K)) (timeline : List (Item K)) : Prop :=
  es.flatMap Event.items = timeline ∧ Event.data [] ∉ es

/-- What the two runs are compared on: the four counters and flags, the two
children in the database, and the replies. -/
def KeepAlive.observe (s : KeepAlive K) :
    Nat × Int × Bool × Int × Mode × Option Mode × List (K × String) :=
  (s.receivedpong, s.failcount, s.btwait, s.btwaitfailcount, s.bt, s.alarm, s.replies)

/-- Every two ways of cutting the timeline end in the same observation. -/
def ChunkingIrrelevant (s : KeepAlive K) (timeline : List (Item K)) : Prop :=
  ∀ es₁ es₂, Cuts es₁ timeline → Cuts es₂ timeline →
    (exec s es₁).observe = (exec s es₂).observe

/-! ## Bytes that change nothing -/

/-- `c` is a pong that reports mode `m`. -/
def IsPong (m : Mode) (c : Char) : Prop :=
  match m with
  | .Off => c = '4'
  | .On => c = '5'

/-- A byte that, handed over alone, is ignored or writes what is there already. -/
structure Inert (s : KeepAlive K) (c : Char) : Prop where
  pong : ∀ m, IsPong m c →
    s.receivedpong = 1 ∧ s.failcount = 0 ∧ s.bt = .On ∧ s.alarm = some m
  echo : ∀ m : Mode, c = m.byte → ¬ (s.btwait ∧ s.btdata = [c])

/-- The bytes of one stretch, which began in `s`, may be cut anywhere: there is
at most one; or there are two, and they lead back to `s`; or none of them
changes anything. -/
def Mute (s : KeepAlive K) : List Char → Prop
  | [] => True
  | [_] => True
  | [x, y] => Inert s y ∧ (Inert s x ∨ ∃ m m', IsPong m x ∧ IsPong m' y)
  | cs => ∀ c ∈ cs, Inert s c

/-- One byte at a time. -/
def KeepAlive.feed (s : KeepAlive K) (cs : List Char) : KeepAlive K :=
  cs.foldl (fun s c => s.onData [c]) s

/-- Every stretch of the timeline may be cut anywhere in the state it is met
in. The present stretch began in `s` and has brought the bytes `cs` so far. -/
def Harmless (s : KeepAlive K) (cs : List Char) : List (Item K) → Prop
  | [] => True
  | .byte c :: timeline => Mute s (cs ++ [c]) ∧ Harmless s (cs ++ [c]) timeline
  | .tick :: timeline => Harmless (s.feed cs).tick [] timeline
  | .request socket text :: timeline =>
    Harmless ((s.feed cs).onRequest socket text) [] timeline

theorem isPong_cases (c : Char) : (∃ m, IsPong m c) ∨ (∃ m : Mode, c = m.byte) ∨
    ((∀ m, ¬ IsPong m c) ∧ ∀ m : Mode, c ≠ m.byte) := by
  by_cases hp : ∃ m, IsPong m c
  · exact .inl hp
  · by_cases hb : ∃ m : Mode, c = m.byte
    · exact .inr (.inl hb)
    · exact .inr (.inr ⟨fun m hm => hp ⟨m, hm⟩, fun m hm => hb ⟨m, hm⟩⟩)

theorem onData_of_isPong {m : Mode} {c : Char} (s : KeepAlive K) (h : IsPong m c) :
    s.onData [c] = s.pong m := by
  cases m with
  | On =>
    obtain rfl : c = '5' := h
    exact s.onData_five
  | Off =>
    obtain rfl : c = '4' := h
    exact s.onData_four

theorem onData_of_not {c : Char} (s : KeepAlive K) (hp : ∀ m, ¬ IsPong m c)
    (hb : ∀ m : Mode, c ≠ m.byte) : s.onData [c] = s := by
  refine s.onData_other ?_ ?_ fun m h => hb m (List.singleton_inj.mp h)
  · exact fun h => hp .Off (List.singleton_inj.mp h)
  · exact fun h => hp .On (List.singleton_inj.mp h)

theorem Inert.onData {s : KeepAlive K} {c : Char} (h : Inert s c) : s.onData [c] = s := by
  obtain ⟨m, hm⟩ | ⟨m, rfl⟩ | ⟨hp, hb⟩ := isPong_cases c
  · obtain ⟨h₁, h₂, h₃, h₄⟩ := h.pong m hm
    rw [onData_of_isPong s hm, KeepAlive.pong, ← h₁, ← h₂, ← h₃, ← h₄]
  · rw [s.onData_byte, if_neg (h.echo m rfl)]
  · exact onData_of_not s hp hb

theorem ack_btwait (s : KeepAlive K) (m : Mode) : (s.ack m).btwait = false :=
  (s.ack_frame m).1

/-- A byte that leaves the observation as it is, is inert. -/
theorem inert_of_observe {s : KeepAlive K} {c : Char}
    (h : (s.onData [c]).observe = s.observe) : Inert s c := by
  constructor
  · intro m hm
    rw [onData_of_isPong s hm] at h
    simp only [KeepAlive.observe, KeepAlive.pong, Prod.mk.injEq] at h
    obtain ⟨h₁, h₂, -, -, h₃, h₄, -⟩ := h
    exact ⟨h₁.symm, h₂.symm, h₃.symm, h₄.symm⟩
  · rintro m rfl ⟨hwait, hdata⟩
    rw [s.onData_byte, if_pos ⟨hwait, hdata⟩] at h
    simp only [KeepAlive.observe, Prod.mk.injEq, ack_btwait, hwait] at h
    exact absurd h.2.2.1 (by simp)

/-- No chunk starts a wait. -/
theorem btwait_of_onData {data : List Char} {s : KeepAlive K} (h : (s.onData data).btwait = true) :
    s.btwait = true := by
  by_cases hb : ∃ m : Mode, data = [m.byte]
  · obtain ⟨m, rfl⟩ := hb
    rw [s.onData_byte] at h
    split at h
    · simp [ack_btwait] at h
    · exact h
  · simp only [not_exists] at hb
    by_cases h4 : data = ['4']
    · rwa [h4, s.onData_four] at h
    · by_cases h5 : data = ['5']
      · rwa [h5, s.onData_five] at h
      · rwa [s.onData_other h4 h5 hb] at h

/-! ## One stretch -/

theorem Mute.nil {s : KeepAlive K} : Mute s [] := trivial

theorem feed_of_inert {s : KeepAlive K} {cs : List Char} (h : ∀ c ∈ cs, Inert s c) :
    s.feed cs = s := by
  induction cs with
  | nil => rfl
  | cons c cs ih =>
    simp only [KeepAlive.feed, List.foldl_cons, (h c (by simp)).onData]
    exact ih fun d hd => h d (by simp [hd])

theorem Mute.inert {s : KeepAlive K} {cs : List Char} (h : Mute s cs) (hlen : 3 ≤ cs.length) :
    ∀ c ∈ cs, Inert s c := by
  match cs, hlen with
  | _ :: _ :: _ :: _, _ => exact h

/-- A mute stretch of two bytes or more leads back to where it began. -/
theorem Mute.feed_eq {s : KeepAlive K} {cs : List Char} (h : Mute s cs) (hlen : cs.length ≠ 1) :
    s.feed cs = s := by
  match cs, hlen with
  | [], _ => rfl
  | [x, y], _ =>
    obtain ⟨hy, hx | ⟨m, m', hm, hm'⟩⟩ := h
    · simp [KeepAlive.feed, hx.onData, hy.onData]
    · -- the second pong overwrites what the first one wrote
      have hpong : (s.pong m).pong m' = s := by
        have := hy.onData
        rwa [onData_of_isPong s hm'] at this
      simpa [KeepAlive.feed, onData_of_isPong _ hm, onData_of_isPong _ hm'] using hpong
  | x :: y :: z :: cs, _ => exact feed_of_inert (h.inert (by simp))

/-- A chunk does what its bytes do one by one. -/
theorem Mute.onData_feed {s : KeepAlive K} {cs chunk : List Char} (hcs : Mute s cs)
    (h : Mute s (cs ++ chunk)) (hne : chunk ≠ []) :
    (s.feed cs).onData chunk = s.feed (cs ++ chunk) := by
  by_cases hlen : chunk.length = 1
  · obtain ⟨c, rfl⟩ := List.length_eq_one_iff.mp hlen
    simp [KeepAlive.feed]
  · have hpos := List.length_pos_iff.mpr hne
    rw [KeepAlive.onData_of_length_ne_one _ hlen, h.feed_eq (by simp; omega)]
    by_cases hone : cs.length = 1
    · obtain ⟨b, rfl⟩ := List.length_eq_one_iff.mp hone
      exact (h.inert (by simp; omega) b (by simp)).onData
    · exact hcs.feed_eq hone

/-! ## Harmless timelines may be cut anywhere -/

/-- The state after a timeline whose present stretch began in `s` and has
brought `cs`, one byte at a time. -/
def settle (s : KeepAlive K) (cs : List Char) : List (Item K) → KeepAlive K
  | [] => s.feed cs
  | .byte c :: timeline => settle s (cs ++ [c]) timeline
  | .tick :: timeline => settle (s.feed cs).tick [] timeline
  | .request socket text :: timeline => settle ((s.feed cs).onRequest socket text) [] timeline

theorem settle_bytes {s : KeepAlive K} {cs chunk : List Char} {timeline : List (Item K)} :
    settle s cs (chunk.map .byte ++ timeline) = settle s (cs ++ chunk) timeline := by
  induction chunk generalizing cs with
  | nil => simp
  | cons c chunk ih => simp [settle, ih]

theorem harmless_bytes {s : KeepAlive K} {cs chunk : List Char} {timeline : List (Item K)}
    (hcs : Mute s cs) (h : Harmless s cs (chunk.map .byte ++ timeline)) :
    Mute s (cs ++ chunk) ∧ Harmless s (cs ++ chunk) timeline := by
  induction chunk generalizing cs with
  | nil => exact ⟨by simpa using hcs, by simpa using h⟩
  | cons c chunk ih => simpa using ih h.1 h.2

theorem Harmless.initial {s : KeepAlive K} {cs : List Char} {pre timeline : List (Item K)}
    (h : Harmless s cs timeline) (hpre : pre <+: timeline) : Harmless s cs pre := by
  induction pre generalizing s cs timeline with
  | nil => trivial
  | cons i pre ih =>
    obtain ⟨post, rfl⟩ := hpre
    cases i with
    | byte c => exact ⟨h.1, ih h.2 (List.prefix_append pre post)⟩
    | tick => exact ih (s := (s.feed cs).tick) h (List.prefix_append pre post)
    | request socket text =>
      exact ih (s := (s.feed cs).onRequest socket text) h (List.prefix_append pre post)

theorem exec_eq_settle {s : KeepAlive K} {cs : List Char} {timeline : List (Item K)}
    {es : List (Event K)} (hcs : Mute s cs) (h : Harmless s cs timeline) (hes : Cuts es timeline) :
    exec (s.feed cs) es = settle s cs timeline := by
  induction es generalizing s cs timeline with
  | nil =>
    obtain rfl : [] = timeline := hes.1
    rfl
  | cons e es ih =>
    obtain ⟨rfl, hne⟩ := hes
    simp only [List.mem_cons, not_or] at hne
    simp only [List.flatMap_cons] at h ⊢
    cases e with
    | data chunk =>
      obtain ⟨hmute, hrest⟩ := harmless_bytes hcs h
      have hchunk : chunk ≠ [] := fun hnil => hne.1 (by rw [hnil])
      simp only [Event.items, settle_bytes]
      rw [← ih hmute hrest ⟨rfl, hne.2⟩, ← hcs.onData_feed hmute hchunk]
      rfl
    | tick => exact ih (s := (s.feed cs).tick) .nil h ⟨rfl, hne.2⟩
    | request socket text =>
      exact ih (s := (s.feed cs).onRequest socket text) .nil h ⟨rfl, hne.2⟩

/-! ## Other timelines may not -/

theorem exec_append {s : KeepAlive K} {es₁ es₂ : List (Event K)} :
    exec s (es₁ ++ es₂) = exec (exec s es₁) es₂ := by
  simp [exec]

theorem Cuts.append {es₁ es₂ : List (Event K)} {t₁ t₂ : List (Item K)} (h₁ : Cuts es₁ t₁)
    (h₂ : Cuts es₂ t₂) : Cuts (es₁ ++ es₂) (t₁ ++ t₂) := by
  obtain ⟨rfl, hne₁⟩ := h₁
  obtain ⟨rfl, hne₂⟩ := h₂
  exact ⟨by simp, by simp [hne₁, hne₂]⟩

/-- A cut of a first part turns into the state the rest starts from. -/
theorem ChunkingIrrelevant.rest {s : KeepAlive K} {t₁ t₂ : List (Item K)} {es : List (Event K)}
    (h : ChunkingIrrelevant s (t₁ ++ t₂)) (hes : Cuts es t₁) :
    ChunkingIrrelevant (exec s es) t₂ := by
  intro es₁ es₂ h₁ h₂
  have := h _ _ (hes.append h₁) (hes.append h₂)
  rwa [exec_append, exec_append] at this

/-- The bytes one by one. -/
def singles (cs : List Char) : List (Event K) := cs.map fun c => .data [c]

theorem cuts_singles (cs : List Char) : Cuts (K := K) (singles cs) (cs.map .byte) := by
  constructor
  · induction cs with
    | nil => rfl
    | cons c cs ih => simpa [singles, Event.items] using ih
  · simp [singles]

theorem exec_singles (s : KeepAlive K) (cs : List Char) : exec s (singles cs) = s.feed cs := by
  simp [exec, singles, KeepAlive.feed, List.foldl_map, Event.handle]

/-- If a stretch of two bytes or more ends in a last chunk `[c]` or `cs` first,
the other chunk of two bytes or more has done nothing. -/
theorem observe_of_irrelevant {s : KeepAlive K} (cs ds : List Char)
    (h : ChunkingIrrelevant s ((cs ++ ds).map .byte)) (hcs : cs ≠ []) (hds : ds ≠ []) :
    ((s.onData cs).onData ds).observe = s.observe := by
  have hcut : Cuts (K := K) [.data cs, .data ds] ((cs ++ ds).map .byte) :=
    ⟨by simp [Event.items], by simp [hcs, hds, eq_comm]⟩
  have hone : Cuts (K := K) [.data (cs ++ ds)] ((cs ++ ds).map .byte) :=
    ⟨by simp [Event.items], by simp [hcs, eq_comm]⟩
  have hlen : (cs ++ ds).length ≠ 1 := by
    have h₁ := List.length_pos_iff.mpr hcs
    have h₂ := List.length_pos_iff.mpr hds
    simp only [List.length_append]
    omega
  have := h _ _ hcut hone
  simpa [exec, Event.handle, KeepAlive.onData_of_length_ne_one s hlen] using this

/-- Two bytes that may be cut are mute. -/
theorem mute_pair {s : KeepAlive K} {x y : Char}
    (h : ((s.onData [x]).onData [y]).observe = s.observe) : Mute s [x, y] := by
  by_cases hself : s.onData [x] = s
  · have hx : Inert s x := inert_of_observe (by rw [hself])
    rw [hself] at h
    exact ⟨inert_of_observe h, .inl hx⟩
  · obtain ⟨m, hm⟩ | ⟨m, rfl⟩ | ⟨hp, hb⟩ := isPong_cases x
    · rw [onData_of_isPong s hm] at h
      obtain ⟨m', hm'⟩ | ⟨m', rfl⟩ | ⟨hp', hb'⟩ := isPong_cases y
      · rw [onData_of_isPong _ hm'] at h
        refine ⟨inert_of_observe ?_, .inr ⟨m, m', hm, hm'⟩⟩
        rw [onData_of_isPong s hm']
        exact h
      · rw [KeepAlive.onData_byte] at h
        split at h
        case isTrue hc =>
          -- an echo that counts ends the wait, which nothing restores
          have hwait : s.btwait = true := hc.1
          simp only [KeepAlive.observe, Prod.mk.injEq, ack_btwait, hwait] at h
          exact absurd h.2.2.1 (by simp)
        case isFalse hc =>
          refine ⟨inert_of_observe ?_, .inl (inert_of_observe ?_)⟩
          · rw [s.onData_byte]
            exact congrArg _ (if_neg hc)
          · rwa [onData_of_isPong s hm]
      · rw [onData_of_not _ hp' hb'] at h
        refine ⟨inert_of_observe ?_, .inl (inert_of_observe ?_)⟩
        · rw [onData_of_not s hp' hb']
        · rwa [onData_of_isPong s hm]
    · rw [s.onData_byte] at hself h
      split at hself
      case isFalse => exact absurd rfl hself
      case isTrue hc =>
        rw [if_pos hc] at h
        have hwait : ((s.ack m).onData [y]).btwait = true := by
          simp only [KeepAlive.observe, Prod.mk.injEq] at h
          rw [h.2.2.1]
          exact hc.1
        have := btwait_of_onData hwait
        simp [ack_btwait] at this
    · exact absurd (onData_of_not s hp hb) hself

theorem mute_of_irrelevant {s : KeepAlive K} {cs : List Char} {c : Char} (hcs : Mute s cs)
    (h : ChunkingIrrelevant s ((cs ++ [c]).map .byte)) : Mute s (cs ++ [c]) := by
  match cs, hcs with
  | [], _ => trivial
  | [x], _ => exact mute_pair (observe_of_irrelevant [x] [c] h (by simp) (by simp))
  | x :: y :: cs, hcs =>
    have hlen : (x :: y :: cs).length ≠ 1 := by simp
    have hc : Inert s c := by
      have := observe_of_irrelevant (x :: y :: cs) [c] h (by simp) (by simp)
      rw [KeepAlive.onData_of_length_ne_one s hlen] at this
      exact inert_of_observe this
    have hold : ∀ d ∈ x :: y :: cs, Inert s d := by
      match cs, hcs, h with
      | [], hcs, h =>
        have hx := observe_of_irrelevant [x] [y, c] h (by simp) (by simp)
        rw [KeepAlive.onData_of_length_ne_one _ (by simp)] at hx
        intro d hd
        obtain rfl | rfl : d = x ∨ d = y := by simpa using hd
        · exact inert_of_observe hx
        · exact hcs.1
      | z :: cs, hcs, _ => exact hcs.inert (by simp)
    have hall : ∀ d ∈ x :: y :: cs ++ [c], Inert s d := by
      intro d hd
      rcases List.mem_append.mp hd with hd | hd
      · exact hold d hd
      · obtain rfl := List.mem_singleton.mp hd
        exact hc
    cases cs <;> exact hall

theorem harmless_of_irrelevant {s : KeepAlive K} {cs : List Char} {timeline : List (Item K)}
    (hcs : Mute s cs)
    (h : ∀ pre, pre <+: timeline → ChunkingIrrelevant s (cs.map .byte ++ pre)) :
    Harmless s cs timeline := by
  induction timeline generalizing s cs with
  | nil => trivial
  | cons i timeline ih =>
    -- the next event that is not a byte starts a new stretch
    have hnext : ∀ e : Event K, e.items = [i] → (∀ chunk, e ≠ .data chunk) →
        ∀ pre, pre <+: timeline → ChunkingIrrelevant (e.handle (s.feed cs)) pre := by
      intro e he hdata pre hpre
      have hcut : Cuts (singles cs ++ [e]) (cs.map .byte ++ [i]) :=
        (cuts_singles cs).append ⟨by simpa using he, by simpa using (hdata []).symm⟩
      have := (h (i :: pre) (List.cons_prefix_cons.mpr ⟨rfl, hpre⟩))
      rw [List.append_cons] at this
      have hrest := this.rest hcut
      rwa [exec_append, exec_singles] at hrest
    cases i with
    | byte c =>
      have hmute : Mute s (cs ++ [c]) :=
        mute_of_irrelevant hcs (by simpa using h [.byte c] (by simp))
      refine ⟨hmute, ih hmute fun pre hpre => ?_⟩
      simpa using h (.byte c :: pre) (List.cons_prefix_cons.mpr ⟨rfl, hpre⟩)
    | tick =>
      exact ih (s := (s.feed cs).tick) .nil (hnext .tick rfl (by simp))
    | request socket text =>
      exact ih (s := (s.feed cs).onRequest socket text) .nil
        (hnext (.request socket text) rfl (by simp))

/-! ## The exact condition -/

/-- From any state, the way of cutting makes no difference to any initial part
of a timeline exactly if every stretch of bytes between two other events is mute
in the state it is met in. -/
theorem irrelevant_iff_harmless (s : KeepAlive K) (timeline : List (Item K)) :
    (∀ pre, pre <+: timeline → ChunkingIrrelevant s pre) ↔ Harmless s [] timeline := by
  constructor
  · intro h
    exact harmless_of_irrelevant .nil (by simpa using h)
  · intro h pre hpre es₁ es₂ h₁ h₂
    have hharm := h.initial hpre
    have hstart : s.feed [] = s := rfl
    rw [← hstart, exec_eq_settle .nil hharm h₁, exec_eq_settle .nil hharm h₂]

/-- An acknowledgement and a pong that land in one read are both lost. -/
theorem echo_and_pong_in_one_read :
    ¬ ChunkingIrrelevant (KeepAlive.init : KeepAlive Unit)
      [.request () "On", .byte '1', .byte '5'] := by
  intro h
  have := h [.request () "On", .data ['1'], .data ['5']] [.request () "On", .data ['1', '5']]
    ⟨rfl, by decide⟩ ⟨rfl, by decide⟩
  -- one run has been acknowledged, the other still waits
  have hwait := congrArg (fun o => o.2.2.1) this
  revert hwait
  decide

end SmartDoor.Bluetooth
