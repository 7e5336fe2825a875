-- SUMMARY: A value kept in memory and in a file that is read once and rewritten behind it, and when the two agree again.
import Mathlib.Data.List.Basic

/-!
# Values saved behind their use

A program reads a file once, when it starts, and afterwards only changes its
value in memory; each change issues a write of the whole file. The reading and
the writes complete in any order. `Follows` is what stays true of the value and
its file as long as nothing is lost by that.
-/

/-- What a file holds. -/
inductive Content (T : Type) where
  | missing
  | blank
  | text (t : T)
  deriving DecidableEq, Repr

/-- Values `M` and the texts `T` they are written as. -/
structure Format (M T : Type) where
  empty : M
  parse : T → M
  stringify : M → T
  parse_stringify_empty : parse (stringify empty) = empty
  stringify_parse : ∀ t, stringify (parse t) = t

/-- A value in memory, its file, and the operations on the file that have not
completed; a write is known by the number of writes issued before it. -/
structure Saved (M T : Type) where
  memory : M
  disk : Content T
  reading : Bool
  issued : Nat
  pending : List (Nat × T)
  deriving DecidableEq, Repr

variable {M T : Type}

/-- The value that a program which starts with this file uses. -/
def Format.load (F : Format M T) : Content T → M
  | .missing => F.empty
  | .blank => F.empty
  | .text t => F.parse t

/-- A value that is read back as it was written. -/
def Format.Representable (F : Format M T) (m : M) : Prop := F.parse (F.stringify m) = m

namespace Saved

/-- The program has started, and the file is being read. -/
def start (F : Format M T) (disk : Content T) : Saved M T where
  memory := F.empty
  disk := disk
  reading := true
  issued := 0
  pending := []

/-- The reading completes. A missing file is an error, which changes nothing. -/
def finishRead (F : Format M T) (s : Saved M T) : Option (Saved M T) :=
  if s.reading then
    match s.disk with
    | .missing => some { s with reading := false }
    | .blank => some { s with memory := F.empty, reading := false }
    | .text t => some { s with memory := F.parse t, reading := false }
  else none

/-- The value becomes `m`, and a write of `t` is issued. -/
def update (s : Saved M T) (m : M) (t : T) : Saved M T :=
  { s with memory := m, issued := s.issued + 1, pending := s.pending ++ [(s.issued, t)] }

/-- The value becomes `m` and is written. -/
def save (F : Format M T) (s : Saved M T) (m : M) : Saved M T := s.update m (F.stringify m)

/-- The `i`th of the pending writes completes. -/
def complete (s : Saved M T) (i : Nat) : Option (Saved M T) :=
  s.pending[i]?.map fun w => { s with disk := .text w.2, pending := s.pending.eraseIdx i }

/-- No operation on the file is pending. -/
def Idle (s : Saved M T) : Prop := s.reading = false ∧ s.pending = []

/-! ## What can go wrong -/

/-- What a change starts from is what the file held at the start. -/
def Ready (F : Format M T) (s : Saved M T) : Prop :=
  s.reading = true → s.issued = 0 → F.load s.disk = s.memory

/-- The reading does not undo the changes made before it completes. -/
def ReadsBack (F : Format M T) (s : Saved M T) : Prop :=
  s.issued = 0 ∨ s.disk = .missing ∨ F.load s.disk = s.memory

/-- Unless others stay pending, the write that completes is the one issued last, or
one with the same contents. -/
def InOrder (F : Format M T) (s : Saved M T) (i : Nat) : Prop :=
  ∀ w ∈ s.pending[i]?, s.pending.length = 1 → w.1 + 1 = s.issued ∨ F.parse w.2 = s.memory

theorem inOrder_of_length {F : Format M T} {s : Saved M T} {i : Nat}
    (h : s.pending.length ≠ 1) : s.InOrder F i :=
  fun _ _ hlen => absurd hlen h

theorem inOrder_of_last {F : Format M T} {s : Saved M T} {i : Nat} {w : Nat × T}
    (hw : s.pending[i]? = some w) (hlast : w.1 + 1 = s.issued) : s.InOrder F i := by
  intro w' hw' _
  obtain rfl : w = w' := Option.some.inj (hw.symm.trans hw')
  exact .inl hlast

instance {s : Saved M T} : Decidable s.Idle := inferInstanceAs (Decidable (s.reading = false ∧ _))

@[simp] theorem update_memory {s : Saved M T} {m : M} {t : T} : (s.update m t).memory = m := rfl

@[simp] theorem save_memory {F : Format M T} {s : Saved M T} {m : M} :
    (s.save F m).memory = m := rfl

/-! ## What is read and written in order -/

variable {F : Format M T} {first : Content T} {m : M} {s s' : Saved M T}

/-- Started on `first`, and meant to be `m` since. -/
structure Follows (F : Format M T) (first : Content T) (m : M) (s : Saved M T) : Prop where
  representable : F.Representable m
  /-- The file has not been read, and nothing else has happened. -/
  unread : s.reading = true → s.issued = 0 → s = start F first ∧ m = F.load first
  memory : (s.reading = true → s.issued ≠ 0) → s.memory = m
  issued : ∀ w ∈ s.pending, w.1 < s.issued
  /-- The last write, as long as it is pending, is of `m`. -/
  last : ∀ w ∈ s.pending, w.1 + 1 = s.issued → F.parse w.2 = m
  /-- When nothing is pending, the file holds `m`. -/
  disk : s.pending = [] → F.load s.disk = m

theorem representable_load : F.Representable (F.load first) := by
  cases first with
  | missing => exact F.parse_stringify_empty
  | blank => exact F.parse_stringify_empty
  | text t => exact congrArg F.parse (F.stringify_parse t)

theorem follows_start : Follows F first (F.load first) (start F first) where
  representable := representable_load
  unread _ _ := ⟨rfl, rfl⟩
  memory h := absurd rfl (h rfl)
  issued w hw := by cases hw
  last w hw := by cases hw
  disk _ := rfl

theorem Follows.memory_of_ready (h : Follows F first m s) (hready : s.Ready F) : s.memory = m := by
  by_cases hread : s.reading = true ∧ s.issued = 0
  · obtain ⟨rfl, rfl⟩ := h.unread hread.1 hread.2
    exact (hready hread.1 hread.2).symm
  · exact h.memory fun hr hi => hread ⟨hr, hi⟩

/-- What the reading leaves in memory. -/
theorem finishRead_eq_some (h : s.finishRead F = some s') : s.reading = true ∧
    ∃ m', (s.disk = .missing ∧ m' = s.memory ∨ s.disk ≠ .missing ∧ m' = F.load s.disk) ∧
      s' = { s with memory := m', reading := false } := by
  unfold finishRead at h
  split at h
  · next hr =>
    refine ⟨hr, ?_⟩
    split at h
    · next hd => exact ⟨_, .inl ⟨hd, rfl⟩, (Option.some.inj h).symm⟩
    · next hd => exact ⟨_, .inr ⟨by simp [hd], by rw [hd]; rfl⟩, (Option.some.inj h).symm⟩
    · next t hd => exact ⟨_, .inr ⟨by simp [hd], by rw [hd]; rfl⟩, (Option.some.inj h).symm⟩
  · cases h

theorem Follows.finishRead (h : Follows F first m s) (hback : s.ReadsBack F)
    (hread : s.finishRead F = some s') : Follows F first m s' := by
  obtain ⟨hr, m', hm', rfl⟩ := finishRead_eq_some hread
  have hmem : m' = m := by
    by_cases hissued : s.issued = 0
    · -- nothing has happened since the start
      obtain ⟨rfl, rfl⟩ := h.unread hr hissued
      rcases hm' with ⟨hd, rfl⟩ | ⟨-, rfl⟩
      · change first = .missing at hd
        rw [hd]
        rfl
      · rfl
    · have hsame : s.memory = m := h.memory fun _ => hissued
      rcases hm' with ⟨-, rfl⟩ | ⟨hd, rfl⟩
      · exact hsame
      · exact ((hback.resolve_left hissued).resolve_left hd).trans hsame
  subst hmem
  constructor
  · exact h.representable
  · intro hr
    cases hr
  · exact fun _ => rfl
  · exact h.issued
  · exact h.last
  · exact h.disk

theorem Follows.update (h : Follows F first m s) {m' : M} {t : T}
    (hm' : F.Representable m') (ht : F.parse t = m') : Follows F first m' (s.update m' t) where
  representable := hm'
  unread _ hissued := by cases hissued
  memory _ := rfl
  issued w hw := by
    rcases List.mem_append.mp hw with hw | hw
    · exact Nat.lt_succ_of_lt (h.issued w hw)
    · obtain rfl := List.mem_singleton.mp hw
      exact Nat.lt_succ_self _
  last w hw hlast := by
    rcases List.mem_append.mp hw with hw | hw
    · -- a write issued earlier has a smaller number
      have hlt := h.issued w hw
      simp only [Saved.update] at hlast
      omega
    · obtain rfl := List.mem_singleton.mp hw
      exact ht
  disk h' := by simp [Saved.update] at h'

theorem Follows.save (h : Follows F first m s) {m' : M} (hm' : F.Representable m') :
    Follows F first m' (s.save F m') :=
  h.update hm' hm'

theorem Follows.complete {i : Nat} (h : Follows F first m s) (horder : s.InOrder F i)
    (hcomplete : s.complete i = some s') : Follows F first m s' := by
  obtain ⟨w, hw, rfl⟩ := Option.map_eq_some_iff.mp hcomplete
  have hmem : w ∈ s.pending := List.mem_of_getElem? hw
  have hsub : ∀ w' ∈ s.pending.eraseIdx i, w' ∈ s.pending := fun w' => List.mem_of_mem_eraseIdx
  have hissued : s.issued ≠ 0 := Nat.ne_zero_of_lt (h.issued w hmem)
  constructor
  · exact h.representable
  · exact fun _ hzero => absurd hzero hissued
  · exact fun _ => h.memory fun _ => hissued
  · exact fun w' hw' => h.issued w' (hsub w' hw')
  · exact fun w' hw' => h.last w' (hsub w' hw')
  · intro hnil
    have hlen : s.pending.length = 1 := by
      have hzero := congrArg List.length hnil
      have hi : i < s.pending.length := (List.getElem?_eq_some_iff.mp hw).1
      simp only [List.length_eraseIdx_of_lt hi, List.length_nil] at hzero
      omega
    rcases horder w hw hlen with hlast | hsame
    · exact h.last w hmem hlast
    · exact hsame.trans (h.memory fun _ => hissued)

/-- When nothing is pending, the value and its file agree. -/
theorem Follows.idle (h : Follows F first m s) (hidle : s.Idle) :
    s.memory = m ∧ F.load s.disk = m :=
  ⟨h.memory fun hr => by simp [hidle.1] at hr, h.disk hidle.2⟩

/-! ## What is true of every version -/

/-- `P` is true of what the file holds, of all that is on its way to the file, and of what the
value would be written as. -/
structure Holds (F : Format M T) (P : T → Prop) (s : Saved M T) : Prop where
  memory : P (F.stringify s.memory)
  disk : ∀ t, s.disk = .text t → P t
  pending : ∀ w ∈ s.pending, P w.2

namespace Holds

variable {P Q : T → Prop}

theorem start (hempty : P (F.stringify F.empty)) (hfirst : ∀ t, first = .text t → P t) :
    Holds F P (start F first) :=
  ⟨hempty, hfirst, List.forall_mem_nil _⟩

theorem mono (h : Holds F P s) (hPQ : ∀ t, P t → Q t) : Holds F Q s where
  memory := hPQ _ h.memory
  disk t ht := hPQ t (h.disk t ht)
  pending w hw := hPQ w.2 (h.pending w hw)

theorem save (h : Holds F P s) (hm : P (F.stringify m)) : Holds F P (s.save F m) where
  memory := hm
  disk := h.disk
  pending := List.forall_mem_append.mpr ⟨h.pending, List.forall_mem_singleton.mpr hm⟩

/-- A file without a text is read as the empty value. -/
theorem finishRead (h : Holds F P s) (hempty : s.reading = true → P (F.stringify F.empty))
    (hread : s.finishRead F = some s') : Holds F P s' := by
  obtain ⟨hreading, m', ⟨-, rfl⟩ | ⟨-, rfl⟩, rfl⟩ := finishRead_eq_some hread
  · exact ⟨h.memory, h.disk, h.pending⟩
  · refine ⟨?_, h.disk, h.pending⟩
    show P (F.stringify (F.load s.disk))
    cases hdisk : s.disk with
    | missing | blank => exact hempty hreading
    | text t => exact (F.stringify_parse t).symm ▸ h.disk t hdisk

theorem complete {i : Nat} (h : Holds F P s) (hcomplete : s.complete i = some s') :
    Holds F P s' := by
  obtain ⟨w, hw, rfl⟩ := Option.map_eq_some_iff.mp hcomplete
  refine ⟨h.memory, fun t ht => ?_, fun w hw => h.pending w (List.mem_of_mem_eraseIdx hw)⟩
  obtain rfl : w.2 = t := Content.text.inj ht
  exact h.pending w (List.mem_of_getElem? hw)

end Holds

end Saved
