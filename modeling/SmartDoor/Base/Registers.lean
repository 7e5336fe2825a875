-- SUMMARY: Last-write-wins registers on a server, the writes still on their way to it, and what an author reads who sees its own writes at once.
import Mathlib.Data.List.Perm.Basic
import SmartDoor.Base.Lists

/-!
# Registers of a shared store

A store is the list of all writes in the order in which they have reached the
server, and the list of those on their way. The writes of one author arrive in
the order in which it issued them; writes of different authors overtake each
other freely.

An author that follows the store has been told about the first `n` arrivals. It
reads these with its own later writes, landed or not, on top: its writes are
visible to it at once and hide what older arrivals say about the same register.
Hence what it reads does not change when a write lands, only when it is told of
more arrivals or writes itself (`read_land`).
-/

namespace Registers

/-- A write of an author to a register. `stamp` says when it was issued. -/
structure Write (A P V : Type) where
  author : A
  path : P
  value : V
  stamp : Nat
  deriving DecidableEq, Repr

variable {A P V : Type}

/-! ## The last write to a register -/

section Latest

variable [DecidableEq P]

/-- The last write to `p`. -/
def latest (p : P) (l : List (Write A P V)) : Option (Write A P V) :=
  (l.filter (·.path = p)).getLast?

theorem latest_append {p : P} {l l' : List (Write A P V)} :
    latest p (l ++ l') = (latest p l').or (latest p l) := by
  simp [latest, List.getLast?_append]

theorem latest_eq_none_iff {p : P} {l : List (Write A P V)} :
    latest p l = none ↔ ∀ w ∈ l, w.path ≠ p := by
  simp [latest]

theorem mem_of_latest {p : P} {l : List (Write A P V)} {w : Write A P V}
    (h : latest p l = some w) : w ∈ l ∧ w.path = p := by
  simpa using List.mem_filter.mp (List.mem_of_getLast? h)

theorem latest_singleton {p : P} {w : Write A P V} (h : w.path = p) : latest p [w] = some w := by
  simp [latest, h]

theorem latest_append_of_forall {p : P} {l l' : List (Write A P V)} (h : ∀ w ∈ l', w.path ≠ p) :
    latest p (l ++ l') = latest p l := by
  rw [latest_append, latest_eq_none_iff.mpr h, Option.none_or]

/-- Nothing behind the last write goes to the same register. -/
theorem latest_getElem {p : P} {l : List (Write A P V)} {w : Write A P V}
    (h : latest p l = some w) :
    ∃ k, l[k]? = some w ∧ ∀ u ∈ l.drop (k + 1), u.path ≠ p := by
  induction l with
  | nil => simp [latest] at h
  | cons v l ih =>
    rw [← List.singleton_append, latest_append] at h
    cases hl : latest p l with
    | some w' =>
      obtain rfl : w' = w := by simpa [hl] using h
      obtain ⟨k, hk, hrest⟩ := ih hl
      exact ⟨k + 1, by simpa using hk, by simpa using hrest⟩
    | none =>
      rw [hl, Option.none_or] at h
      obtain rfl : w = v := by simpa using (mem_of_latest h).1
      exact ⟨0, rfl, by simpa using latest_eq_none_iff.mp hl⟩

/-- A write with nothing behind it in the same register is the last one. -/
theorem latest_of_getElem {p : P} {l : List (Write A P V)} {w : Write A P V} {k : Nat}
    (hk : l[k]? = some w) (hw : w.path = p) (hrest : ∀ u ∈ l.drop (k + 1), u.path ≠ p) :
    latest p l = some w := by
  have hsplit : l.take (k + 1) = l.take k ++ [w] := by rw [List.take_add_one, hk]; rfl
  rw [← List.take_append_drop (k + 1) l, latest_append_of_forall hrest, hsplit, latest_append,
    latest_singleton hw, Option.some_or]

end Latest

/-! ## Stores -/

/-- The writes that have reached the server, and those on their way. -/
structure Store (A P V : Type) where
  hist : List (Write A P V)
  flight : List (Write A P V)
  deriving DecidableEq, Repr

namespace Store

def issue (s : Store A P V) (w : Write A P V) : Store A P V :=
  { s with flight := s.flight ++ [w] }

variable [DecidableEq A]

/-- The `i`th write on its way reaches the server, if no older one of its author is left. -/
def land (s : Store A P V) (i : Nat) : Option (Store A P V) :=
  match s.flight[i]? with
  | none => none
  | some w =>
    if ∀ u ∈ s.flight.take i, u.author ≠ w.author then
      some { hist := s.hist ++ [w], flight := s.flight.eraseIdx i }
    else none

/-- The writes of `a` that are not among the first `n` arrivals. -/
def pending (s : Store A P V) (a : A) (n : Nat) : List (Write A P V) :=
  (s.hist.drop n ++ s.flight).filter (·.author = a)

/-- What `a` has been told of, and its own writes. -/
def view (s : Store A P V) (a : A) (n : Nat) : List (Write A P V) :=
  s.hist.take n ++ s.pending a n

/-- The write that `a` reads in the register `p`. -/
def read [DecidableEq P] (s : Store A P V) (a : A) (n : Nat) (p : P) : Option (Write A P V) :=
  latest p (s.view a n)

variable {s s' : Store A P V} {a : A} {n k i : Nat} {w : Write A P V}

/-! ## Landing -/

/-- The write that lands is the first of its author. -/
theorem land_eq_some (h : s.land i = some s') :
    ∃ w, s.flight[i]? = some w ∧ (∀ u ∈ s.flight.take i, u.author ≠ w.author) ∧
      s' = { hist := s.hist ++ [w], flight := s.flight.eraseIdx i } := by
  unfold land at h
  split at h
  · cases h
  · next w hw =>
    split at h
    · next hfirst => exact ⟨w, hw, hfirst, (Option.some.inj h).symm⟩
    · cases h

theorem land_cases (h : s.land i = some s') :
    ∃ w pre post, s.flight = pre ++ w :: post ∧ (∀ u ∈ pre, u.author ≠ w.author) ∧
      s' = { hist := s.hist ++ [w], flight := pre ++ post } := by
  obtain ⟨w, hw, hfirst, rfl⟩ := land_eq_some h
  obtain ⟨hlt, rfl⟩ := List.getElem?_eq_some_iff.mp hw
  refine ⟨s.flight[i], s.flight.take i, s.flight.drop (i + 1), by simp, hfirst, ?_⟩
  rw [List.eraseIdx_eq_take_drop_succ]

theorem getElem?_land (h : s.land i = some s') :
    ∃ w, s.flight[i]? = some w ∧ s'.hist = s.hist ++ [w] := by
  obtain ⟨w, hw, -, rfl⟩ := land_eq_some h
  exact ⟨w, hw, rfl⟩

/-- Landing moves a write; it makes and loses none. -/
theorem drop_perm_land (h : s.land i = some s') (hk : k ≤ s.hist.length) :
    (s'.hist.drop k ++ s'.flight).Perm (s.hist.drop k ++ s.flight) := by
  obtain ⟨w, pre, post, hflight, -, rfl⟩ := land_cases h
  simp only [hflight, List.drop_append_of_le_length hk, List.append_assoc, List.singleton_append]
  exact List.Perm.append_left _ List.perm_middle.symm

theorem perm_land (h : s.land i = some s') :
    (s'.hist ++ s'.flight).Perm (s.hist ++ s.flight) := by
  simpa using drop_perm_land (k := 0) h (Nat.zero_le _)

theorem hist_land (h : s.land i = some s') : ∃ w ∈ s.flight, s'.hist = s.hist ++ [w] := by
  obtain ⟨w, pre, post, hflight, -, rfl⟩ := land_cases h
  exact ⟨w, by simp [hflight], rfl⟩

/-- What an author reads is not touched by a write that lands. -/
theorem view_land (h : s.land i = some s') (hn : n ≤ s.hist.length) :
    s'.view a n = s.view a n := by
  obtain ⟨w, pre, post, hflight, hfirst, rfl⟩ := land_cases h
  simp only [view, pending, List.take_append_of_le_length hn, List.drop_append_of_le_length hn,
    hflight, List.filter_append, List.filter_cons, List.append_assoc]
  by_cases hw : w.author = a
  · -- its older writes have landed before
    have hpre : pre.filter (·.author = a) = [] := by
      rw [List.filter_eq_nil_iff]
      intro u hu
      simpa [← hw] using hfirst u hu
    simp [hw, hpre]
  · simp [hw]

theorem told_land (h : s.land i = some s') : s'.hist.length = s.hist.length + 1 := by
  obtain ⟨w, -, hhist⟩ := hist_land h
  simp [hhist]

/-! ## Issuing -/

theorem view_issue_self (hw : w.author = a) : (s.issue w).view a n = s.view a n ++ [w] := by
  simp [view, pending, issue, hw]

theorem view_issue_other (hw : w.author ≠ a) : (s.issue w).view a n = s.view a n := by
  simp [view, pending, issue, hw]

/-! ## Growth -/

/-- `s'` has what `s` has: the arrivals in the same places, and all later writes
still behind them. -/
structure Extends (s s' : Store A P V) : Prop where
  hist : s.hist <+: s'.hist
  later : ∀ k ≤ s.hist.length, ∀ u ∈ s.hist.drop k ++ s.flight, u ∈ s'.hist.drop k ++ s'.flight

namespace Extends

omit [DecidableEq A]

theorem refl (s : Store A P V) : Extends s s := ⟨List.prefix_refl _, fun _ _ _ h => h⟩

theorem getElem? {w : Write A P V} (h : Extends s s') (hk : s.hist[k]? = some w) :
    s'.hist[k]? = some w := by
  obtain ⟨rest, hrest⟩ := h.hist
  obtain ⟨hlt, -⟩ := List.getElem?_eq_some_iff.mp hk
  rw [← hrest, List.getElem?_append_left hlt, hk]

theorem issue (s : Store A P V) (w : Write A P V) : Extends s (s.issue w) := by
  refine ⟨List.prefix_refl _, fun k _ u hu => ?_⟩
  simp only [Store.issue, ← List.append_assoc]
  exact List.mem_append_left _ hu

theorem trans {t : Store A P V} (h : Extends s s') (h' : Extends s' t) : Extends s t :=
  ⟨h.hist.trans h'.hist, fun k hk u hu =>
    h'.later k (Nat.le_trans hk h.hist.length_le) u (h.later k hk u hu)⟩

end Extends

theorem extends_land (h : s.land i = some s') : Extends s s' := by
  obtain ⟨w, -, hhist⟩ := hist_land h
  exact ⟨⟨[w], hhist.symm⟩, fun k hk u hu => (drop_perm_land h hk).mem_iff.mpr hu⟩

/-! ## Reading -/

variable [DecidableEq P] {p : P}

theorem read_land (h : s.land i = some s') (hn : n ≤ s.hist.length) :
    s'.read a n p = s.read a n p := by
  simp only [read, view_land h hn]

/-- An author reads its own write at once. -/
theorem read_issue_self (hw : w.author = a) (hp : w.path = p) :
    (s.issue w).read a n p = some w := by
  rw [read, view_issue_self hw, latest_append, latest_singleton hp, Option.some_or]

theorem read_issue_of_ne (h : w.author ≠ a ∨ w.path ≠ p) :
    (s.issue w).read a n p = s.read a n p := by
  by_cases hw : w.author = a
  · have hp : w.path ≠ p := h.resolve_left (not_not_intro hw)
    rw [read, view_issue_self hw, latest_append_of_forall (by simpa using hp), read]
  · rw [read, view_issue_other hw, read]

theorem mem_of_read (h : s.read a n p = some w) : w ∈ s.hist ++ s.flight ∧ w.path = p := by
  obtain ⟨hmem, hp⟩ := mem_of_latest h
  refine ⟨?_, hp⟩
  rcases List.mem_append.mp hmem with hmem | hmem
  · exact List.mem_append_left _ (List.mem_of_mem_take hmem)
  · exact Lists.mem_append_of_mem_drop_append (List.mem_filter.mp hmem).1

/-- A write of someone else that `a` reads has landed, and `a` has not written
to the register since. -/
theorem read_of_author_ne (h : s.read a n p = some w) (hw : w.author ≠ a) :
    ∃ k, k < n ∧ s.hist[k]? = some w ∧
      ∀ u ∈ s.hist.drop (k + 1) ++ s.flight, u.author = a → u.path ≠ p := by
  have hpending : ∀ u ∈ s.pending a n, u.path ≠ p := by
    rw [← latest_eq_none_iff, Option.eq_none_iff_forall_ne_some]
    intro u hu
    rw [read, view, latest_append, hu, Option.some_or, Option.some_inj] at h
    have hmem := (mem_of_latest hu).1
    simp only [pending, List.mem_filter, decide_eq_true_eq] at hmem
    exact hw (h ▸ hmem.2)
  rw [read, view, latest_append_of_forall hpending] at h
  obtain ⟨k, hk, hrest⟩ := latest_getElem h
  have hkn : k < n := by
    by_contra hge
    simp [List.getElem?_take_eq_none (Nat.le_of_not_lt hge)] at hk
  rw [List.getElem?_take_of_lt hkn] at hk
  refine ⟨k, hkn, hk, fun u hu ha => ?_⟩
  rw [Lists.drop_eq_drop_take_append hkn, List.append_assoc] at hu
  rcases List.mem_append.mp hu with hu | hu
  · exact hrest u hu
  · exact hpending u (List.mem_filter.mpr ⟨hu, by simpa using ha⟩)

/-- A landed write that `a` has been told of is read, or a newer one is there. -/
theorem read_or_newer (hk : s.hist[k]? = some w) (hkn : k < n) (hw : w.path = p) :
    s.read a n p = some w ∨ ∃ u ∈ s.hist.drop (k + 1) ++ s.flight, u.path = p := by
  by_cases h : ∃ u ∈ s.hist.drop (k + 1) ++ s.flight, u.path = p
  · exact .inr h
  · left
    simp only [not_exists, not_and] at h
    rw [Lists.drop_eq_drop_take_append hkn, List.append_assoc] at h
    have hpending : ∀ u ∈ s.pending a n, u.path ≠ p := fun u hu =>
      h u (List.mem_append.mpr (.inr (List.mem_filter.mp hu).1))
    rw [read, view, latest_append_of_forall hpending]
    refine latest_of_getElem (by rw [List.getElem?_take_of_lt hkn, hk]) hw fun u hu => ?_
    exact h u (List.mem_append.mpr (.inl hu))

end Store

end Registers
