-- SUMMARY: A shared collection with unique keys: entries are added once and removed by authors that have seen them, and every reader sees those added less those removed.
import Mathlib.Data.List.Pairwise
import SmartDoor.Base.Registers

/-!
# Collections with unique keys

An entry is a register whose key nobody has used before: it is added by one write,
and set to `none` by authors that have been told of it. Writes of different authors
overtake each other, but a removal never overtakes the entry that it removes: its
author has seen it, so the entry has landed or is an older write of the same author.
Hence what an author reads does not depend on the order of the writes that it knows.
-/

namespace Registers

variable {A P V : Type}

/-- The write adds an entry. -/
def Write.Adds (w : Write A P (Option V)) : Prop := w.value ≠ none

/-- The two writes do not add the same entry. -/
def Write.Apart (u w : Write A P (Option V)) : Prop := u.Adds → w.Adds → u.path ≠ w.path

instance : Std.Symm (Write.Apart (A := A) (P := P) (V := V)) where
  symm _ _ h hw hu heq := h hu hw heq.symm

/-- What holds of the writes to a collection in the order of the server, those on
their way behind those that have landed. -/
structure Orderly (s : Store A P (Option V)) : Prop where
  once : (s.hist ++ s.flight).Pairwise Write.Apart
  after : (s.hist ++ s.flight).Pairwise fun u w => ¬ u.Adds → w.Adds → u.path ≠ w.path
  own : ∀ u ∈ s.flight, ∀ w ∈ s.flight, u.Adds → ¬ w.Adds → u.path = w.path →
    u.author = w.author

theorem orderly_empty : Orderly (⟨[], []⟩ : Store A P (Option V)) where
  once := List.Pairwise.nil
  after := List.Pairwise.nil
  own := by simp

section

variable [DecidableEq A] {s s' : Store A P (Option V)} {w : Write A P (Option V)} {a : A} {n : Nat}

/-- What an author sees is in the order of the server. -/
theorem view_sublist : (s.view a n).Sublist (s.hist ++ s.flight) := by
  have hsplit : s.hist ++ s.flight = s.hist.take n ++ (s.hist.drop n ++ s.flight) := by
    rw [← List.append_assoc, List.take_append_drop]
  rw [hsplit]
  exact List.Sublist.append (List.Sublist.refl _) List.filter_sublist

omit [DecidableEq A] in
theorem issue_append : (s.issue w).hist ++ (s.issue w).flight = (s.hist ++ s.flight) ++ [w] :=
  (List.append_assoc ..).symm

omit [DecidableEq A] in
/-- Two writes that add one entry are one. -/
theorem Orderly.eq_of_adds (h : Orderly s) {u w : Write A P (Option V)}
    (hu : u ∈ s.hist ++ s.flight) (hw : w ∈ s.hist ++ s.flight) (hadds : u.Adds) (hadds' : w.Adds)
    (hpath : u.path = w.path) : u = w := by
  by_contra hne
  exact h.once.forall hu hw hne hadds hadds' hpath

omit [DecidableEq A] in
theorem Orderly.add (h : Orderly s) (hfresh : ∀ u ∈ s.hist ++ s.flight, u.path ≠ w.path)
    (hadds : w.Adds) : Orderly (s.issue w) := by
  refine ⟨?_, ?_, fun u hu v hv huadds hvadds hpath => ?_⟩
  · rw [issue_append]
    refine List.pairwise_append.mpr ⟨h.once, List.pairwise_singleton _ _, fun u hu v hv _ _ => ?_⟩
    exact List.mem_singleton.mp hv ▸ hfresh u hu
  · rw [issue_append]
    refine List.pairwise_append.mpr ⟨h.after, List.pairwise_singleton _ _, fun u hu v hv _ _ => ?_⟩
    exact List.mem_singleton.mp hv ▸ hfresh u hu
  · rcases List.mem_append.mp hv with hv | hv
    · rcases List.mem_append.mp hu with hu | hu
      · exact h.own u hu v hv huadds hvadds hpath
      · rw [List.mem_singleton.mp hu] at hpath
        exact absurd hpath.symm (hfresh v (List.mem_append_right _ hv))
    · obtain rfl := List.mem_singleton.mp hv
      exact absurd hadds hvadds

/-- An entry is removed by an author that sees it. -/
theorem Orderly.remove (h : Orderly s) (hremoves : ¬ w.Adds)
    (hseen : ∃ u ∈ s.view w.author n, u.path = w.path ∧ u.Adds) : Orderly (s.issue w) := by
  refine ⟨?_, ?_, fun u hu v hv huadds hvadds hpath => ?_⟩
  · rw [issue_append]
    refine List.pairwise_append.mpr ⟨h.once, List.pairwise_singleton _ _, fun u _ v hv _ hv' => ?_⟩
    exact absurd (List.mem_singleton.mp hv ▸ hv') hremoves
  · rw [issue_append]
    refine List.pairwise_append.mpr ⟨h.after, List.pairwise_singleton _ _, fun u _ v hv _ hv' => ?_⟩
    exact absurd (List.mem_singleton.mp hv ▸ hv') hremoves
  · have hu' : u ∈ s.flight := by
      rcases List.mem_append.mp hu with hu | hu
      · exact hu
      · exact absurd (List.mem_singleton.mp hu ▸ huadds) hremoves
    rcases List.mem_append.mp hv with hv | hv
    · exact h.own u hu' v hv huadds hvadds hpath
    · obtain rfl := List.mem_singleton.mp hv
      -- the entry is on its way, so its author is the one that sees it
      obtain ⟨x, hx, hxpath, hxadds⟩ := hseen
      obtain rfl := h.eq_of_adds (List.mem_append_right _ hu') (view_sublist.subset hx) huadds
        hxadds (hpath.trans hxpath.symm)
      rcases List.mem_append.mp hx with hx | hx
      · have hlanded := (List.pairwise_append.mp h.once).2.2 u (List.mem_of_mem_take hx) u hu'
        exact absurd rfl (hlanded huadds huadds)
      · simpa using (List.mem_filter.mp hx).2

/-- Landing writes overtake those of other authors, and no removal overtakes its entry. -/
theorem Orderly.land {i : Nat} (h : Orderly s) (hland : s.land i = some s') : Orderly s' := by
  have hperm := Store.perm_land hland
  obtain ⟨w, pre, post, hflight, hfirst, rfl⟩ := Store.land_cases hland
  have hsub : (pre ++ post).Sublist s.flight := by
    rw [hflight]
    exact List.Sublist.append (List.Sublist.refl _) (List.sublist_cons_self _ _)
  refine ⟨?_, ?_, fun u hu v hv => h.own u (hsub.subset hu) v (hsub.subset hv)⟩
  · exact (hperm.pairwise_iff (Std.Symm.symm _ _)).mpr h.once
  · obtain ⟨hhist, hrest, hcross⟩ := List.pairwise_append.mp h.after
    rw [List.append_assoc, List.singleton_append]
    refine List.pairwise_append.mpr ⟨hhist, List.pairwise_cons.mpr ⟨fun x hx hw hxadds hpath => ?_,
      hrest.sublist hsub⟩, fun x hx y hy => hcross x hx y ?_⟩
    · have hmem : w ∈ s.flight := by simp [hflight]
      rcases List.mem_append.mp hx with hx | hx
      · exact hfirst x hx (h.own x (by simp [hflight, hx]) w hmem hxadds hw hpath.symm)
      · rw [hflight] at hrest
        have hbehind := (List.pairwise_cons.mp (List.pairwise_append.mp hrest).2.1).1 x hx
        exact hbehind hw hxadds hpath
    · rw [hflight]
      exact List.perm_middle.mem_iff.mpr hy

/-- An author reads the entries that it knows to have been added, less those that it knows
to have been removed. -/
theorem Orderly.read_eq_some_iff [DecidableEq P] (h : Orderly s) {p : P} {v : V} :
    (∃ w, s.read a n p = some w ∧ w.value = some v) ↔
      (∃ u ∈ s.view a n, u.path = p ∧ u.value = some v) ∧
        ∀ u ∈ s.view a n, u.path = p → u.Adds := by
  have hafter := h.after.sublist (view_sublist (s := s) (a := a) (n := n))
  constructor
  · rintro ⟨w, hw, hvalue⟩
    have hwadds : w.Adds := by simp [Write.Adds, hvalue]
    obtain ⟨hmem, hpath⟩ := mem_of_latest hw
    refine ⟨⟨w, hmem, hpath, hvalue⟩, fun u hu hupath => ?_⟩
    by_contra huadds
    -- a removal is not before the last write, which adds, nor behind it
    obtain ⟨k, hk, hlast⟩ := latest_getElem hw
    obtain ⟨hlt, hkw⟩ := List.getElem?_eq_some_iff.mp hk
    obtain ⟨j, hj⟩ := List.mem_iff_getElem?.mp hu
    obtain ⟨hjlt, hju⟩ := List.getElem?_eq_some_iff.mp hj
    rcases Nat.lt_trichotomy j k with hjk | rfl | hjk
    · have hpair := List.pairwise_iff_getElem.mp hafter j k hjlt hlt hjk
      rw [hju, hkw] at hpair
      exact hpair huadds hwadds (hupath.trans hpath.symm)
    · exact huadds (by rwa [← hju, hkw])
    · refine hlast u ?_ hupath
      rw [List.mem_drop_iff_getElem]
      exact ⟨j - (k + 1), by omega, by simpa [show k + 1 + (j - (k + 1)) = j by omega] using hju⟩
  · rintro ⟨⟨u, hu, hupath, hvalue⟩, hall⟩
    have huadds : u.Adds := by simp [Write.Adds, hvalue]
    cases hread : s.read a n p with
    | none => exact absurd hupath (latest_eq_none_iff.mp hread u hu)
    | some w =>
      obtain ⟨hmem, hpath⟩ := mem_of_latest hread
      obtain rfl := h.eq_of_adds (view_sublist.subset hmem) (view_sublist.subset hu)
        (hall w hmem hpath) huadds (hpath.trans hupath.symm)
      exact ⟨w, rfl, hvalue⟩

end

end Registers
