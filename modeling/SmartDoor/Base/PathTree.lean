-- SUMMARY: A tree database as the set of its leaves: reading a node, setting a leaf, and what that leaves alone.
import Mathlib.Data.List.Basic
import Mathlib.Data.List.Dedup

/-!
# A tree database

A node exists if a leaf lies on it or under it, so the database is given by its
leaves, none of which lies above another. Setting a leaf removes what was under
it, and every leaf above it becomes an object.
-/

/-- A database of leaves with keys `K` and values `V`. -/
structure PathTree (K V : Type) where
  leaves : List (List K × V)
  apart : leaves.Pairwise fun a b => ¬ a.1 <+: b.1 ∧ ¬ b.1 <+: a.1

namespace PathTree

variable {K V : Type} [DecidableEq K]

/-- What is read at a node. -/
inductive Node (V : Type) where
  | null
  | leaf (value : V)
  | object
  deriving DecidableEq, Repr

/-- Neither path leads through the other. -/
def Apart (p q : List K) : Prop := ¬ p <+: q ∧ ¬ q <+: p

instance {p q : List K} : Decidable (Apart p q) := inferInstanceAs (Decidable (_ ∧ _))

def val (t : PathTree K V) (p : List K) : Node V :=
  match t.leaves.find? (·.1 = p) with
  | some l => .leaf l.2
  | none => if ∃ l ∈ t.leaves, p <+: l.1 then .object else .null

def set (t : PathTree K V) (p : List K) (value : V) : PathTree K V where
  leaves := (p, value) :: t.leaves.filter fun l => Apart l.1 p
  apart := by
    refine List.pairwise_cons.mpr ⟨fun l hl => ?_, t.apart.filter _⟩
    obtain ⟨h₁, h₂⟩ : Apart l.1 p := by simpa using (List.mem_filter.mp hl).2
    exact ⟨h₂, h₁⟩

/-- The keys of the root's children, in some order. -/
def children (t : PathTree K V) : List K := (t.leaves.filterMap (·.1.head?)).dedup

variable {t : PathTree K V} {p q : List K} {v : V} {k : K}

omit [DecidableEq K] in
theorem not_prefix_of_getElem? {i : Nat} {x y : K} (hp : p[i]? = some x) (hq : q[i]? = some y)
    (hne : x ≠ y) : ¬ p <+: q := by
  rintro ⟨r, rfl⟩
  have hlt : i < p.length := (List.getElem?_eq_some_iff.mp hp).1
  rw [List.getElem?_append_left hlt, hp] at hq
  exact hne (Option.some.inj hq)

omit [DecidableEq K] in
/-- Paths that differ in the same place. -/
theorem apart_of_getElem? {i : Nat} {x y : K} (hp : p[i]? = some x) (hq : q[i]? = some y)
    (hne : x ≠ y) : Apart p q :=
  ⟨not_prefix_of_getElem? hp hq hne, not_prefix_of_getElem? hq hp hne.symm⟩

omit [DecidableEq K] in
/-- A path under one that is apart from `p` is apart from `p`. -/
theorem Apart.of_prefix {l : List K} (h : Apart q p) (hl : q <+: l) : Apart l p := by
  refine ⟨fun hlp => h.1 (hl.trans hlp), fun hpl => ?_⟩
  rcases List.prefix_or_prefix_of_prefix hl hpl with hqp | hpq
  · exact h.1 hqp
  · exact h.2 hpq

theorem val_set_self : (t.set p v).val p = .leaf v := by
  simp [val, set]

/-- A node apart from the leaf that is set reads as before. -/
theorem val_set_of_apart (h : Apart q p) : (t.set p v).val q = t.val q := by
  have hne : p ≠ q := by
    rintro rfl
    exact h.1 (List.prefix_refl _)
  have hfind : (t.set p v).leaves.find? (·.1 = q) = t.leaves.find? (·.1 = q) := by
    rw [set, List.find?_cons_of_neg (by simpa using hne), List.find?_filter]
    congr 1
    funext l
    by_cases hl : l.1 = q
    · simp [hl, h]
    · simp [hl]
  have hunder : (∃ l ∈ (t.set p v).leaves, q <+: l.1) ↔ ∃ l ∈ t.leaves, q <+: l.1 := by
    constructor
    · rintro ⟨l, hl, hql⟩
      rcases List.mem_cons.mp hl with rfl | hl
      · exact absurd hql h.1
      · exact ⟨l, (List.mem_filter.mp hl).1, hql⟩
    · rintro ⟨l, hl, hql⟩
      exact ⟨l, .tail _ (List.mem_filter.mpr ⟨hl, by simpa using h.of_prefix hql⟩), hql⟩
  unfold val
  rw [hfind]
  simp only [hunder]

theorem mem_leaves_of_val (h : t.val p = .leaf v) : (p, v) ∈ t.leaves := by
  unfold val at h
  split at h
  · next l hl =>
    obtain rfl : l.1 = p := by simpa using List.find?_some hl
    obtain rfl := Node.leaf.inj h
    exact List.mem_of_find?_eq_some hl
  · split at h <;> cases h

theorem nodup_children : t.children.Nodup := List.nodup_dedup _

theorem mem_children_of_val (h : t.val (k :: p) = .leaf v) : k ∈ t.children := by
  rw [children, List.mem_dedup, List.mem_filterMap]
  exact ⟨_, mem_leaves_of_val h, rfl⟩

end PathTree
