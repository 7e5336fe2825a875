-- SUMMARY: Lists as traces, queues and tables: lookups after a change, properties that hold at each entry, the counting of entries, and maximal runs.
import Mathlib.Data.Finset.Card
import Mathlib.Data.Finset.Range
import Mathlib.Data.List.Induction
import Mathlib.Data.List.SplitBy

/-!
# Lists as traces, queues and tables

A trace grows at its end, a queue loses entries, a table is changed in one place.
These are the lookups after such a change, the properties a trace has at each of
its entries, and the last of the maximal runs it falls into.
-/

namespace Lists

variable {α : Type*} {l : List α} {x y : α} {i k n : Nat}

/-- An entry of a trace with one more event is an old one, or the new one at the end. -/
theorem getElem?_concat_eq_some (h : (l ++ [x])[k]? = some y) :
    l[k]? = some y ∨ k = l.length ∧ x = y := by
  rw [List.getElem?_append] at h
  split at h
  · exact .inl h
  · next hge =>
    right
    obtain ⟨hlt, hget⟩ := List.getElem?_eq_some_iff.mp h
    have hk : k = l.length := by
      simp only [List.length_singleton] at hlt
      omega
    subst hk
    exact ⟨rfl, by simpa using hget⟩

/-- An entry of a table after the `i`th one has been replaced. -/
theorem getElem?_set_eq_some {z : α} (hi : l[i]? = some x) :
    (l.set i y)[k]? = some z ↔ (k = i ∧ z = y) ∨ (k ≠ i ∧ l[k]? = some z) := by
  have hlt : i < l.length := (List.getElem?_eq_some_iff.mp hi).1
  by_cases hk : k = i
  · subst hk
    simp [hlt, eq_comm]
  · simp [List.getElem?_set_ne (Ne.symm hk), hk]

theorem getElem?_of_prefix {l' : List α} (h : l <+: l') (hk : l[k]? = some x) :
    l'[k]? = some x := by
  obtain ⟨rest, rfl⟩ := h
  rw [List.getElem?_append_left (List.getElem?_eq_some_iff.mp hk).1, hk]

/-- Replacing an entry by itself. -/
theorem set_eq_self (h : l[i]? = some x) : l.set i x = l := by
  obtain ⟨hlt, rfl⟩ := List.getElem?_eq_some_iff.mp h
  exact List.set_getElem_self hlt

/-- A queue that loses an entry other than the last keeps its last one. -/
theorem getLast?_eraseIdx (hi : i + 1 < l.length) : (l.eraseIdx i).getLast? = l.getLast? := by
  have hlast : l.length - 1 - 1 + 1 = l.length - 1 := by omega
  rw [List.getLast?_eq_getElem?, List.getLast?_eq_getElem?, List.length_eraseIdx_of_lt (by omega),
    List.getElem?_eraseIdx, if_neg (by omega), hlast]

theorem mem_append_of_mem_drop_append {l' : List α} (h : x ∈ l.drop k ++ l') : x ∈ l ++ l' := by
  rcases List.mem_append.mp h with hdrop | hrest
  · exact List.mem_append_left _ (List.mem_of_mem_drop hdrop)
  · exact List.mem_append_right _ hrest

theorem drop_eq_drop_take_append (hkn : k ≤ n) : l.drop k = (l.take n).drop k ++ l.drop n := by
  by_cases hn : n ≤ l.length
  · have hlen : k ≤ (l.take n).length := by
      rw [List.length_take]
      omega
    rw [← List.drop_append_of_le_length hlen, List.take_append_drop]
  · have hle : l.length ≤ n := by omega
    rw [List.take_of_length_le hle, List.drop_eq_nil_of_le hle, List.append_nil]

/-! ## Properties of every entry

A property of an entry and what precedes it. It passes to every part of the list
that came first, so what holds everywhere in a finished trace holds in one that
is still growing. -/

/-- `P` holds of every entry of the list and the entries before it. -/
def Everywhere (P : List α → α → Prop) (l : List α) : Prop :=
  ∀ pre x post, l = pre ++ x :: post → P pre x

variable {P Q : List α → α → Prop} {m : List α}

@[simp] theorem everywhere_nil : Everywhere P [] := by
  intro pre x post h
  simp at h

@[simp] theorem everywhere_cons :
    Everywhere P (x :: l) ↔ P [] x ∧ Everywhere (fun pre => P (x :: pre)) l := by
  constructor
  · intro h
    refine ⟨h [] x l rfl, fun pre y post hl => h (x :: pre) y post ?_⟩
    rw [hl, List.cons_append]
  · rintro ⟨hx, hl⟩ pre y post h
    cases pre with
    | nil =>
      obtain ⟨rfl, rfl⟩ := List.cons.inj h
      exact hx
    | cons z pre =>
      obtain ⟨rfl, hrest⟩ := List.cons.inj h
      exact hl pre y post hrest

theorem everywhere_append :
    Everywhere P (l ++ m) ↔ Everywhere P l ∧ Everywhere (fun pre => P (l ++ pre)) m := by
  induction l generalizing P with
  | nil => simp
  | cons x l ih => simp only [List.cons_append, everywhere_cons, ih, and_assoc]

theorem everywhere_concat : Everywhere P (l ++ [x]) ↔ Everywhere P l ∧ P l x := by
  simp [everywhere_append]

theorem everywhere_map {β : Type*} {f : β → α} {l : List β} :
    Everywhere P (l.map f) ↔ Everywhere (fun pre x => P (pre.map f) (f x)) l := by
  induction l using List.reverseRecOn with
  | nil => exact iff_of_true everywhere_nil everywhere_nil
  | append_singleton l x ih =>
    rw [List.map_append, List.map_singleton, everywhere_concat, everywhere_concat, ih]

theorem Everywhere.of_append (h : Everywhere P (l ++ m)) : Everywhere P l :=
  (everywhere_append.mp h).1

theorem Everywhere.mono (hPQ : ∀ pre x, P pre x → Q pre x) (h : Everywhere P l) :
    Everywhere Q l := fun pre x post hl => hPQ pre x (h pre x post hl)

/-! ## Counting entries -/

/-- The places of the entries that meet `p`. -/
def places (p : α → Bool) (l : List α) : Finset Nat :=
  (Finset.range l.length).filter fun i => l[i]?.any p

theorem mem_places {p : α → Bool} : i ∈ places p l ↔ ∃ x, l[i]? = some x ∧ p x := by
  simp only [places, Finset.mem_filter, Finset.mem_range, Option.any_eq_true]
  constructor
  · exact fun h => h.2
  · rintro ⟨x, hx, hp⟩
    exact ⟨(List.getElem?_eq_some_iff.mp hx).1, x, hx, hp⟩

theorem card_places (p : α → Bool) (l : List α) : (places p l).card = l.countP p := by
  induction l using List.reverseRecOn with
  | nil => rfl
  | append_singleton l x ih =>
    have hold : (Finset.range l.length).filter (fun i => (l ++ [x])[i]?.any p) = places p l := by
      refine Finset.filter_congr fun i hi => ?_
      rw [List.getElem?_append_left (Finset.mem_range.mp hi)]
    rw [places, List.length_append, List.length_singleton, Finset.range_add_one,
      Finset.filter_insert, hold, List.countP_append, List.countP_singleton, ← ih]
    simp only [List.getElem?_concat_length, Option.any_some]
    split
    · refine Finset.card_insert_of_notMem fun hmem => ?_
      obtain ⟨y, hy, -⟩ := mem_places.mp hmem
      simp at hy
    · rfl

/-- Entries of one list that have entries of another behind them, no two the same. -/
theorem countP_le_countP {β : Type*} {p : α → Bool} {q : β → Bool} {m : List β} (f : Nat → Nat)
    (hf : ∀ i x, l[i]? = some x → p x → ∃ y, m[f i]? = some y ∧ q y)
    (hinj : ∀ i j x y, l[i]? = some x → p x → l[j]? = some y → p y → f i = f j → i = j) :
    l.countP p ≤ m.countP q := by
  rw [← card_places, ← card_places]
  refine Finset.card_le_card_of_injOn f (fun i hi => ?_) fun i hi j hj heq => ?_
  · obtain ⟨x, hx, hp⟩ := mem_places.mp hi
    exact mem_places.mpr (hf i x hx hp)
  · obtain ⟨x, hx, hp⟩ := mem_places.mp hi
    obtain ⟨y, hy, hq⟩ := mem_places.mp hj
    exact hinj i j x y hx hp hy hq heq

/-! ## Maximal runs -/

/-- The last of the maximal runs in which each entry is related to the next. -/
def lastRun (r : α → α → Bool) (l : List α) : List α := (l.splitBy r).getLast?.getD []

variable {r : α → α → Bool}

@[simp] theorem lastRun_nil : lastRun r [] = [] := rfl

/-- An entry that is not related to the one before it begins a run. -/
theorem lastRun_concat_of_not_rel (h : ∀ y ∈ l.getLast?, r y x = false) :
    lastRun r (l ++ [x]) = [x] := by
  unfold lastRun
  have hone : [x].splitBy r = [[x]] := rfl
  rw [List.splitBy_append_cons [] h, hone, List.getLast?_concat, Option.getD_some]

/-- An entry that is related to the one before it continues its run. -/
theorem lastRun_concat_of_rel (h : ∀ y ∈ l.getLast?, r y x = true) :
    lastRun r (l ++ [x]) = lastRun r l ++ [x] := by
  obtain rfl | hl := eq_or_ne l []
  · rfl
  obtain ⟨init, g, hg⟩ : ∃ init g, l.splitBy r = init ++ [g] :=
    ⟨_, _, (List.dropLast_concat_getLast (List.splitBy_ne_nil.mpr hl)).symm⟩
  obtain ⟨hflat, hnil, hchains, hbreaks⟩ := List.splitBy_eq_iff.mp hg
  have hne : g ≠ [] := fun heq => hnil (by simp [heq])
  have hlast : l.getLast? = g.getLast? := by
    rw [hflat, List.flatten_append, List.flatten_singleton, List.getLast?_append_of_ne_nil _ hne]
  have hsplit : (l ++ [x]).splitBy r = init ++ [g ++ [x]] := by
    refine List.splitBy_eq_iff.mpr ⟨?_, ?_, fun m hm => ?_, ?_⟩
    · simp [hflat]
    · intro hmem
      simp only [List.mem_append, List.mem_singleton] at hmem hnil
      obtain hinit | heq := hmem
      · exact hnil (.inl hinit)
      · simp at heq
    · obtain hinit | hlastm := List.mem_append.mp hm
      · exact hchains m (List.mem_append_left _ hinit)
      · obtain rfl := List.mem_singleton.mp hlastm
        refine List.isChain_append.mpr ⟨hchains g (by simp), List.isChain_singleton x, ?_⟩
        intro y hy z hz
        obtain rfl : x = z := by simpa using hz
        exact h y (by rw [hlast]; exact hy)
    · obtain ⟨hinit, -, hbreak⟩ := List.isChain_append.mp hbreaks
      refine List.isChain_append.mpr ⟨hinit, List.isChain_singleton _, fun m hm z hz => ?_⟩
      obtain ⟨ha, hb, hr⟩ := hbreak m hm g rfl
      obtain rfl : g ++ [x] = z := by simpa using hz
      refine ⟨ha, by simp, ?_⟩
      rw [List.head_append_of_ne_nil hne]
      exact hr
  unfold lastRun
  rw [hsplit, hg]
  simp

end Lists
