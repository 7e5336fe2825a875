-- SUMMARY: What an observer shows of a value that is sent over a lossy channel in order: samples of the value's history that never go back.
import Mathlib.Order.Monotone.Basic
import SmartDoor.Base.Transition

/-!
# Samples over a lossy channel

One party has a value, which changes on its own. Its messages carry the value of
the moment they are sent; the channel keeps their order and may lose any. The
observer shows what the last message it has taken carried, or leaves the display
as it was. Whatever the interleaving, what it shows at each moment is the value of
an earlier moment, and these moments never go back.
-/

namespace Transition

variable {σ α M V : Type*}

/-- The parts of a system that the observation depends on. -/
structure Display (σ M V : Type*) where
  value : σ → V
  channel : σ → List M
  /-- What the message carries, if anything. -/
  carries : M → Option V
  shown : σ → Option V

/-- What a step may do to them. -/
inductive Display.Moves (D : Display σ M V) (s s' : σ) : Prop where
  | send (new : List M) (hchannel : (D.channel s').Sublist (D.channel s ++ new))
    (hnew : ∀ m ∈ new, ∀ v, D.carries m = some v → D.value s' = v)
    (hshown : D.shown s' = D.shown s)
  | take {m : M} {rest : List M} (hchannel : D.channel s = m :: rest)
    (hrest : D.channel s' = rest)
    (hshown : D.shown s' = D.shown s ∨ ∃ v, D.carries m = some v ∧ D.shown s' = some v)

variable {D : Display σ M V} {step : σ → α → Option σ} {s t : σ} {as : List α} {lo lo' hi hi' : Nat}
  {l l' : List M} {R R' : M → Nat → Prop}

/-! ## Stamped messages -/

/-- The messages were sent at moments from `lo` to `hi`, in order, each as `R` says. -/
def Stamped (R : M → Nat → Prop) (hi : Nat) : Nat → List M → Prop
  | lo, [] => lo ≤ hi
  | lo, m :: l => ∃ k, lo ≤ k ∧ R m k ∧ Stamped R hi k l

theorem Stamped.le (h : Stamped R hi lo l) : lo ≤ hi := by
  induction l generalizing lo with
  | nil => exact h
  | cons m l ih =>
    obtain ⟨k, hk, -, hrest⟩ := h
    exact Nat.le_trans hk (ih hrest)

theorem Stamped.from (h : Stamped R hi lo l) (hle : lo' ≤ lo) : Stamped R hi lo' l := by
  cases l with
  | nil => exact Nat.le_trans hle h
  | cons m l =>
    obtain ⟨k, hk, hm, hrest⟩ := h
    exact ⟨k, Nat.le_trans hle hk, hm, hrest⟩

theorem Stamped.sublist (h : Stamped R hi lo l) (hsub : l'.Sublist l) : Stamped R hi lo l' := by
  induction hsub generalizing lo with
  | slnil => exact h
  | cons m hsub ih =>
    obtain ⟨k, hk, -, hrest⟩ := h
    exact (ih hrest).from hk
  | cons_cons m hsub ih =>
    obtain ⟨k, hk, hm, hrest⟩ := h
    exact ⟨k, hk, hm, ih hrest⟩

/-- New messages are stamped with the present. -/
theorem Stamped.append (h : Stamped R hi lo l) (hhi : hi ≤ hi')
    (hR : ∀ m k, k ≤ hi → R m k → R' m k) (hnew : ∀ m ∈ l', R' m hi') :
    Stamped R' hi' lo (l ++ l') := by
  induction l generalizing lo with
  | nil =>
    have hlo : lo ≤ hi' := Nat.le_trans h hhi
    clear h
    induction l' generalizing lo with
    | nil => exact hlo
    | cons m l' ih =>
      obtain ⟨hm, hrest⟩ := List.forall_mem_cons.mp hnew
      exact ⟨hi', hlo, hm, ih hrest (Nat.le_refl _)⟩
  | cons m l ih =>
    obtain ⟨k, hk, hm, hrest⟩ := h
    exact ⟨k, hk, hR m k hrest.le hm, ih hrest⟩

/-! ## Every run -/

/-- In the run `as` from `s`, the value was `v` at the `k`th moment. -/
def Display.Was (D : Display σ M V) (step : σ → α → Option σ) (s : σ) (as : List α) (k : Nat)
    (v : V) : Prop :=
  ∃ u, run step s (as.take k) = some u ∧ D.value u = v

theorem Display.Was.concat {a : α} {k : Nat} {v : V} (h : D.Was step s as k v)
    (hk : k ≤ as.length) : D.Was step s (as ++ [a]) k v := by
  unfold Display.Was
  rwa [List.take_append_of_le_length hk]

/-- `f` tells for each moment of the run which one is shown at it. -/
structure Display.Sampled (D : Display σ M V) (step : σ → α → Option σ) (s : σ) (as : List α)
    (f : Nat → Nat) : Prop where
  mono : Monotone f
  past : ∀ n, f n ≤ n ∧ f n ≤ as.length
  shown : ∀ n u v, run step s (as.take n) = some u → D.shown u = some v → D.Was step s as (f n) v

section

variable {f : Nat → Nat} {a : α} {t' : σ} {k : Nat}

/-- It is enough to know the moment that is shown after the last step. -/
theorem Display.Sampled.extend (hf : D.Sampled step s as f)
    (hnow : run step s (as ++ [a]) = some t') (hlo : f as.length ≤ k) (hhi : k ≤ as.length + 1)
    (hk : ∀ v, D.shown t' = some v → D.Was step s (as ++ [a]) k v) :
    D.Sampled step s (as ++ [a]) (fun n => if n ≤ as.length then f n else k) where
  mono i j hij := by
    by_cases hi : i ≤ as.length <;> by_cases hj : j ≤ as.length
    · simp [hi, hj, hf.mono hij]
    · simp [hi, hj, Nat.le_trans (hf.mono hi) hlo]
    · omega
    · simp [hi, hj]
  past n := by
    have hpast := hf.past n
    simp only [List.length_append, List.length_singleton]
    split <;> omega
  shown n u v hu hv := by
    by_cases hn : n ≤ as.length
    · rw [List.take_append_of_le_length hn] at hu
      simpa [hn] using (hf.shown n u v hu hv).concat (hf.past n).2
    · rw [List.take_of_length_le (by simp; omega)] at hu
      obtain rfl : t' = u := Option.some.inj (hnow.symm.trans hu)
      simpa [hn] using hk v hv

/-- The display was left as it was. -/
theorem Display.Sampled.keep (hf : D.Sampled step s as f) (hrun : run step s as = some t)
    (hnow : run step s (as ++ [a]) = some t') (hsame : D.shown t' = D.shown t) :
    D.Sampled step s (as ++ [a]) (fun n => if n ≤ as.length then f n else f as.length) := by
  refine hf.extend hnow (Nat.le_refl _) (Nat.le_succ_of_le (hf.past _).2) fun v hv => ?_
  exact (hf.shown as.length t v (by simpa using hrun) (hsame ▸ hv)).concat (hf.past _).2

end

/-- The run is sampled, and what is on its way was sent after what is shown. -/
theorem Display.sampled_stamped (hmoves : ∀ s a s', step s a = some s' → D.Moves s s')
    (hchannel : D.channel s = []) (hshown : D.shown s = none) (hrun : run step s as = some t) :
    ∃ f, D.Sampled step s as f ∧
      Stamped (fun m k => ∀ v, D.carries m = some v → D.Was step s as k v) as.length
        (f as.length) (D.channel t) := by
  refine run_induction (I := fun as t => ∃ f, D.Sampled step s as f ∧
    Stamped (fun m k => ∀ v, D.carries m = some v → D.Was step s as k v) as.length
      (f as.length) (D.channel t)) ?_ ?_ hrun
  · refine ⟨fun _ => 0, ⟨monotone_const, by simp, fun n u v hu hv => ?_⟩,
      by simp [hchannel, Stamped]⟩
    obtain rfl : s = u := by simpa using hu
    rw [hshown] at hv
    cases hv
  · rintro as t a t' hrun ⟨f, hf, hstamped⟩ ha
    -- the moment after the step
    have hnow : run step s (as ++ [a]) = some t' := run_concat_eq_some.mpr ⟨t, hrun, ha⟩
    have hwas : ∀ m k, k ≤ as.length → (∀ v, D.carries m = some v → D.Was step s as k v) →
        ∀ v, D.carries m = some v → D.Was step s (as ++ [a]) k v :=
      fun m k hk h v hv => (h v hv).concat hk
    have hlast : ¬ (as ++ [a]).length ≤ as.length := by simp
    cases hmoves t a t' ha with
    | send new hch hnew hsame =>
      refine ⟨_, hf.keep hrun hnow hsame, ?_⟩
      simp only [hlast, if_false]
      refine (hstamped.append (by simp) hwas fun m hm v hv => ?_).sublist hch
      exact ⟨t', by rwa [List.take_of_length_le (Nat.le_refl _)], hnew m hm v hv⟩
    | @take m rest hch hrest hshow =>
      rw [hch] at hstamped
      obtain ⟨k, hk, hm, hstamped⟩ := hstamped
      have hle := hstamped.le
      have hkeep : ∀ lo, Stamped (fun m k => ∀ v, D.carries m = some v → D.Was step s as k v)
          as.length lo rest → Stamped (fun m k => ∀ v, D.carries m = some v →
            D.Was step s (as ++ [a]) k v) (as ++ [a]).length lo (D.channel t') := by
        intro lo h
        rw [hrest]
        simpa using h.append (by simp) hwas (List.forall_mem_nil _)
      rcases hshow with hsame | ⟨v, hv, hsome⟩
      · refine ⟨_, hf.keep hrun hnow hsame, ?_⟩
        simp only [hlast, if_false]
        exact hkeep _ (hstamped.from hk)
      · refine ⟨_, hf.extend hnow hk (by omega) fun w hw => ?_, ?_⟩
        · obtain rfl : v = w := Option.some.inj (hsome.symm.trans hw)
          exact (hm v hv).concat hle
        · simp only [hlast, if_false]
          exact hkeep _ hstamped

/-- What is shown along a run are samples of the value's history that never go back. -/
theorem Display.exists_sampled (hmoves : ∀ s a s', step s a = some s' → D.Moves s s')
    (hchannel : D.channel s = []) (hshown : D.shown s = none) (hrun : run step s as = some t) :
    ∃ f, D.Sampled step s as f := by
  obtain ⟨f, hf, -⟩ := D.sampled_stamped hmoves hchannel hshown hrun
  exact ⟨f, hf⟩

end Transition
