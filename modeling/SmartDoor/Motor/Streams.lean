-- SUMMARY: The motor server reads each connection as a stream: what its handlers were given, put together, is what has arrived.
import Mathlib.Data.List.Count
import SmartDoor.Motor.History

/-!
# What the motor server reads

The network and the event loop cut the bytes of a connection into messages, but
they neither lose nor reorder any. So a text that was sent once on a connection
is read at most once from it.
-/

namespace SmartDoor.Motor

variable {K : Type} [DecidableEq K] {cfg : DoorConfig} {sensor : Sensor} {k : K}

/-- The messages taken from the connection. -/
def taken (k : K) (log : List (Event K)) : List String :=
  log.filterMap fun e => e.data?.bind fun d => if d.1 = k then some d.2 else none

/-- The bytes that have arrived on the connection, read or not. -/
def Server.stream (s : Server K) (k : K) : List Char :=
  (taken k s.board.log ++ s.inbox k).flatMap String.toList

theorem taken_append {l m : List (Event K)} : taken k (l ++ m) = taken k l ++ taken k m :=
  List.filterMap_append

theorem taken_of_forall {l : List (Event K)} (h : ∀ e ∈ l, e.data? = none) : taken k l = [] := by
  refine List.filterMap_eq_nil_iff.mpr fun e he => ?_
  rw [h e he]
  rfl

omit [DecidableEq K] in
theorem data?_of_mem_logged {e : Effect K} {answer : e.Answer} {x : Event K}
    (h : x ∈ e.logged answer) : x.data? = none := by
  cases e <;> simp_all [Effect.logged, Event.data?]

theorem stream_arrive {s s' : Server K} {socket : K} {text : String}
    (h : s.step cfg sensor (.arrive socket text) = some s') :
    s'.board = s.board ∧
      s'.stream k = s.stream k ++ (if k = socket then text.toList else []) := by
  obtain rfl : _ = s' := Option.some.inj h
  refine ⟨rfl, ?_⟩
  by_cases hk : k = socket
  · subst hk
    simp [Server.stream]
  · simp [Server.stream, hk]

/-- Taking a message and handling it leave the streams alone. -/
theorem stream_of_step {s s' : Server K} {a : Action K}
    (ha : ∀ socket text, a ≠ .arrive socket text) (h : s.step cfg sensor a = some s') :
    s'.stream k = s.stream k := by
  cases a with
  | arrive socket text => exact absurd rfl (ha socket text)
  | data socket n =>
    simp only [Server.step] at h
    split at h
    · obtain rfl : _ = s' := Option.some.inj h
      by_cases hk : k = socket
      · subst hk
        simp only [Server.stream, Board.record_log, taken_append, Function.update_self]
        have hcut : (s.inbox k).flatMap String.toList =
            ((s.inbox k).take n).flatMap String.toList ++
              ((s.inbox k).drop n).flatMap String.toList := by
          rw [← List.flatMap_append, List.take_append_drop]
        simp [taken, Event.data?, hcut]
      · simp [Server.stream, taken, Event.data?, Function.update_of_ne hk, Ne.symm hk]
    · cases h
  | exec i =>
    simp only [Server.step] at h
    split at h
    · cases h
    · next p hp =>
      split at h
      · next p' board' hstep =>
        obtain rfl : _ = s' := Option.some.inj h
        cases p with
        | done a => simp [Prog.step] at hstep
        | exec e f =>
          simp only [Prog.step, Option.some.injEq, Prod.mk.injEq] at hstep
          obtain ⟨-, rfl⟩ := hstep
          rw [Server.stream, Board.act_log, taken_append,
            taken_of_forall fun _ => data?_of_mem_logged, List.append_nil]
          rfl
      · obtain rfl : _ = s' := Option.some.inj h
        rfl

/-! ## A text that is sent once -/

omit [DecidableEq K] in
theorem count_mul_length_le {α : Type*} [DecidableEq α] (text : List α) (pieces : List (List α)) :
    pieces.count text * text.length ≤ pieces.flatten.length := by
  induction pieces with
  | nil => simp
  | cons piece pieces ih =>
    rw [List.flatten_cons, List.length_append, List.count_cons]
    split
    · next heq =>
      obtain rfl := eq_of_beq heq
      rw [Nat.add_mul, Nat.one_mul]
      omega
    · rw [Nat.add_zero]
      omega

/-- Two entries of the log that take the same message from a connection. -/
theorem two_le_count {log : List (Event K)} {i j : Nat} {text : String} (hij : i < j)
    (hi : log[i]? = some (.data k text)) (hj : log[j]? = some (.data k text)) :
    2 ≤ (taken k log).count text := by
  have hone : ∀ l : List (Event K), .data k text ∈ l → 1 ≤ (taken k l).count text := by
    intro l hl
    refine List.one_le_count_iff.mpr (List.mem_filterMap.mpr ⟨_, hl, ?_⟩)
    simp [Event.data?]
  have hbefore := hone (log.take j) (List.mem_of_getElem? (by rwa [List.getElem?_take_of_lt hij]))
  have hafter := hone (log.drop j) (List.mem_of_getElem? (i := 0) (by simpa using hj))
  rw [← List.take_append_drop j log, taken_append, List.count_append]
  omega

/-- A text that makes up all that was sent on a connection is taken once at most. -/
theorem eq_of_taken {s : Server K} {i j : Nat} {text : String} (htext : text ≠ "")
    (hsent : s.stream k <+: text.toList) (hi : s.board.log[i]? = some (.data k text))
    (hj : s.board.log[j]? = some (.data k text)) : i = j := by
  have hcount : (taken k s.board.log).count text ≤ 1 := by
    have hmul := count_mul_length_le text.toList ((taken k s.board.log).map String.toList)
    have hinj : ((taken k s.board.log).map String.toList).count text.toList =
        (taken k s.board.log).count text :=
      List.count_map_of_injective _ _ (fun _ _ => String.toList_inj.mp) _
    have hlen := hsent.length_le
    rw [Server.stream, List.flatMap_append, List.length_append] at hlen
    rw [hinj, ← List.flatMap_def] at hmul
    have hpos : 0 < text.toList.length := by
      rw [List.length_pos_iff]
      exact fun h => htext (String.toList_eq_nil_iff.mp h)
    by_contra hlt
    have htwo : 2 * text.toList.length ≤ (taken k s.board.log).count text * text.toList.length :=
      Nat.mul_le_mul_right _ (by omega)
    omega
  rcases Nat.lt_trichotomy i j with hij | rfl | hij
  · exact absurd (two_le_count hij hi hj) (by omega)
  · rfl
  · exact absurd (two_le_count hij hj hi) (by omega)

/-- What a message holds has arrived on its connection. -/
theorem mem_stream_of_taken {s : Server K} {i : Nat} {text : String} {c : Char}
    (hi : s.board.log[i]? = some (.data k text)) (hc : c ∈ text.toList) : c ∈ s.stream k := by
  refine List.mem_flatMap.mpr ⟨text, List.mem_append_left _ ?_, hc⟩
  refine List.mem_filterMap.mpr ⟨_, List.mem_of_getElem? hi, ?_⟩
  simp [Event.data?]

end SmartDoor.Motor
