-- SUMMARY: Character references of HTML: how texts with references are read, which texts stand for themselves, and how a text is escaped.
import SmartDoor.Base.Script
import Mathlib.Data.List.Infix

/-!
# Character references

In the source of a page a reference such as the one for an ampersand stands for
another text. A reference is numeric, or it has a name; the table of the names is a
parameter, of which only what every version of it keeps is used. In the value of an
attribute a name without a semicolon is not a reference if a letter, a digit or an
equals sign follows.
-/

namespace Html

open Script (Text)

/-! ## The table of names -/

/-- The names, with the semicolon that ends most of them, and what they stand for. -/
structure Entities where
  named : Text → Option Text
  length_le : ∀ name t, named name = some t → t.length ≤ name.length
  semicolon_last : ∀ name rest t, named (name ++ ';' :: rest) = some t → rest = []
  named_amp : named "amp;".toList = some ['&']
  named_nbsp : named "nbsp;".toList = some ['\u00a0']
  named_lt : named "lt;".toList = some ['<']
  named_gt : named "gt;".toList = some ['>']
  named_quot : named "quot;".toList = some ['"']

/-- The longest name that the text `name ++ s` starts with, if it is `name` or longer. -/
def Entities.longestFrom (E : Entities) : Text → Text → Option (Text × Text)
  | name, [] => (E.named name).map (name, ·)
  | name, c :: s =>
    (E.longestFrom (name ++ [c]) s).or ((E.named name).map (name, ·))

/-- The longest name that a text starts with, and what it stands for. -/
def Entities.longest (E : Entities) (s : Text) : Option (Text × Text) := E.longestFrom [] s

/-! ## Numeric references -/

def isHexDigit (c : Char) : Bool :=
  c.isDigit || 'a' ≤ c && c ≤ 'f' || 'A' ≤ c && c ≤ 'F'

def digitValue (c : Char) : Nat :=
  if c.isDigit then c.toNat - '0'.toNat else c.toLower.toNat - 'a'.toNat + 10

/-- What the numbers of control characters stand for. -/
def windows1252 : List (Nat × Nat) :=
  [(0x80, 0x20AC), (0x82, 0x201A), (0x83, 0x0192), (0x84, 0x201E), (0x85, 0x2026),
    (0x86, 0x2020), (0x87, 0x2021), (0x88, 0x02C6), (0x89, 0x2030), (0x8A, 0x0160),
    (0x8B, 0x2039), (0x8C, 0x0152), (0x8E, 0x017D), (0x91, 0x2018), (0x92, 0x2019),
    (0x93, 0x201C), (0x94, 0x201D), (0x95, 0x2022), (0x96, 0x2013), (0x97, 0x2014),
    (0x98, 0x02DC), (0x99, 0x2122), (0x9A, 0x0161), (0x9B, 0x203A), (0x9C, 0x0153),
    (0x9E, 0x017E), (0x9F, 0x0178)]

def codePoint (n : Nat) : Char :=
  if n = 0 ∨ 0x10FFFF < n ∨ (0xD800 ≤ n ∧ n ≤ 0xDFFF) then '\ufffd'
  else Char.ofNat ((windows1252.lookup n).getD n)

/-- The character that the text after `&#` starts with, and what follows it. -/
def numericReference (s : Text) : Option (Char × Text) :=
  let hex := s.head? = some 'x' ∨ s.head? = some 'X'
  let isDigit := if hex then isHexDigit else Char.isDigit
  let body := if hex then s.tail else s
  let digits := body.takeWhile isDigit
  let rest := body.dropWhile isDigit
  if digits = [] then none
  else
    let n := digits.foldl (fun n c => n * (if hex then 16 else 10) + digitValue c) 0
    some (codePoint n, if rest.head? = some ';' then rest.tail else rest)

/-! ## Reading -/

/-- What the text after `&` stands for, if it starts with a reference, and what follows. -/
def reference (E : Entities) (attr : Bool) : Text → Option (Text × Text)
  | '#' :: s => (numericReference s).map fun r => ([r.1], r.2)
  | s => (E.longest s).bind fun m =>
      let rest := s.drop m.1.length
      if attr ∧ m.1.getLast? ≠ some ';' ∧ rest.head?.any fun c => c = '=' ∨ c.isAlphanum then none
      else some (m.2, rest)

/-- The reading of a text whose first characters, as many as the number says, are read. -/
def decodeFrom (E : Entities) (attr : Bool) : Nat → Text → Text
  | _, [] => []
  | k + 1, _ :: s => decodeFrom E attr k s
  | 0, c :: s =>
    match if c = '&' then reference E attr s else none with
    | some (t, rest) => t ++ decodeFrom E attr (s.length - rest.length) s
    | none => c :: decodeFrom E attr 0 s

def decode (E : Entities) (attr : Bool) (s : Text) : Text := decodeFrom E attr 0 s

/-- No `&` starts a reference. -/
def Literal (E : Entities) (attr : Bool) (s : Text) : Prop :=
  ∀ pre post, s = pre ++ '&' :: post → reference E attr post = none

section Reading

variable {E : Entities} {attr : Bool} {c : Char} {s t name rest : Text} {k : Nat}

theorem Entities.longestFrom_eq_some (h : E.longestFrom name s = some (rest, t)) :
    E.named rest = some t ∧ rest <+: name ++ s := by
  induction s generalizing name with
  | nil =>
    obtain ⟨u, hu, heq⟩ := Option.map_eq_some_iff.mp h
    obtain ⟨rfl, rfl⟩ := Prod.mk.inj heq
    exact ⟨hu, by simp⟩
  | cons c s ih =>
    obtain hlonger | ⟨-, hhere⟩ := Option.or_eq_some_iff.mp h
    · simpa using ih hlonger
    · obtain ⟨u, hu, heq⟩ := Option.map_eq_some_iff.mp hhere
      obtain ⟨rfl, rfl⟩ := Prod.mk.inj heq
      exact ⟨hu, List.prefix_append _ _⟩

/-- A name does not go on after a semicolon. -/
theorem Entities.longestFrom_of_semicolon (h : E.named name = some t)
    (hlast : ∃ stem, name = stem ++ [';']) : E.longestFrom name s = some (name, t) := by
  obtain ⟨stem, rfl⟩ := hlast
  have hnone : ∀ s c (rest : Text),
      E.longestFrom (stem ++ ';' :: c :: rest) s = none := by
    intro s
    induction s with
    | nil =>
      intro c rest
      cases hnamed : E.named (stem ++ ';' :: c :: rest) with
      | none => simp [longestFrom, hnamed]
      | some u => cases E.semicolon_last _ _ _ hnamed
    | cons d s ih =>
      intro c rest
      have hlonger := ih c (rest ++ [d])
      cases hnamed : E.named (stem ++ ';' :: c :: rest) with
      | none => simpa [longestFrom, hnamed] using hlonger
      | some u => cases E.semicolon_last _ _ _ hnamed
  cases s with
  | nil => simp [longestFrom, h]
  | cons c s =>
    rw [longestFrom, h, List.append_assoc]
    simp [hnone s c []]

/-- A longer name is preferred. -/
theorem Entities.longestFrom_append {m : Text × Text} (h : E.longestFrom (name ++ s) rest = some m) :
    E.longestFrom name (s ++ rest) = some m := by
  induction s generalizing name with
  | nil => simpa using h
  | cons c s ih =>
    have hlonger : E.longestFrom (name ++ [c]) (s ++ rest) = some m := ih (by simpa using h)
    rw [List.cons_append, longestFrom, hlonger, Option.some_or]

theorem numericReference_eq_some (h : numericReference s = some (c, rest)) :
    rest <:+ s ∧ rest.length < s.length := by
  unfold numericReference at h
  extract_lets hex isDigit body digits after at h
  obtain ⟨hdigits, h⟩ := Option.ite_none_left_eq_some.mp h
  obtain ⟨-, hrest⟩ := Prod.mk.inj (Option.some.inj h)
  have hbody : body <:+ s := by
    simp only [body]
    split
    · exact List.tail_suffix s
    · exact List.suffix_rfl
  have hafter : rest <:+ after := by
    rw [← hrest]
    split
    · exact List.tail_suffix after
    · exact List.suffix_rfl
  have hlength : digits.length + after.length = body.length := by
    rw [← List.length_append, List.takeWhile_append_dropWhile]
  refine ⟨(hafter.trans (List.dropWhile_suffix _)).trans hbody, ?_⟩
  have := List.length_pos_iff.mpr hdigits
  have := hafter.length_le
  have := hbody.length_le
  omega

/-- A reference is no shorter than what it stands for. -/
theorem reference_eq_some (h : reference E attr s = some (t, rest)) :
    rest <:+ s ∧ t.length + rest.length ≤ s.length := by
  unfold reference at h
  split at h
  · next s =>
    obtain ⟨⟨c, rest'⟩, hnumeric, heq⟩ := Option.map_eq_some_iff.mp h
    obtain ⟨rfl, rfl⟩ := Prod.mk.inj heq
    obtain ⟨hsuffix, hlength⟩ := numericReference_eq_some hnumeric
    refine ⟨hsuffix.trans (List.suffix_cons _ _), ?_⟩
    simp only [List.length_cons, List.length_nil]
    omega
  · obtain ⟨⟨name, u⟩, hlongest, h⟩ := Option.bind_eq_some_iff.mp h
    obtain ⟨-, h⟩ := Option.ite_none_left_eq_some.mp h
    obtain ⟨rfl, rfl⟩ := Prod.mk.inj (Option.some.inj h)
    obtain ⟨hnamed, hprefix⟩ := Entities.longestFrom_eq_some hlongest
    have hname := hprefix.length_le
    have := E.length_le _ _ hnamed
    refine ⟨List.drop_suffix _ _, ?_⟩
    simp only [List.nil_append, List.length_drop] at hname ⊢
    omega

theorem decodeFrom_eq_drop : decodeFrom E attr k s = decode E attr (s.drop k) := by
  induction s generalizing k with
  | nil => cases k <;> rfl
  | cons c s ih =>
    cases k with
    | zero => rfl
    | succ k => exact ih

@[simp] theorem decode_nil : decode E attr [] = [] := rfl

theorem decode_cons_of_ne (h : c ≠ '&') : decode E attr (c :: s) = c :: decode E attr s := by
  simp [decode, decodeFrom, h]

theorem decode_amp_of_none (h : reference E attr s = none) :
    decode E attr ('&' :: s) = '&' :: decode E attr s := by
  simp [decode, decodeFrom, h]

theorem decode_reference (h : reference E attr s = some (t, rest)) :
    decode E attr ('&' :: s) = t ++ decode E attr rest := by
  obtain ⟨hsuffix, -⟩ := reference_eq_some h
  have hdrop : s.drop (s.length - rest.length) = rest := (List.suffix_iff_eq_drop.mp hsuffix).symm
  have hread : decode E attr ('&' :: s) = t ++ decodeFrom E attr (s.length - rest.length) s := by
    simp [decode, decodeFrom, h]
  rw [hread, decodeFrom_eq_drop, hdrop]

/-- The three ways a text can start. -/
theorem decode_cases : (c = '&' ∧ ∃ t rest, reference E attr s = some (t, rest) ∧
      decode E attr (c :: s) = t ++ decode E attr rest) ∨
    ((c = '&' → reference E attr s = none) ∧
      decode E attr (c :: s) = c :: decode E attr s) := by
  by_cases hc : c = '&'
  · subst hc
    cases href : reference E attr s with
    | none => exact .inr ⟨fun _ => rfl, decode_amp_of_none href⟩
    | some r =>
      obtain ⟨t, rest⟩ := r
      exact .inl ⟨rfl, t, rest, rfl, decode_reference href⟩
  · exact .inr ⟨fun heq => absurd heq hc, decode_cons_of_ne hc⟩

theorem decode_length_le : (decode E attr s).length ≤ s.length := by
  induction hn : s.length using Nat.strong_induction_on generalizing s with
  | h n ih =>
    subst hn
    cases s with
    | nil => simp
    | cons c s =>
      obtain ⟨-, t, rest, href, heq⟩ | ⟨-, heq⟩ := @decode_cases E attr c s
      · have hlength := (reference_eq_some href).2
        have := ih rest.length (by simp only [List.length_cons]; omega) rfl
        rw [heq, List.length_append, List.length_cons]
        omega
      · have := ih s.length (by simp) rfl
        rw [heq, List.length_cons, List.length_cons]
        omega

/-- A reference makes a text shorter. -/
theorem decode_reference_length (h : reference E attr s = some (t, rest)) :
    (decode E attr ('&' :: s)).length < s.length + 1 := by
  have hlength := (reference_eq_some h).2
  have := @decode_length_le E attr rest
  rw [decode_reference h, List.length_append]
  omega

theorem literal_cons_iff : Literal E attr (c :: s) ↔
    (c = '&' → reference E attr s = none) ∧ Literal E attr s := by
  constructor
  · intro h
    exact ⟨fun hc => h [] s (by rw [hc]; rfl), fun pre post heq => h (c :: pre) post (by rw [heq]; rfl)⟩
  · rintro ⟨hc, hs⟩ pre post heq
    cases pre with
    | nil =>
      obtain ⟨rfl, rfl⟩ := List.cons.inj heq
      exact hc rfl
    | cons d pre =>
      obtain ⟨rfl, rfl⟩ := List.cons.inj heq
      exact hs pre post rfl

theorem literal_of_not_mem (h : '&' ∉ s) : Literal E attr s := by
  rintro pre post rfl
  simp at h

/-- A text without references stands for itself. -/
theorem Literal.decode_eq (h : Literal E attr s) : decode E attr s = s := by
  induction s with
  | nil => rfl
  | cons c s ih =>
    obtain ⟨hc, hs⟩ := literal_cons_iff.mp h
    obtain ⟨rfl, t, rest, href, -⟩ | ⟨-, heq⟩ := @decode_cases E attr c s
    · rw [hc rfl] at href
      cases href
    · rw [heq, ih hs]

/-- A text with a reference becomes shorter. -/
theorem decode_length_lt (h : ¬ Literal E attr s) : (decode E attr s).length < s.length := by
  induction s with
  | nil => exact absurd (fun pre post heq => by simp at heq) h
  | cons c s ih =>
    obtain ⟨rfl, t, rest, href, -⟩ | ⟨hnone, heq⟩ := @decode_cases E attr c s
    · exact decode_reference_length href
    · have hs : ¬ Literal E attr s := fun hs => h (literal_cons_iff.mpr ⟨hnone, hs⟩)
      rw [heq]
      exact Nat.succ_lt_succ (ih hs)

end Reading

/-! ## Line ends -/

/-- The line ends of the source become line feeds; the flag says that a carriage return
was read last. -/
def normalizeFrom : Bool → Text → Text
  | _, [] => []
  | afterReturn, c :: s =>
    if c = '\r' then '\n' :: normalizeFrom true s
    else if c = '\n' ∧ afterReturn then normalizeFrom false s
    else c :: normalizeFrom false s

def normalize (s : Text) : Text := normalizeFrom false s

section Lines

variable {s t : Text} {b : Bool}

theorem not_mem_normalizeFrom : '\r' ∉ normalizeFrom b s := by
  induction s generalizing b with
  | nil => simp [normalizeFrom]
  | cons c s ih =>
    rw [normalizeFrom]
    split
    · simpa using ih
    · next hc =>
      split
      · exact ih
      · exact List.not_mem_cons_of_ne_of_not_mem (Ne.symm hc) ih

theorem normalizeFrom_length_le : (normalizeFrom b s).length ≤ s.length := by
  induction s generalizing b with
  | nil => simp [normalizeFrom]
  | cons c s ih =>
    rw [normalizeFrom]
    split
    · simpa using ih
    · split
      · exact Nat.le_succ_of_le ih
      · simpa using ih

theorem normalize_length_le : (normalize s).length ≤ s.length := normalizeFrom_length_le

theorem normalizeFrom_eq_normalize (h : t.head? ≠ some '\n') :
    normalizeFrom b t = normalize t := by
  cases t with
  | nil => rfl
  | cons c t =>
    have hc : c ≠ '\n' := by simpa using h
    simp [normalize, normalizeFrom, hc]

/-- A carriage return and a line feed that are apart stay apart. -/
theorem normalize_append (h : t.head? ≠ some '\n') :
    normalize (s ++ t) = normalize s ++ normalize t := by
  suffices hfrom : ∀ b, normalizeFrom b (s ++ t) = normalizeFrom b s ++ normalize t from hfrom false
  induction s with
  | nil => exact fun b => normalizeFrom_eq_normalize h
  | cons c s ih =>
    intro b
    simp only [List.cons_append, normalizeFrom]
    split
    · rw [ih, List.cons_append]
    · split
      · exact ih false
      · rw [ih, List.cons_append]

theorem normalize_cons_of_ne {c : Char} (h : c ≠ '\r') :
    normalize (c :: s) = c :: normalize s := by
  simp [normalize, normalizeFrom, h]

/-- Only carriage returns are changed. -/
theorem normalize_append_left (h : '\r' ∉ s) : normalize (s ++ t) = s ++ normalize t := by
  induction s with
  | nil => rfl
  | cons c s ih =>
    rw [List.mem_cons, not_or] at h
    rw [List.cons_append, normalize_cons_of_ne (Ne.symm h.1), ih h.2, List.cons_append]

theorem normalize_eq_self (h : '\r' ∉ s) : normalize s = s := by
  simpa [normalize, normalizeFrom] using @normalize_append_left s [] h

theorem mem_of_mem_normalizeFrom {c : Char} (hc : c ≠ '\n') (h : c ∈ normalizeFrom b s) :
    c ∈ s := by
  induction s generalizing b with
  | nil => exact h
  | cons d s ih =>
    rw [normalizeFrom] at h
    rw [List.mem_cons]
    split at h
    · obtain h | h := List.mem_cons.mp h
      · exact absurd h hc
      · exact .inr (ih h)
    · split at h
      · exact .inr (ih h)
      · exact (List.mem_cons.mp h).imp id ih

theorem mem_of_mem_normalize {c : Char} (hc : c ≠ '\n') (h : c ∈ normalize s) : c ∈ s :=
  mem_of_mem_normalizeFrom hc h

theorem normalizeFrom_append :
    ∃ b', normalizeFrom b (s ++ t) = normalizeFrom b s ++ normalizeFrom b' t := by
  induction s generalizing b with
  | nil => exact ⟨b, rfl⟩
  | cons c s ih =>
    simp only [List.cons_append, normalizeFrom]
    split
    · obtain ⟨b', hb⟩ := @ih true
      exact ⟨b', by rw [hb, List.cons_append]⟩
    · split
      · exact ih
      · obtain ⟨b', hb⟩ := @ih false
        exact ⟨b', by rw [hb, List.cons_append]⟩

end Lines

/-! ## The two places a text is written to -/

/-- The value of an attribute from its source. -/
def attrValue (E : Entities) (raw : Text) : Text :=
  (decode E true raw).map fun c => if c = '\x00' then '\ufffd' else c

/-- The text from its source. -/
def textData (E : Entities) (raw : Text) : Text := (decode E false raw).filter (· ≠ '\x00')

/-- The characters that the reading changes wherever they stand. -/
def Clean (s : Text) : Prop := '\x00' ∉ s ∧ '\r' ∉ s

section Places

variable {E : Entities} {attr : Bool} {s : Text}

@[simp] theorem attrValue_nil : attrValue E [] = [] := rfl

@[simp] theorem textData_nil : textData E [] = [] := rfl

theorem attrValue_length_le : (attrValue E s).length ≤ s.length := by
  simpa [attrValue] using decode_length_le

theorem textData_length_le : (textData E s).length ≤ s.length :=
  (List.length_filter_le _ _).trans decode_length_le

theorem map_null_eq_self (h : '\x00' ∉ s) :
    (s.map fun c => if c = '\x00' then '\ufffd' else c) = s := by
  refine (List.map_congr_left fun c hc => ?_).trans (List.map_id s)
  have hne : c ≠ '\x00' := fun heq => h (heq ▸ hc)
  simp [hne]

theorem filter_null_eq_self (h : '\x00' ∉ s) : s.filter (· ≠ '\x00') = s := by
  refine List.filter_eq_self.mpr fun c hc => ?_
  have hne : c ≠ '\x00' := fun heq => h (heq ▸ hc)
  simpa using hne

/-- A reading that is as long as its source. -/
theorem literal_of_length (h : s.length ≤ (decode E attr s).length) : Literal E attr s := by
  by_contra hnot
  have := @decode_length_lt E attr s hnot
  omega

theorem attrValue_eq_self (h : Literal E true s) (hnul : '\x00' ∉ s) : attrValue E s = s := by
  rw [attrValue, h.decode_eq, map_null_eq_self hnul]

/-- A value without references and null characters. -/
theorem attrValue_eq_self_of_not_mem (hamp : '&' ∉ s) (hnul : '\x00' ∉ s) : attrValue E s = s :=
  attrValue_eq_self (literal_of_not_mem hamp) hnul

theorem textData_eq_self (h : Literal E false s) (hnul : '\x00' ∉ s) : textData E s = s := by
  rw [textData, h.decode_eq, filter_null_eq_self hnul]

/-- A value is what was written as it if and only if the reading changes nothing in it. -/
theorem attrValue_normalize_eq_self_iff :
    attrValue E (normalize s) = s ↔ Literal E true s ∧ Clean s := by
  constructor
  · intro h
    have hlength : s.length = (decode E true (normalize s)).length := by
      simpa [attrValue] using (congrArg List.length h).symm
    have hliteral : Literal E true (normalize s) :=
      literal_of_length (hlength ▸ normalizeFrom_length_le)
    rw [attrValue, hliteral.decode_eq] at h
    have hclean : Clean s := by
      rw [← h]
      refine ⟨fun hnul => ?_, fun hreturn => ?_⟩
      · obtain ⟨c, -, hc⟩ := List.mem_map.mp hnul
        split at hc
        · cases hc
        · next hne => exact hne hc
      · obtain ⟨c, hmem, hc⟩ := List.mem_map.mp hreturn
        split at hc
        · cases hc
        · exact not_mem_normalizeFrom (hc ▸ hmem)
    exact ⟨normalize_eq_self hclean.2 ▸ hliteral, hclean⟩
  · rintro ⟨hliteral, hnul, hreturn⟩
    rw [normalize_eq_self hreturn, attrValue_eq_self hliteral hnul]

theorem textData_normalize_eq_self_iff :
    textData E (normalize s) = s ↔ Literal E false s ∧ Clean s := by
  constructor
  · intro h
    have hlength : s.length ≤ (decode E false (normalize s)).length := by
      rw [← congrArg List.length h]
      exact List.length_filter_le _ _
    have hliteral : Literal E false (normalize s) :=
      literal_of_length (normalizeFrom_length_le.trans hlength)
    rw [textData, hliteral.decode_eq] at h
    have hclean : Clean s := by
      rw [← h]
      refine ⟨by simp, fun hreturn => ?_⟩
      exact not_mem_normalizeFrom (List.mem_filter.mp hreturn).1
    exact ⟨normalize_eq_self hclean.2 ▸ hliteral, hclean⟩
  · rintro ⟨hliteral, hnul, hreturn⟩
    rw [normalize_eq_self hreturn, textData_eq_self hliteral hnul]

end Places

/-! ## The value of a text field -/

/-- A text field holds one line. -/
def fieldValue (value : Text) : Text := value.filter fun c => c ≠ '\n' ∧ c ≠ '\r'

section Fields

variable {E : Entities} {s : Text}

theorem fieldValue_length_le : (fieldValue s).length ≤ s.length := List.length_filter_le _ _

theorem fieldValue_eq_self (hfeed : '\n' ∉ s) (hreturn : '\r' ∉ s) : fieldValue s = s := by
  refine List.filter_eq_self.mpr fun c hc => ?_
  have hn : c ≠ '\n' := fun heq => hfeed (heq ▸ hc)
  have hr : c ≠ '\r' := fun heq => hreturn (heq ▸ hc)
  simpa using ⟨hn, hr⟩

theorem fieldValue_normalize_eq_self_iff : fieldValue (attrValue E (normalize s)) = s ↔
    Literal E true s ∧ Clean s ∧ '\n' ∉ s := by
  constructor
  · intro h
    have hlength : (attrValue E (normalize s)).length ≤ s.length :=
      attrValue_length_le.trans normalizeFrom_length_le
    have hkept : fieldValue (attrValue E (normalize s)) = attrValue E (normalize s) :=
      List.filter_sublist.eq_of_length_le (by rw [← fieldValue, h]; exact hlength)
    rw [hkept] at h
    obtain ⟨hliteral, hclean⟩ := attrValue_normalize_eq_self_iff.mp h
    refine ⟨hliteral, hclean, fun hfeed => ?_⟩
    rw [h] at hkept
    simpa using List.filter_eq_self.mp hkept _ hfeed
  · rintro ⟨hliteral, hclean, hfeed⟩
    rw [attrValue_normalize_eq_self_iff.mpr ⟨hliteral, hclean⟩]
    exact fieldValue_eq_self hfeed hclean.2

end Fields

/-! ## Writing -/

/-- What a character is written as. Quotation marks are only kept apart from the ends of
attributes. -/
def escapeChar (attr : Bool) (c : Char) : Text :=
  if c = '&' then "&amp;".toList
  else if c = '\u00a0' then "&nbsp;".toList
  else if c = '<' then "&lt;".toList
  else if c = '>' then "&gt;".toList
  else if c = '"' ∧ attr then "&quot;".toList
  else [c]

def escape (attr : Bool) (s : Text) : Text := s.flatMap (escapeChar attr)

section Escape

variable {E : Entities} {attr : Bool} {c : Char} {s t name rest : Text}

/-- A reference by a name that ends with a semicolon. -/
theorem reference_of_semicolon (stem : Text) (h : E.named (stem ++ [';']) = some t)
    (hhead : stem.head?.any (· ≠ '#')) : reference E attr (stem ++ ';' :: rest) = some (t, rest) := by
  have hlongest : E.longest (stem ++ ';' :: rest) = some (stem ++ [';'], t) := by
    have hname : E.longestFrom (stem ++ [';']) rest = some (stem ++ [';'], t) :=
      E.longestFrom_of_semicolon h ⟨stem, rfl⟩
    have hsplit : stem ++ ';' :: rest = (stem ++ [';']) ++ rest := by simp
    rw [Entities.longest, hsplit]
    exact Entities.longestFrom_append hname
  unfold reference
  split
  · next s heq =>
    cases stem with
    | nil => simp at hhead
    | cons c stem =>
      obtain ⟨rfl, -⟩ := List.cons.inj heq
      simp at hhead
  · simp [hlongest]

/-- A character that is written is read back. -/
theorem decode_escapeChar : decode E attr (escapeChar attr c ++ rest) = c :: decode E attr rest := by
  unfold escapeChar
  split
  case isTrue hc =>
    subst hc
    exact decode_reference (reference_of_semicolon "amp".toList E.named_amp rfl)
  case isFalse hamp =>
    split
    case isTrue hc =>
      subst hc
      exact decode_reference (reference_of_semicolon "nbsp".toList E.named_nbsp rfl)
    case isFalse =>
      split
      case isTrue hc =>
        subst hc
        exact decode_reference (reference_of_semicolon "lt".toList E.named_lt rfl)
      case isFalse =>
        split
        case isTrue hc =>
          subst hc
          exact decode_reference (reference_of_semicolon "gt".toList E.named_gt rfl)
        case isFalse =>
          split
          case isTrue hc =>
            obtain ⟨rfl, -⟩ := hc
            exact decode_reference (reference_of_semicolon "quot".toList E.named_quot rfl)
          case isFalse => exact decode_cons_of_ne hamp

/-- A text that is written is read back. -/
theorem decode_escape : decode E attr (escape attr s) = s := by
  induction s with
  | nil => rfl
  | cons c s ih =>
    rw [escape, List.flatMap_cons, decode_escapeChar, ← escape, ih]

/-- Each character is written as one with other characters than itself, or as itself. -/
theorem escapeChar_cases : (escapeChar attr c = [c] ∧ c ≠ '<' ∧ (c = '"' → attr = false)) ∨
    escapeChar attr c ⊆ "&;abglmnopqstu".toList := by
  unfold escapeChar
  split_ifs with hamp hnbsp hlt hgt hquot
  · exact .inr (by decide)
  · exact .inr (by decide)
  · exact .inr (by decide)
  · exact .inr (by decide)
  · exact .inr (by decide)
  · refine .inl ⟨rfl, hlt, fun hc => ?_⟩
    simpa [hc] using hquot

theorem escape_eq_self
    (h : ∀ c ∈ s, c ≠ '&' ∧ c ≠ '\u00a0' ∧ c ≠ '<' ∧ c ≠ '>' ∧ c ≠ '"') : escape attr s = s := by
  have hone : ∀ c ∈ s, escapeChar attr c = [c] := fun c hc => by
    obtain ⟨hamp, hnbsp, hlt, hgt, hquot⟩ := h c hc
    simp [escapeChar, hamp, hnbsp, hlt, hgt, hquot]
  rw [escape, List.flatMap_congr hone, List.flatMap_singleton']

theorem lt_not_mem_escape : '<' ∉ escape attr s := by
  intro h
  obtain ⟨c, -, hc⟩ := List.mem_flatMap.mp h
  obtain ⟨hself, hne, -⟩ | hother := @escapeChar_cases attr c
  · rw [hself, List.mem_singleton] at hc
    exact hne hc.symm
  · exact absurd (hother hc) (by decide)

theorem quote_not_mem_escape : '"' ∉ escape true s := by
  intro h
  obtain ⟨c, -, hc⟩ := List.mem_flatMap.mp h
  obtain ⟨hself, -, hquote⟩ | hother := @escapeChar_cases true c
  · rw [hself, List.mem_singleton] at hc
    cases hquote hc.symm
  · exact absurd (hother hc) (by decide)

theorem return_not_mem_escape (h : '\r' ∉ s) : '\r' ∉ escape attr s := by
  intro hmem
  obtain ⟨c, hcs, hc⟩ := List.mem_flatMap.mp hmem
  obtain ⟨hself, -, -⟩ | hother := @escapeChar_cases attr c
  · rw [hself, List.mem_singleton] at hc
    exact h (hc ▸ hcs)
  · exact absurd (hother hc) (by decide)

theorem attrValue_escape (h : '\x00' ∉ s) : attrValue E (escape true s) = s := by
  rw [attrValue, decode_escape, map_null_eq_self h]

theorem textData_escape (h : '\x00' ∉ s) : textData E (escape false s) = s := by
  rw [textData, decode_escape, filter_null_eq_self h]

end Escape

/-! ## A table -/

namespace Entities

/-- The names of the characters that are escaped, with and without a semicolon. -/
def basicTable : List (Text × Text) :=
  [("amp;".toList, ['&']), ("amp".toList, ['&']),
    ("nbsp;".toList, ['\u00a0']), ("nbsp".toList, ['\u00a0']),
    ("lt;".toList, ['<']), ("lt".toList, ['<']), ("gt;".toList, ['>']), ("gt".toList, ['>']),
    ("quot;".toList, ['"']), ("quot".toList, ['"'])]

/-- What a table says of a name. -/
def lookup (table : List (Text × Text)) (name : Text) : Option Text :=
  (table.find? fun entry => entry.1 = name).map (·.2)

variable {table : List (Text × Text)} {name rest t : Text}

theorem lookup_eq_some (h : lookup table name = some t) : (name, t) ∈ table := by
  obtain ⟨entry, hfind, rfl⟩ := Option.map_eq_some_iff.mp h
  have hname : entry.1 = name := by simpa using List.find?_some hfind
  exact hname ▸ List.mem_of_find?_eq_some hfind

theorem basic_length_le (h : lookup basicTable name = some t) : t.length ≤ name.length := by
  have hall : ∀ entry ∈ basicTable, entry.2.length ≤ entry.1.length := by decide
  exact hall _ (lookup_eq_some h)

theorem basic_semicolon_last (h : lookup basicTable (name ++ ';' :: rest) = some t) :
    rest = [] := by
  have hall : ∀ entry ∈ basicTable, ';' ∉ entry.1.dropLast := by decide
  by_contra hne
  refine hall _ (lookup_eq_some h) ?_
  have hdrop : (';' :: rest).dropLast = ';' :: rest.dropLast := List.dropLast_cons_of_ne_nil hne
  simp [List.dropLast_append_of_ne_nil, hdrop]

/-- The table of these names only. -/
def basic : Entities where
  named := lookup basicTable
  length_le _ _ h := basic_length_le h
  semicolon_last _ _ _ h := basic_semicolon_last h
  named_amp := rfl
  named_nbsp := rfl
  named_lt := rfl
  named_gt := rfl
  named_quot := rfl

end Entities

end Html
