-- SUMMARY: The browser's cookie jar, and the page's two functions that write and read it.
import Mathlib.Data.List.DropRight
import Mathlib.Data.List.Find
import Mathlib.Data.List.Nodup
import SmartDoor.Base.Script

/-!
# Cookies

An assignment to `document.cookie` stores one pair: the text before the first
`;`, cut at the first `=`, both parts trimmed. Reading lists all pairs. `setCookie`
and `getCookie` of `WebInterface/src/App.js` put a pair together and look for one,
without any encoding, so what comes back is the value up to its first `;`, without
the blanks around it.
-/

namespace SmartDoor.Web

open Script

/-! ## Trimmed texts -/

def isBlank (c : Char) : Bool := c = ' ' ∨ c = '\t'

def trim (s : Text) : Text := (s.dropWhile isBlank).rdropWhile isBlank

theorem trim_sublist {s : Text} : (trim s).Sublist s :=
  (List.rdropWhile_prefix _ _).sublist.trans (List.dropWhile_sublist _)

theorem dropWhile_of_trim_eq {s : Text} (h : trim s = s) : s.dropWhile isBlank = s := by
  refine (List.dropWhile_sublist _).eq_of_length_le ?_
  have hle := (List.rdropWhile_prefix isBlank (s.dropWhile isBlank)).length_le
  rw [← trim, h] at hle
  exact hle

theorem trim_trim {s : Text} : trim (trim s) = trim s := by
  have hdrop : (trim s).dropWhile isBlank = trim s := by
    obtain ⟨rest, hrest⟩ := List.rdropWhile_prefix isBlank (s.dropWhile isBlank)
    rw [← trim] at hrest
    cases h : trim s with
    | nil => rfl
    | cons c cs =>
      -- the first character of `trim s` is that of `s.dropWhile isBlank`
      have hidem := List.dropWhile_idempotent isBlank s
      rw [← hrest, h, List.cons_append] at hidem
      by_cases hc : isBlank c = true
      · rw [List.dropWhile_cons_of_pos hc] at hidem
        have hle := (List.dropWhile_sublist isBlank (l := cs ++ rest)).length_le
        rw [hidem, List.length_cons] at hle
        omega
      · rw [List.dropWhile_cons_of_neg hc]
  rw [trim, hdrop]
  exact List.rdropWhile_idempotent isBlank (s.dropWhile isBlank)

/-! ## The jar -/

/-- A pair that an assignment can store. -/
structure Stored (c : Text × Text) : Prop where
  name_plain : '=' ∉ c.1 ∧ ';' ∉ c.1
  name_trimmed : trim c.1 = c.1
  value_plain : ';' ∉ c.2
  value_trimmed : trim c.2 = c.2

/-- The cookies of the page, in the order in which they are listed. -/
structure Jar where
  cookies : List (Text × Text)
  nodup : (cookies.map Prod.fst).Nodup
  stored : ∀ c ∈ cookies, Stored c

def Jar.empty : Jar := ⟨[], List.nodup_nil, by simp⟩

/-- The value takes the place of an older one, or comes last. -/
def replace (name value : Text) : List (Text × Text) → List (Text × Text)
  | [] => [(name, value)]
  | c :: cookies => if c.1 = name then (name, value) :: cookies else c :: replace name value cookies

def Jar.lookup (name : Text) (jar : Jar) : Option Text :=
  (jar.cookies.find? (·.1 = name)).map Prod.snd

theorem mem_replace {name value : Text} {cookies : List (Text × Text)} {c : Text × Text}
    (h : c ∈ replace name value cookies) : c = (name, value) ∨ c ∈ cookies := by
  induction cookies with
  | nil => exact .inl (List.mem_singleton.mp h)
  | cons d cookies ih =>
    unfold replace at h
    split at h
    · exact (List.mem_cons.mp h).imp_right (List.mem_cons_of_mem d)
    · obtain rfl | hmem := List.mem_cons.mp h
      · exact .inr List.mem_cons_self
      · exact (ih hmem).imp_right (List.mem_cons_of_mem d)

theorem nodup_replace {name value : Text} {cookies : List (Text × Text)}
    (h : (cookies.map Prod.fst).Nodup) : ((replace name value cookies).map Prod.fst).Nodup := by
  induction cookies with
  | nil => simp [replace]
  | cons d cookies ih =>
    obtain ⟨hd, hrest⟩ := List.nodup_cons.mp h
    unfold replace
    split
    case isTrue heq => exact List.nodup_cons.mpr ⟨heq ▸ hd, hrest⟩
    case isFalse hne =>
      refine List.nodup_cons.mpr ⟨fun hmem => ?_, ih hrest⟩
      obtain ⟨c, hc, hfst⟩ := List.mem_map.mp hmem
      obtain rfl | hold := mem_replace hc
      · exact hne hfst.symm
      · exact hd (hfst ▸ List.mem_map_of_mem hold)

/-- `document.cookie = text`. -/
def Jar.assign (text : Text) (jar : Jar) : Jar where
  cookies :=
    let pair := text.takeWhile (· ≠ ';')
    replace (trim (pair.takeWhile (· ≠ '='))) (trim ((pair.dropWhile (· ≠ '=')).drop 1)) jar.cookies
  nodup := nodup_replace jar.nodup
  stored c hc := by
    have hpair : ';' ∉ text.takeWhile (· ≠ ';') := fun hmem => by
      simpa using List.mem_takeWhile_imp hmem
    obtain rfl | hold := mem_replace hc
    · refine ⟨⟨fun hmem => ?_, fun hmem => ?_⟩, trim_trim, fun hmem => ?_, trim_trim⟩
      · simpa using List.mem_takeWhile_imp (trim_sublist.subset hmem)
      · exact hpair (((trim_sublist.trans (List.takeWhile_sublist _)).subset hmem))
      · exact hpair ((trim_sublist.trans
          ((List.drop_sublist _ _).trans (List.dropWhile_sublist _))).subset hmem)
    · exact jar.stored c hold

/-- `document.cookie`. -/
def Jar.text (jar : Jar) : Text :=
  List.intercalate [';', ' '] (jar.cookies.map fun c => c.1 ++ '=' :: c.2)

/-! ## The functions of the page -/

/-- `setCookie(cname, cvalue, exdays)`, with the date as a text. -/
def setCookie (cname cvalue expires : Text) (jar : Jar) : Jar :=
  jar.assign (cname ++ "=".toList ++ cvalue ++ "; ".toList ++ ("expires=".toList ++ expires))

/-- `getCookie(cname)`. -/
def getCookie (cookie cname : Text) : Text :=
  let name := cname ++ "=".toList
  let ca := (cookie.splitOn ';').map fun c => c.dropWhile (· = ' ')
  match ca.find? name.isPrefixOf with
  | some c => c.drop name.length
  | none => []

/-! ## What is read back -/

section ReadBack

variable {jar : Jar} {cname cvalue expires name value : Text}

theorem lookup_replace_self {cookies : List (Text × Text)} :
    ((replace name value cookies).find? (·.1 = name)).map Prod.snd = some value := by
  induction cookies with
  | nil => simp [replace]
  | cons d cookies ih =>
    unfold replace
    split
    case isTrue => simp
    case isFalse hne => simpa [hne] using ih

theorem lookup_replace_of_ne {cookies : List (Text × Text)} (h : cname ≠ name) :
    (replace name value cookies).find? (·.1 = cname) = cookies.find? (·.1 = cname) := by
  induction cookies with
  | nil => simp [replace, h.symm]
  | cons d cookies ih =>
    unfold replace
    split
    case isTrue heq =>
      have hd : d.1 ≠ cname := fun hd => h (hd.symm.trans heq)
      simp [h.symm, hd]
    case isFalse =>
      by_cases hd : d.1 = cname
      · simp [hd]
      · simp [hd, ih]

/-- A name as the page uses it: no `=`, no `;`, no blank at its ends. -/
structure PlainName (cname : Text) : Prop where
  no_equals : '=' ∉ cname
  no_semicolon : ';' ∉ cname
  trimmed : trim cname = cname

/-- What the jar stores for a value. -/
def storedValue (cvalue : Text) : Text := trim (cvalue.takeWhile (· ≠ ';'))

theorem setCookie_cookies (h : PlainName cname) :
    (setCookie cname cvalue expires jar).cookies =
      replace cname (storedValue cvalue) jar.cookies := by
  have hpair : (cname ++ "=".toList ++ cvalue ++ "; ".toList ++
      ("expires=".toList ++ expires)).takeWhile (· ≠ ';') =
      cname ++ '=' :: cvalue.takeWhile (· ≠ ';') := by
    have htext : cname ++ "=".toList ++ cvalue ++ "; ".toList ++ ("expires=".toList ++ expires) =
        cname ++ '=' :: (cvalue ++ ';' :: ' ' :: ("expires=".toList ++ expires)) := by simp
    have hall : ∀ c ∈ cname, decide (c ≠ ';') = true := fun c hc => by
      have hne : c ≠ ';' := fun heq => h.no_semicolon (heq ▸ hc)
      simpa using hne
    rw [htext, List.takeWhile_append_of_pos hall, List.takeWhile_cons_of_pos (by decide),
      takeWhile_ne_append]
  have hname : (cname ++ '=' :: cvalue.takeWhile (· ≠ ';')).takeWhile (· ≠ '=') = cname := by
    rw [takeWhile_ne_append, takeWhile_ne_eq_self h.no_equals]
  have hvalue : ((cname ++ '=' :: cvalue.takeWhile (· ≠ ';')).dropWhile (· ≠ '=')).drop 1 =
      cvalue.takeWhile (· ≠ ';') := by
    rw [dropWhile_ne_append h.no_equals]
    rfl
  unfold setCookie Jar.assign
  simp only [hpair, hname, hvalue, h.trimmed]
  rfl

theorem lookup_setCookie_self (h : PlainName cname) :
    (setCookie cname cvalue expires jar).lookup cname = some (storedValue cvalue) := by
  rw [Jar.lookup, setCookie_cookies h, lookup_replace_self]

theorem lookup_setCookie_of_ne (h : PlainName cname) (hne : name ≠ cname) :
    (setCookie cname cvalue expires jar).lookup name = jar.lookup name := by
  rw [Jar.lookup, setCookie_cookies h, lookup_replace_of_ne hne, Jar.lookup]

/-- A value comes back as it was exactly if it has no `;` and is trimmed. -/
theorem storedValue_eq_self_iff :
    storedValue cvalue = cvalue ↔ ';' ∉ cvalue ∧ trim cvalue = cvalue := by
  unfold storedValue
  constructor
  · intro h
    have htake : cvalue.takeWhile (· ≠ ';') = cvalue := by
      refine (List.takeWhile_sublist _).eq_of_length_le ?_
      have hle := (trim_sublist (s := cvalue.takeWhile (· ≠ ';'))).length_le
      rw [h] at hle
      exact hle
    refine ⟨fun hmem => ?_, by rwa [htake] at h⟩
    rw [← htake] at hmem
    simpa using List.mem_takeWhile_imp hmem
  · rintro ⟨hplain, htrim⟩
    rw [takeWhile_ne_eq_self hplain, htrim]

/-! ### The scanner -/

theorem dropWhile_pair {c : Text × Text} (hc : Stored c) :
    (c.1 ++ '=' :: c.2).dropWhile (· = ' ') = c.1 ++ '=' :: c.2 := by
  have htrim := dropWhile_of_trim_eq hc.name_trimmed
  cases hname : c.1 with
  | nil => simp
  | cons d name =>
    rw [hname] at htrim
    have hd : d ≠ ' ' := by
      rintro rfl
      have hle := (List.dropWhile_sublist isBlank (l := name)).length_le
      rw [List.dropWhile_cons_of_pos rfl] at htrim
      rw [htrim, List.length_cons] at hle
      omega
    simp [hd]

/-- The list of all pairs, cut at each `;`, with the blanks in front removed. -/
theorem scanned_eq (h : jar.cookies ≠ []) :
    ((jar.text.splitOn ';').map fun c => c.dropWhile (· = ' ')) =
      jar.cookies.map fun c => c.1 ++ '=' :: c.2 := by
  have hplain : ∀ c ∈ jar.cookies, ';' ∉ c.1 ++ '=' :: c.2 := fun c hc => by
    simp [(jar.stored c hc).name_plain.2, (jar.stored c hc).value_plain]
  have hpair : ∀ c ∈ jar.cookies, (c.1 ++ '=' :: c.2).dropWhile (· = ' ') = c.1 ++ '=' :: c.2 :=
    fun c hc => dropWhile_pair (jar.stored c hc)
  unfold Jar.text
  cases hcookies : jar.cookies with
  | nil => exact absurd hcookies h
  | cons c cookies =>
    rw [hcookies, List.forall_mem_cons] at hplain hpair
    rw [List.map_cons, intercalate_pair, List.splitOn_intercalate]
    · rw [List.map_cons, hpair.1, List.map_map, List.map_map]
      refine congrArg _ (List.map_congr_left fun d hd => ?_)
      simp only [Function.comp_apply]
      rw [List.dropWhile_cons_of_pos (by simp), hpair.2 d hd]
    · refine List.forall_mem_cons.mpr ⟨hplain.1, fun l hl => ?_⟩
      simp only [List.map_map, List.mem_map, Function.comp_apply] at hl
      obtain ⟨d, hd, rfl⟩ := hl
      exact List.not_mem_cons_of_ne_of_not_mem (by decide) (hplain.2 d hd)
    · simp

theorem prefix_pair_iff {c : Text × Text} (h : PlainName cname) (hc : Stored c) :
    (cname ++ "=".toList).isPrefixOf (c.1 ++ '=' :: c.2) = true ↔ c.1 = cname := by
  rw [List.isPrefixOf_iff_prefix]
  constructor
  · rintro ⟨t, ht⟩
    have htake := congrArg (List.takeWhile (· ≠ '=')) ht
    rw [takeWhile_ne_append, takeWhile_ne_eq_self hc.name_plain.1] at htake
    rw [← htake]
    have htext : cname ++ "=".toList ++ t = cname ++ '=' :: t := by simp
    rw [htext, takeWhile_ne_append, takeWhile_ne_eq_self h.no_equals]
  · rintro rfl
    exact ⟨c.2, by simp⟩

/-- The page reads what the jar holds under the name. -/
theorem getCookie_text (h : PlainName cname) :
    getCookie jar.text cname = (jar.lookup cname).getD [] := by
  unfold getCookie Jar.lookup
  dsimp only
  by_cases hempty : jar.cookies = []
  · have htext : jar.text = [] := by simp [Jar.text, hempty]
    simp [htext, hempty, List.splitOn_nil]
  · have hfind : (jar.cookies.map fun c => c.1 ++ '=' :: c.2).find?
        (cname ++ "=".toList).isPrefixOf =
        (jar.cookies.find? (·.1 = cname)).map fun c => c.1 ++ '=' :: c.2 := by
      rw [List.find?_map]
      refine congrArg _ (List.find?_congr fun c hc => ?_)
      rw [Bool.eq_iff_iff, decide_eq_true_iff]
      exact prefix_pair_iff h (jar.stored c hc)
    rw [scanned_eq hempty, hfind]
    cases hc : jar.cookies.find? (·.1 = cname) with
    | none => rfl
    | some c =>
      have hname : c.1 = cname := by simpa using List.find?_some hc
      simp [← hname]

end ReadBack

end SmartDoor.Web
