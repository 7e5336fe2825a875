-- SUMMARY: Which phone numbers the settings page can delete again: the value of the option made of a number is the number.
import SmartDoor.Router.Rendered
import SmartDoor.Router.Server

/-!
# Phone numbers

A number that is added becomes a key of `phones`, and the page makes an option of
each key, in the lists `phonenum` and `callto`. An option without a value attribute
has as its value the text in it with the white space stripped and collapsed. What
the page posts to `delphone` is this value, and the router deletes the key that is
equal to it.
-/

namespace SmartDoor.Router.Pages

open Script (Text)
open Html

/-! ## The options -/

/-- `'<option>' + key + '</option>'`. -/
def phoneOption (key : Text) : Text := "<option>".toList ++ key ++ "</option>".toList

/-- The loop over the numbers, which adds one option after the other. -/
def phoneList (E : Entities) (keys : List Text) : Option (List Token) :=
  keys.foldlM (fun shown key => tokenize E (serialize shown ++ phoneOption key)) []

/-- One option with a label. -/
def phoneTokens (label : Text) : List Token :=
  addText [.startTag "option".toList []] label ++ [.endTag "option".toList]

def isWhite (c : Char) : Bool := isSpace c ∨ c = '\r'

/-- The rest of a text whose white space is collapsed; `pending` says whether a run of it has
just been read. -/
def collapseFrom (pending : Bool) : Text → Text
  | [] => []
  | c :: s =>
    if isWhite c then collapseFrom true s
    else if pending then ' ' :: c :: collapseFrom false s
    else c :: collapseFrom false s

/-- The value of an option with the label. -/
def optionValue (label : Text) : Text := collapseFrom false (label.dropWhile isWhite)

/-! ## What is meant -/

/-- `keys` are the numbers in `phones` that its file has. -/
structure Lists (s : Server) (keys : List Text) : Prop where
  nodup : keys.Nodup
  mem_iff : ∀ key : Text,
    (mapFormat.stringify s.phones.memory (String.ofList key)).isSome ↔ key ∈ keys

/-- Every number can be shown and deleted again. -/
structure PhonesReadBack (E : Entities) (keys : List Text) : Prop where
  /-- A number gives one option, whose value it is. -/
  option : ∀ key ∈ keys, ∃ label, tokenize E (phoneOption key) = some (phoneTokens label) ∧
    optionValue label = key
  /-- At each turn of its loop the list of the numbers has their options. -/
  list : ∀ shown, shown <+: keys → phoneList E shown = some (shown.flatMap phoneTokens)
  /-- Deleting the number of an option leaves all the others. -/
  deleted : ∀ (s : Server) (pre : List Text) (key : Text) (post : List Text),
    keys = pre ++ key :: post → Lists s keys →
      Lists (s.delphone (.one (String.ofList (optionValue key)))) (pre ++ post)

/-- The number can be written between tags, and its only white space are single spaces inside. -/
def PhoneOk (E : Entities) (key : Text) : Prop := Writable E key ∧ optionValue key = key

/-! ## The value of an option -/

variable {E : Entities} {ts : List Token} {key label s : Text} {keys : List Text} {c : Char}
  {pending : Bool}

theorem collapseFrom_length_le :
    (collapseFrom pending s).length ≤ s.length + pending.toNat := by
  induction s generalizing pending with
  | nil => simp [collapseFrom]
  | cons c s ih =>
    have htrue := @ih true
    have hfalse := @ih false
    rw [collapseFrom]
    split_ifs with hwhite hpending
    · simp only [Bool.toNat_true, List.length_cons] at htrue ⊢
      omega
    · simpa [hpending] using hfalse
    · simpa [hpending] using hfalse

theorem optionValue_length_le : (optionValue label).length ≤ label.length := by
  have hle := @collapseFrom_length_le (label.dropWhile isWhite) false
  have hdrop := (List.dropWhile_sublist (l := label) isWhite).length_le
  simp only [Bool.toNat_false, Nat.add_zero] at hle
  exact hle.trans hdrop

theorem return_not_mem_collapseFrom : '\r' ∉ collapseFrom pending s := by
  induction s generalizing pending with
  | nil => simp [collapseFrom]
  | cons c s ih =>
    rw [collapseFrom]
    split_ifs with hwhite hpending
    · exact ih
    · have hc : c ≠ '\r' := fun h => hwhite (by simp [isWhite, h])
      simp [hc.symm, ih]
    · have hc : c ≠ '\r' := fun h => hwhite (by simp [isWhite, h])
      simp [hc.symm, ih]

/-! ## One option -/

/-- The start tag of an option. -/
def phoneStart : Text := (Piece.startTag "option".toList []).write

theorem phoneOption_eq : phoneOption key =
    phoneStart ++ (key ++ (Piece.endTag "option".toList).write) := by
  have hstart : phoneStart = "<option>".toList := by simp [phoneStart, Piece.write]
  have hend : (Piece.endTag "option".toList).write = "</option>".toList := by simp [Piece.write]
  rw [hstart, hend]
  unfold phoneOption
  simp only [List.append_assoc]

theorem feeds_phoneStart : feeds E ⟨ts, .data []⟩ phoneStart =
    ⟨ts ++ [.startTag "option".toList []], .data []⟩ := by
  have hok : (Piece.startTag "option".toList []).Ok :=
    Piece.ok_startTag (by simp [IsName]) (List.forall_mem_nil _)
  have hread : feeds E ⟨ts, .data []⟩ (Piece.startTag "option".toList []).write =
    ⟨flush E ts [] ++ [(List.foldl (readTag E) ⟨false, "option".toList, []⟩ []).token], .data []⟩ :=
    feeds_startTag hok
  exact hread

theorem normalize_phoneOption : Html.normalize (phoneOption key) =
    phoneStart ++ (Html.normalize key ++ (Piece.endTag "option".toList).write) := by
  have hstart : '\r' ∉ phoneStart := by simp [phoneStart, Piece.write]
  have hend : Html.normalize (Piece.endTag "option".toList).write =
    (Piece.endTag "option".toList).write := normalize_eq_self (by simp [Piece.write])
  have hkey : (Piece.endTag "option".toList).write.head? ≠ some '\n' := by simp [Piece.write]
  rw [phoneOption_eq, normalize_append_left hstart, normalize_append hkey, hend]

/-- Behind what is shown already. -/
theorem finish_phoneOption_iff (E : Entities) (ts : List Token)
    (hlength : key.length ≤ label.length) :
    finish E (feeds E ⟨ts, .data []⟩ (Html.normalize (phoneOption key))) =
      some (ts ++ phoneTokens label) ↔
    PlainText (Html.normalize key) ∧ textData E (Html.normalize key) = label := by
  have htokens : ts ++ phoneTokens label =
      addText (ts ++ [.startTag "option".toList []]) label ++ [.endTag "option".toList] := by
    rw [phoneTokens, addText_append, List.append_assoc]
  rw [normalize_phoneOption, feeds_append, feeds_phoneStart, htokens]
  exact feeds_text_endTag_iff (by simp [IsName]) (normalize_length_le.trans hlength)

/-- An option reads back if and only if its number can be written and is its own value. -/
theorem phone_reads_back_iff : (∃ label, tokenize E (phoneOption key) = some (phoneTokens label) ∧
    optionValue label = key) ↔ PhoneOk E key := by
  constructor
  · rintro ⟨label, hread, hvalue⟩
    have hlength : key.length ≤ label.length := hvalue ▸ optionValue_length_le
    obtain ⟨hplain, hlabel⟩ := (finish_phoneOption_iff E [] hlength).mp hread
    -- the white space of a value has no carriage return, and nothing else shortens the text
    have hreturn : '\r' ∉ key := hvalue ▸ return_not_mem_collapseFrom
    rw [normalize_eq_self hreturn] at hplain hlabel
    have hliteral : Literal E false key := by
      refine literal_of_length (hlength.trans ?_)
      rw [← hlabel]
      exact List.length_filter_le _ _
    have hsame : label = key := by
      rw [← hlabel, textData, hliteral.decode_eq]
      refine List.filter_sublist.eq_of_length_le ?_
      rwa [← hlabel, textData, hliteral.decode_eq] at hlength
    subst hsame
    rw [← normalize_eq_self hreturn] at hlabel
    nth_rewrite 2 [normalize_eq_self hreturn] at hlabel
    exact ⟨⟨hplain, textData_normalize_eq_self_iff.mp hlabel⟩, hvalue⟩
  · rintro ⟨⟨hplain, hliteral, hclean⟩, hvalue⟩
    refine ⟨key, (finish_phoneOption_iff E [] (Nat.le_refl _)).mpr ⟨?_, ?_⟩, hvalue⟩
    · exact (normalize_eq_self hclean.2).symm ▸ hplain
    · exact textData_normalize_eq_self_iff.mpr ⟨hliteral, hclean⟩

/-! ## The list -/

theorem serialize_phone : serialize (phoneTokens label) =
    phoneStart ++ (escape false label ++ (Piece.endTag "option".toList).write) := by
  unfold phoneTokens addText
  split
  · next hlabel =>
    subst hlabel
    simp [serialize, write, Piece.write, Token.piece, phoneStart, escape]
  · simp [serialize, write, Piece.write, Token.piece, phoneStart]

/-- An option that is shown is read again as it is. -/
theorem feeds_serialize_phone (hlabel : '\x00' ∉ label) :
    feeds E ⟨ts, .data []⟩ (serialize (phoneTokens label)) =
      ⟨ts ++ phoneTokens label, .data []⟩ := by
  rw [serialize_phone, feeds_append, feeds_phoneStart, feeds_append, feeds_data lt_not_mem_escape,
    feeds_endTag (IsName.isTagName (by simp [IsName])), List.nil_append, flush,
    textData_escape hlabel, addText_append, phoneTokens, List.append_assoc]

theorem feeds_serialize_phones (h : ∀ key ∈ keys, PhoneOk E key) :
    feeds E ⟨ts, .data []⟩ (serialize (keys.flatMap phoneTokens)) =
      ⟨ts ++ keys.flatMap phoneTokens, .data []⟩ := by
  induction keys generalizing ts with
  | nil => simp [serialize, write]
  | cons key keys ih =>
    obtain ⟨⟨⟨-, -, hclean⟩, -⟩, hrest⟩ := List.forall_mem_cons.mp h
    rw [List.flatMap_cons, serialize_append, feeds_append, feeds_serialize_phone hclean.1, ih hrest,
      List.append_assoc]

theorem return_not_mem_phones (h : ∀ key ∈ keys, PhoneOk E key) :
    '\r' ∉ serialize (keys.flatMap phoneTokens) := by
  induction keys with
  | nil => simp [serialize, write]
  | cons key keys ih =>
    obtain ⟨⟨⟨-, -, hclean⟩, -⟩, hrest⟩ := List.forall_mem_cons.mp h
    have hstart : '\r' ∉ phoneStart := by simp [phoneStart, Piece.write]
    have hend : '\r' ∉ (Piece.endTag "option".toList).write := by simp [Piece.write]
    rw [List.flatMap_cons, serialize_append, serialize_phone]
    simp only [List.mem_append, not_or]
    exact ⟨⟨hstart, return_not_mem_escape hclean.2, hend⟩, ih hrest⟩

theorem phoneList_eq (h : ∀ key ∈ keys, PhoneOk E key) :
    phoneList E keys = some (keys.flatMap phoneTokens) := by
  induction keys using List.reverseRecOn with
  | nil => rfl
  | append_singleton keys key ih =>
    have hshown := fun k hk => h k (List.mem_append_left [key] hk)
    obtain ⟨⟨hplain, hliteral, hclean⟩, -⟩ := h key (by simp)
    have hlast := (finish_phoneOption_iff E (keys.flatMap phoneTokens)
      (Nat.le_refl key.length)).mpr ⟨(normalize_eq_self hclean.2).symm ▸ hplain,
        textData_normalize_eq_self_iff.mpr ⟨hliteral, hclean⟩⟩
    rw [phoneList, List.foldlM_append, ← phoneList, ih hshown]
    simp only [List.foldlM_cons, List.foldlM_nil, Option.bind_eq_bind, Option.bind_some]
    rw [tokenize, normalize_append_left (return_not_mem_phones hshown), feeds_append,
      feeds_serialize_phones hshown, List.nil_append, hlast]
    simp

/-! ## Deleting -/

theorem ofList_injective {s t : Text} (h : String.ofList s = String.ofList t) : s = t := by
  simpa using congrArg String.toList h

/-- Deleting a number leaves exactly the others. -/
theorem Lists.delphone {server : Server} {pre post : List Text}
    (h : Lists server (pre ++ key :: post)) :
    Lists (server.delphone (.one (String.ofList key))) (pre ++ post) := by
  have hperm := h.nodup
  rw [List.nodup_middle, List.nodup_cons] at hperm
  refine ⟨hperm.2, fun k => ?_⟩
  have hsaved : mapFormat.stringify
      (server.delphone (.one (String.ofList key))).phones.memory (String.ofList k) =
      if k = key then none
      else mapFormat.stringify server.phones.memory (String.ofList k) := by
    simp only [Server.delphone, Saved.save_memory, Field.text, Map.delete]
    simp only [mapFormat, Function.update_apply]
    by_cases hk : k = key
    · simp [hk]
    · rw [if_neg fun heq => hk (ofList_injective heq), if_neg hk]
  rw [hsaved]
  by_cases hk : k = key
  · subst hk
    simpa using hperm.1
  · rw [if_neg hk, h.mem_iff]
    simp [hk]

/-- Every number that is stored can be shown and deleted again if and only if each can be
written between tags and has no white space but single spaces inside. -/
theorem phones_read_back_iff (E : Entities) (keys : List Text) :
    PhonesReadBack E keys ↔ ∀ key ∈ keys, PhoneOk E key := by
  constructor
  · intro h key hkey
    exact phone_reads_back_iff.mp (h.option key hkey)
  · intro h
    constructor
    case option => exact fun key hkey => phone_reads_back_iff.mpr (h key hkey)
    case list =>
      rintro shown ⟨rest, rfl⟩
      exact phoneList_eq fun key hkey => h key (List.mem_append_left rest hkey)
    case deleted =>
      rintro s pre key post rfl hlists
      rw [(h key (by simp)).2]
      exact hlists.delphone

end SmartDoor.Router.Pages
