-- SUMMARY: Which notes and which names of devices a page shows as they are stored, however often it posts and shows them.
import SmartDoor.Base.Readback
import SmartDoor.Router.Rows
import Mathlib.Logic.Function.Iterate

/-!
# Texts that are shown

`pages.js` puts the text of a note into a quoted attribute, the address of a device
into another and the name of the device between two tags, and escapes none of them.
A text reads back unchanged if none of its characters ends the place it was put
into and the reading of this place changes none of them.
-/

namespace SmartDoor.Router.Pages

open Script (Text)
open Html

/-! ## What is meant -/

/-- One option with its value and the text between its tags as it is parsed, before the
stripping and collapsing that `optionValue` models. -/
def optionTokens (key name : Text) : List Token :=
  addText [.startTag "option".toList [("value".toList, key)]] name ++ [.endTag "option".toList]

/-- The loop over the devices of a file, which adds one option after the other. -/
def optionList (E : Entities) (devices : List (Text × Text)) : Option (List Token) :=
  devices.foldlM (fun shown device => tokenize E (serialize shown ++ option device.1 device.2)) []

/-- A page shows the notes `memos` and posts them. The texts pass through the post, the
file and the next page as JSON, which keeps them. -/
def repost (E : Entities) (memos : List Text) : Option (List Text) :=
  (tokenize E (newmemoforms (-1) memos).2).bind fun shown =>
    match collectRows (shown.map Node.load) with
    | .ok acc => some (acc.memos.map (·.2))
    | .error _ => none

/-- Notes and devices read back unchanged. -/
structure ReadsBack (E : Entities) (memos : List Text) (devices : List (Text × Text)) : Prop where
  /-- A note gives one row, the value of whose text field is the note. -/
  row : ∀ memval ∈ memos, ∀ memosid, ∃ value,
    tokenize E (newmemoform memosid memval).2 = some (rowTokens (memosid + 1) value) ∧
      fieldValue value = memval
  /-- A device gives one option. -/
  option : ∀ device ∈ devices,
    tokenize E (option device.1 device.2) = some (optionTokens device.1 device.2)
  /-- At each turn of its loop the list of the devices has their options. -/
  list : ∀ shown, shown <+: devices →
    optionList E shown = some (shown.flatMap fun device => optionTokens device.1 device.2)
  /-- The notes are the same after any number of posts. -/
  posts : ∀ n, (fun posted => posted.bind (repost E))^[n] (some memos) = some memos

/-! ## The condition -/

/-- Nothing in the text ends the attribute or is changed in it. -/
def Quotable (E : Entities) (s : Text) : Prop := '"' ∉ s ∧ Literal E true s ∧ Clean s

/-- Nothing in the text starts a tag or a comment or is changed. -/
def Writable (E : Entities) (s : Text) : Prop := PlainText s ∧ Literal E false s ∧ Clean s

/-- The note has one line and can be put between quotation marks. -/
def NoteOk (E : Entities) (memval : Text) : Prop := Quotable E memval ∧ '\n' ∉ memval

def DeviceOk (E : Entities) (device : Text × Text) : Prop :=
  Quotable E device.1 ∧ Writable E device.2

/-! ## Notes -/

section Notes

variable {E : Entities} {memosid : Int} {memval value : Text} {memos : List Text}

theorem tokenize_newmemoform : tokenize E (newmemoform memosid memval).2 =
    finish E (feeds E ⟨.text [' '] :: headTokens,
      .quoted '"' (fieldTag (memosid + 1)) "value".toList []⟩ (normalize memval ++ rowEnd)) := by
  rw [tokenize, normalize_newmemoform, feeds_append, feeds_rowStart]
  rfl

theorem row_reads_back_iff : (∃ value,
      tokenize E (newmemoform memosid memval).2 = some (rowTokens (memosid + 1) value) ∧
        fieldValue value = memval) ↔ NoteOk E memval := by
  rw [tokenize_newmemoform]
  constructor
  · rintro ⟨value, hread, hvalue⟩
    have hlength : (normalize memval).length ≤ value.length := by
      refine normalize_length_le.trans ?_
      rw [← hvalue]
      exact fieldValue_length_le
    obtain ⟨hattr, hquote⟩ := @attrValue_of_finish E _ (fieldTag (memosid + 1)) _ value _ _ _
      [.endTag "div".toList] rfl rfl hlength hread
    rw [← hattr] at hvalue
    obtain ⟨hliteral, hclean, hline⟩ := fieldValue_normalize_eq_self_iff.mp hvalue
    rw [normalize_eq_self hclean.2] at hquote
    exact ⟨⟨hquote, hliteral, hclean⟩, hline⟩
  · rintro ⟨⟨hquote, hliteral, hclean⟩, hline⟩
    refine ⟨memval, ?_, ?_⟩
    · rw [normalize_eq_self hclean.2, feeds_field hquote, attrValue_eq_self hliteral hclean.1]
      rfl
    · have hvalue := fieldValue_normalize_eq_self_iff.mpr ⟨hliteral, hclean, hline⟩
      rwa [normalize_eq_self hclean.2, attrValue_eq_self hliteral hclean.1] at hvalue

end Notes

/-! ## Devices -/

/-- An option up to its value. -/
def optionStart : Text :=
  ('<' :: "option".toList ++ ([] : List (Text × Option Text)).flatMap writeAttr) ++
    (' ' :: "value".toList ++ ['=', '"'])

section Devices

variable {E : Entities} {ts : List Token} {key name rest : Text} {device : Text × Text}
  {devices : List (Text × Text)}

theorem option_eq : option key name =
    optionStart ++ (key ++ '"' :: '>' :: (name ++ (Piece.endTag "option".toList).write)) := by
  have hstart : optionStart = "<option value=\"".toList := by simp [optionStart]
  have hend : (Piece.endTag "option".toList).write = "</option>".toList := by simp [Piece.write]
  have hclose : ∀ t : Text, "\">".toList ++ t = '"' :: '>' :: t := fun t => rfl
  rw [hstart, hend, ← hclose]
  unfold option
  simp only [List.append_assoc]

theorem feeds_optionStart : feeds E ⟨ts, .data []⟩ optionStart =
    ⟨ts, .quoted '"' ⟨false, "option".toList, []⟩ "value".toList []⟩ := by
  have hok : (Piece.startTag "option".toList []).Ok :=
    Piece.ok_startTag (by simp [IsName]) (List.forall_mem_nil _)
  exact feeds_openValue hok (by simp [IsName])

/-- The value of an option that holds no quotation mark. -/
theorem feeds_optionValue (h : '"' ∉ key) :
    feeds E ⟨ts, .quoted '"' ⟨false, "option".toList, []⟩ "value".toList []⟩
        (key ++ '"' :: '>' :: rest) =
      feeds E ⟨ts ++ [.startTag "option".toList [("value".toList, attrValue E key)]], .data []⟩
        rest := by
  rw [feeds_append, feeds_quoted h]
  rfl

theorem normalize_option : normalize (option key name) =
    optionStart ++ (normalize key ++
      '"' :: '>' :: (normalize name ++ (Piece.endTag "option".toList).write)) := by
  have hstart : '\r' ∉ optionStart := by simp [optionStart]
  have hend : normalize (Piece.endTag "option".toList).write =
    (Piece.endTag "option".toList).write := normalize_eq_self (by simp [Piece.write])
  have hname : (Piece.endTag "option".toList).write.head? ≠ some '\n' := by simp [Piece.write]
  rw [option_eq, normalize_append_left hstart, normalize_append (by simp),
    normalize_cons_of_ne (by decide), normalize_cons_of_ne (by decide), normalize_append hname,
    hend]

/-- An option whose address can be quoted is read up to its label. -/
theorem tokenize_option (hquote : '"' ∉ key) (hkey : Literal E true key ∧ Clean key) :
    finish E (feeds E ⟨ts, .data []⟩ (normalize (option key name))) =
      finish E (feeds E ⟨ts ++ [.startTag "option".toList [("value".toList, key)]], .data []⟩
        (normalize name ++ (Piece.endTag "option".toList).write)) := by
  rw [normalize_option, feeds_append, feeds_optionStart, normalize_eq_self hkey.2.2,
    feeds_optionValue hquote, attrValue_eq_self hkey.1 hkey.2.1]

theorem optionTokens_eq_cons : ∃ more, optionTokens key name =
    .startTag "option".toList [("value".toList, key)] :: more := by
  unfold optionTokens addText
  split
  · exact ⟨_, rfl⟩
  · exact ⟨_, rfl⟩

/-- The address of an option that reads back can be quoted. -/
theorem quotable_of_option
    (h : tokenize E (option key name) = some (optionTokens key name)) : Quotable E key := by
  obtain ⟨more, hmore⟩ := @optionTokens_eq_cons key name
  rw [tokenize, normalize_option, feeds_append, feeds_optionStart, hmore] at h
  obtain ⟨hattr, hquote⟩ := @attrValue_of_finish E [] ⟨false, "option".toList, []⟩ _ key _ _ _
    more rfl rfl normalize_length_le h
  obtain ⟨hliteral, hclean⟩ := attrValue_normalize_eq_self_iff.mp hattr
  rw [normalize_eq_self hclean.2] at hquote
  exact ⟨hquote, hliteral, hclean⟩

/-- A device reads back if and only if its address can be quoted and its name be written. -/
theorem option_reads_back_iff :
    tokenize E (option key name) = some (optionTokens key name) ↔ DeviceOk E (key, name) := by
  have hlabel : Quotable E key →
      (tokenize E (option key name) = some (optionTokens key name) ↔ Writable E name) := by
    rintro ⟨hquote, hkey⟩
    rw [tokenize, tokenize_option hquote hkey]
    refine (feeds_text_endTag_iff (by simp [IsName]) normalize_length_le).trans ?_
    rw [textData_normalize_eq_self_iff]
    constructor
    · rintro ⟨hplain, hliteral, hclean⟩
      exact ⟨normalize_eq_self hclean.2 ▸ hplain, hliteral, hclean⟩
    · rintro ⟨hplain, hliteral, hclean⟩
      exact ⟨(normalize_eq_self hclean.2).symm ▸ hplain, hliteral, hclean⟩
  constructor
  · intro hread
    have hkey := quotable_of_option hread
    exact ⟨hkey, (hlabel hkey).mp hread⟩
  · rintro ⟨hkey, hname⟩
    exact (hlabel hkey).mpr hname

/-- The source of an option that is shown. -/
theorem serialize_option : serialize (optionTokens key name) =
    optionStart ++ (escape true key ++
      '"' :: '>' :: (escape false name ++ (Piece.endTag "option".toList).write)) := by
  unfold optionTokens addText
  split
  · next hname =>
    subst hname
    simp [serialize, write, Piece.write, Token.piece, writeAttr, optionStart, escape]
  · simp [serialize, write, Piece.write, Token.piece, writeAttr, optionStart]

/-- An option that is shown is read again as it is. -/
theorem feeds_serialize_option (hkey : '\x00' ∉ key) (hname : '\x00' ∉ name) :
    feeds E ⟨ts, .data []⟩ (serialize (optionTokens key name)) =
      ⟨ts ++ optionTokens key name, .data []⟩ := by
  rw [serialize_option, feeds_append, feeds_optionStart, feeds_optionValue quote_not_mem_escape,
    attrValue_escape hkey, feeds_append, feeds_data lt_not_mem_escape,
    feeds_endTag (IsName.isTagName (by simp [IsName])), List.nil_append, flush, textData_escape hname,
    addText_append, optionTokens, List.append_assoc]

theorem feeds_serialize_options (h : ∀ device ∈ devices, DeviceOk E device) :
    feeds E ⟨ts, .data []⟩
        (serialize (devices.flatMap fun device => optionTokens device.1 device.2)) =
      ⟨ts ++ devices.flatMap fun device => optionTokens device.1 device.2, .data []⟩ := by
  induction devices generalizing ts with
  | nil => simp [serialize, write]
  | cons device devices ih =>
    obtain ⟨⟨⟨-, -, hkey⟩, -, -, hname⟩, hrest⟩ := List.forall_mem_cons.mp h
    rw [List.flatMap_cons, serialize_append, feeds_append, feeds_serialize_option hkey.1 hname.1,
      ih hrest, List.append_assoc]

theorem return_not_mem_serialize (h : ∀ device ∈ devices, DeviceOk E device) :
    '\r' ∉ serialize (devices.flatMap fun device => optionTokens device.1 device.2) := by
  induction devices with
  | nil => simp [serialize, write]
  | cons device devices ih =>
    obtain ⟨⟨⟨-, -, hkey⟩, -, -, hname⟩, hrest⟩ := List.forall_mem_cons.mp h
    have hstart : '\r' ∉ optionStart := by simp [optionStart]
    have hend : '\r' ∉ (Piece.endTag "option".toList).write := by simp [Piece.write]
    rw [List.flatMap_cons, serialize_append, serialize_option]
    simp only [List.mem_append, List.mem_cons, not_or]
    exact ⟨⟨hstart, return_not_mem_escape hkey.2, by decide, by decide,
      return_not_mem_escape hname.2, hend⟩, ih hrest⟩

theorem optionList_eq (h : ∀ device ∈ devices, DeviceOk E device) : optionList E devices =
    some (devices.flatMap fun device => optionTokens device.1 device.2) := by
  induction devices using List.reverseRecOn with
  | nil => rfl
  | append_singleton devices device ih =>
    have hshown := fun d hd => h d (List.mem_append_left [device] hd)
    obtain ⟨⟨hquote, hkey⟩, hplain, hliteral, hclean⟩ := h device (by simp)
    have hlabel : finish E (feeds E
        ⟨devices.flatMap (fun device => optionTokens device.1 device.2) ++
          [.startTag "option".toList [("value".toList, device.1)]], .data []⟩
        (normalize device.2 ++ (Piece.endTag "option".toList).write)) = _ :=
      (feeds_text_endTag_iff (by simp [IsName]) normalize_length_le).mpr
        ⟨(normalize_eq_self hclean.2).symm ▸ hplain,
          textData_normalize_eq_self_iff.mpr ⟨hliteral, hclean⟩⟩
    rw [optionList, List.foldlM_append, ← optionList, ih hshown]
    simp only [List.foldlM_cons, List.foldlM_nil, Option.bind_eq_bind, Option.bind_some]
    rw [tokenize, normalize_append_left (return_not_mem_serialize hshown), feeds_append,
      feeds_serialize_options hshown, List.nil_append, tokenize_option hquote hkey, hlabel]
    simp [addText_append, optionTokens]

end Devices

/-! ## Posts -/

section Posts

variable {E : Entities} {memos : List Text}

/-- Every note of rows that were just created is collected. -/
theorem checkedTexts_of_fresh {d : Document} (hchecked : ∀ box ∈ d.boxes, box.checked = true)
    (hlength : d.boxes.length = d.fields.length) :
    d.checkedTexts.map (·.2) = d.fields.map (·.value) := by
  have hall : ∀ row ∈ (d.boxes.zip d.fields).zipIdx,
      Document.checkedText row = some (row.2, row.1.2.value) := fun row hrow => by
    have hzip : row.1 ∈ d.boxes.zip d.fields := by
      rw [← List.zipIdx_map_fst 0 (d.boxes.zip d.fields)]
      exact List.mem_map_of_mem hrow
    exact if_pos (hchecked row.1.1 (List.of_mem_zip hzip).1)
  have hmap : d.checkedTexts =
      (d.boxes.zip d.fields).zipIdx.map fun row => (row.2, row.1.2.value) := by
    rw [Document.checkedTexts, ← List.filterMap_eq_map]
    exact List.filterMap_congr hall
  calc d.checkedTexts.map (·.2)
      = ((d.boxes.zip d.fields).zipIdx.map (·.1)).map (·.2.value) := by
        rw [hmap, List.map_map, List.map_map]
        rfl
    _ = ((d.boxes.zip d.fields).map Prod.snd).map (·.value) := by
        rw [List.zipIdx_map_fst, List.map_map]
        rfl
    _ = d.fields.map (·.value) := by rw [List.map_snd_zip hlength.ge]

theorem repost_eq (h : ∀ memval ∈ memos, NoteOk E memval) : repost E memos = some memos := by
  have hread : tokenize E (newmemoforms (-1) memos).2 =
      some ((numbered (-1) memos).flatMap fun row => rowTokens row.1 row.2) := by
    have hvalues : memos.map (fun memval => attrValue E (normalize memval)) = memos := by
      refine (List.map_congr_left fun memval hmem => ?_).trans (List.map_id memos)
      exact attrValue_normalize_eq_self_iff.mpr (h memval hmem).1.2
    rw [tokenize, feeds_newmemoforms fun memval hmem => (h memval hmem).1.1, hvalues]
    rfl
  have hlines : memos.map fieldValue = memos := by
    refine (List.map_congr_left fun memval hmem => ?_).trans (List.map_id memos)
    exact fieldValue_eq_self (h memval hmem).2 (h memval hmem).1.2.2.2
  rw [repost, hread, Option.bind_some]
  generalize hshown : ((numbered (-1) memos).flatMap fun row => rowTokens row.1 row.2) = shown
  have hshape : (Document.elements (shown.map Node.load)).map Element.shape =
      (numbered (-1) memos).flatMap rowElements := by
    rw [elements_load, ← hshown, shape_rowTokens]
  have haligned : Document.Aligned (shown.map Node.load) := by
    rw [aligned_iff_of_shape hshape, numbered_length, numbered_map_fst]
  obtain ⟨hids, hboxes, -⟩ := rows_of_shape hshape
  obtain ⟨hchecked, hvalues⟩ := fresh_of_shape hshape fresh_load
  have hlength := hboxes.trans (by simpa using (congrArg List.length hids).symm)
  rw [haligned.collectRows]
  simp only
  have hmemos : (numbered (-1) memos).map (fun row => fieldValue row.2) = memos :=
    calc (numbered (-1) memos).map (fun row => fieldValue row.2)
        = ((numbered (-1) memos).map (·.2)).map fieldValue := (List.map_map ..).symm
      _ = memos := by rw [numbered_map_snd, hlines]
  rw [checkedTexts_of_fresh hchecked hlength, Document.fields, hvalues, hmemos]

end Posts

/-- Notes and devices read back if and only if each note is one line that can be put
between quotation marks, and so is each address, and each name can be put between tags. -/
theorem reads_back_iff (E : Entities) (memos : List Text) (devices : List (Text × Text)) :
    ReadsBack E memos devices ↔
      (∀ memval ∈ memos, NoteOk E memval) ∧ ∀ device ∈ devices, DeviceOk E device := by
  constructor
  · intro h
    exact ⟨fun memval hmem => row_reads_back_iff.mp (h.row memval hmem 0),
      fun device hmem => option_reads_back_iff.mp (h.option device hmem)⟩
  · rintro ⟨hmemos, hdevices⟩
    constructor
    case row => exact fun memval hmem memosid => row_reads_back_iff.mpr (hmemos memval hmem)
    case option => exact fun device hmem => option_reads_back_iff.mpr (hdevices device hmem)
    case list =>
      rintro shown ⟨rest, rfl⟩
      exact optionList_eq fun device hmem => hdevices device (List.mem_append_left rest hmem)
    case posts =>
      intro n
      exact Function.iterate_fixed (repost_eq hmemos) n

/-- A note with a quotation mark is cut, and the name of a device adds an element. -/
theorem quoted_note_cut : ¬ ReadsBack .basic ["say \"hi\"".toList] [] ∧
    ¬ ReadsBack .basic [] [("00:11".toList, "<b>x".toList)] := by
  constructor
  · intro h
    have hok := row_reads_back_iff.mp (h.row _ List.mem_cons_self 0)
    exact absurd hok.1.1 (by simp)
  · intro h
    have hok := option_reads_back_iff.mp (h.option _ List.mem_cons_self)
    have hplain : PlainText "<b>x".toList := hok.2.1
    have hsplit : "<b>x".toList = [] ++ '<' :: 'b' :: ['>', 'x'] := by simp
    exact absurd (hplain _ _ _ hsplit) (by decide)

end SmartDoor.Router.Pages
