-- SUMMARY: The HTML that pages.js builds for notes and devices, what a browser makes of a row, and how the rows are collected.
import SmartDoor.Base.Html
import Mathlib.Data.Int.Basic

/-!
# Rows

A note is shown as a row with a check box and a text field; the text field has the
number `memosid` in its id. A device is shown as an option of a list. Both are
built as a text, with the texts of the note or of the device put in as they are.
-/

namespace SmartDoor.Router.Pages

open Script (Text numeral)
open Html

/-! ## What is built -/

/-- The conversion of a whole number to a string. -/
def intText : Int → Text
  | .ofNat n => numeral n
  | .negSucc n => '-' :: numeral (n + 1)

/-- `newmemoform`, with the new value of `memosid`. -/
def newmemoform (memosid : Int) (memval : Text) : Int × Text :=
  let memosid := memosid + 1
  (memosid,
    " <div class=\"input-group col-xs-offset-3\"><span class=\"input-group-addon\">".toList ++
      "<input type=\"checkbox\" name=\"memosbox\" checked></span>".toList ++
      "<input type=\"text\" id=\"memotext".toList ++ intText memosid ++
      "\" class=\"form-control\" value=\"".toList ++ memval ++ "\"></div>".toList)

/-- The rows of several notes. -/
def newmemoforms (memosid : Int) : List Text → Int × Text
  | [] => (memosid, [])
  | memval :: memvals =>
    let row := newmemoform memosid memval
    let rows := newmemoforms row.1 memvals
    (rows.1, row.2 ++ rows.2)

/-- The option of a device. -/
def option (key name : Text) : Text :=
  "<option value=\"".toList ++ key ++ "\">".toList ++ name ++ "</option>".toList

/-! ## What is shown -/

structure Element where
  tag : Text
  attrs : List Attr
  /-- The text in a text field. -/
  value : Text
  /-- Whether a box is checked. -/
  checked : Bool

def Element.attr (e : Element) (name : Text) : Option Text :=
  (e.attrs.find? (·.1 = name)).map (·.2)

/-- An element as it is when it is created. -/
def Element.load (tag : Text) (attrs : List Attr) : Element where
  tag := tag
  attrs := attrs
  value := fieldValue (((attrs.find? (·.1 = "value".toList)).map (·.2)).getD [])
  checked := tag = "input".toList ∧ attrs.any (·.1 = "checked".toList)

/-- The start of an element, its end, or a text. -/
inductive Node where
  | text (s : Text)
  | element (e : Element)
  | close (tag : Text)

def Node.load : Token → Node
  | .text s => .text s
  | .startTag name attrs => .element (.load name attrs)
  | .endTag name => .close name

/-- The source of a node has the attributes, not what the user has done to it. -/
def Node.token : Node → Token
  | .text s => .text s
  | .element e => .startTag e.tag e.attrs
  | .close tag => .endTag tag

/-- What is shown in one element, in its order. -/
abbrev Document := List Node

def Node.element? : Node → Option Element
  | .element e => some e
  | _ => none

namespace Document

def elements (d : Document) : List Element := d.filterMap Node.element?

def getElementById (d : Document) (id : Text) : Option Element :=
  d.elements.find? (·.attr "id".toList = some id)

def getElementsByName (d : Document) (name : Text) : List Element :=
  d.elements.filter (·.attr "name".toList = some name)

end Document

/-! ## Collecting the rows -/

/-- What the loop of `updatemems` has collected. -/
structure Collected where
  memosid : Int
  memos : List (Nat × Text)
  newmemos : Text

/-- One turn of the loop; `memotext.value` throws where there is no such element. -/
def collectRow (d : Document) (acc : Collected) (box : Element × Nat) :
    Except Collected Collected :=
  if box.1.checked then
    match d.getElementById ("memotext".toList ++ numeral box.2) with
    | none => .error acc
    | some memotext =>
      let row := newmemoform acc.memosid memotext.value
      .ok ⟨row.1, acc.memos ++ [(box.2, memotext.value)], acc.newmemos ++ row.2⟩
  else .ok acc

/-- The loop of `updatemems`. -/
def collectRows (d : Document) : Except Collected Collected :=
  (d.getElementsByName "memosbox".toList).zipIdx.foldlM (collectRow d) ⟨-1, [], []⟩

/-! ## Rows and their text fields -/

def memotext (memosid : Int) : Text := "memotext".toList ++ intText memosid

def Element.isField (e : Element) : Bool :=
  e.tag = "input".toList ∧ e.attr "type".toList = some "text".toList

namespace Document

/-- The boxes of the rows, in the order of the loop. -/
def boxes (d : Document) : List Element := d.getElementsByName "memosbox".toList

/-- The text fields, in their order. -/
def fields (d : Document) : List Element := d.elements.filter Element.isField

/-- The text of a row, with the number of the row, if its box is checked. -/
def checkedText (row : (Element × Element) × Nat) : Option (Nat × Text) :=
  if row.1.1.checked then some (row.2, row.1.2.value) else none

/-- The texts of the rows whose box is checked. -/
def checkedTexts (d : Document) : List (Nat × Text) :=
  (d.boxes.zip d.fields).zipIdx.filterMap checkedText

/-- The ids of the text fields count the rows, and the id that the loop looks for in a
row is found in this row. -/
structure Aligned (d : Document) : Prop where
  ids : d.fields.map (·.attr "id".toList) =
    (List.range d.fields.length).map fun i : Nat => some (memotext i)
  found : ∀ (i : Nat) box, d.boxes[i]? = some box →
    ∃ e, d.fields[i]? = some e ∧ d.getElementById (memotext i) = some e

end Document

section Collect

variable {d : Document} {acc : Collected} {bs : List Element} {texts : List (Nat × Text)}

/-- The boxes `bs`, of the rows from `start` on, are collected as they are shown. -/
theorem collect_boxes {start : Nat} (h : ∀ (i : Nat) box, bs[i]? = some box →
      ∃ e, d.fields[start + i]? = some e ∧
        d.getElementById (memotext (start + i : Nat)) = some e)
    (htexts : ((bs.zip (d.fields.drop start)).zipIdx start).filterMap Document.checkedText = texts) :
    (bs.zipIdx start).foldlM (collectRow d) acc =
      .ok ⟨(newmemoforms acc.memosid (texts.map (·.2))).1, acc.memos ++ texts,
        acc.newmemos ++ (newmemoforms acc.memosid (texts.map (·.2))).2⟩ := by
  induction bs generalizing start acc texts with
  | nil =>
    obtain rfl : [] = texts := htexts
    simp [newmemoforms, pure, Except.pure]
  | cons box bs ih =>
    obtain ⟨e, hfield, hid⟩ := h 0 box rfl
    rw [Nat.add_zero] at hfield hid
    have hdrop : d.fields.drop start = e :: d.fields.drop (start + 1) := by
      obtain ⟨hlt, heq⟩ := List.getElem?_eq_some_iff.mp hfield
      rw [List.drop_eq_getElem_cons hlt, heq]
    have hrest := fun acc => @ih acc _ (start + 1) (fun i box' hbox => by
      have hnext := h (i + 1) box' (by simpa using hbox)
      rwa [show start + (i + 1) = start + 1 + i by omega] at hnext) rfl
    rw [hdrop, List.zip_cons_cons, List.zipIdx_cons] at htexts
    rw [List.zipIdx_cons, List.foldlM_cons]
    by_cases hbox : box.checked
    · have hrow : collectRow d acc (box, start) =
          .ok ⟨(newmemoform acc.memosid e.value).1, acc.memos ++ [(start, e.value)],
            acc.newmemos ++ (newmemoform acc.memosid e.value).2⟩ := by
        unfold collectRow
        rw [if_pos hbox, show "memotext".toList ++ numeral start = memotext start from rfl, hid]
      have htext : Document.checkedText ((box, e), start) = some (start, e.value) := if_pos hbox
      rw [List.filterMap_cons_some htext] at htexts
      rw [hrow, ← htexts]
      refine (hrest _).trans ?_
      simp only [List.map_cons, newmemoforms, List.append_assoc, List.singleton_append]
    · have hrow : collectRow d acc (box, start) = .ok acc := if_neg hbox
      have htext : Document.checkedText ((box, e), start) = none := if_neg hbox
      rw [List.filterMap_cons_none htext] at htexts
      rw [hrow, ← htexts]
      exact hrest acc

/-- If the rows are aligned, the loop collects them as they are shown, and does not throw. -/
theorem Document.Aligned.collectRows (h : d.Aligned) : collectRows d =
    .ok ⟨(newmemoforms (-1) (d.checkedTexts.map (·.2))).1, d.checkedTexts,
      (newmemoforms (-1) (d.checkedTexts.map (·.2))).2⟩ := by
  refine (@collect_boxes d ⟨-1, [], []⟩ d.boxes _ 0 (fun i box hbox => ?_) rfl).trans ?_
  · simpa using h.found i box hbox
  · simp [checkedTexts]

end Collect

/-! ## The pieces of a row -/

/-- A row up to its text field. -/
def rowHead : List Piece :=
  [.text [' '],
    .startTag "div".toList [("class".toList, some "input-group col-xs-offset-3".toList)],
    .startTag "span".toList [("class".toList, some "input-group-addon".toList)],
    .startTag "input".toList [("type".toList, some "checkbox".toList),
      ("name".toList, some "memosbox".toList), ("checked".toList, none)],
    .endTag "span".toList]

/-- The attributes of the text field before its value. -/
def fieldAttrs (memosid : Int) : List (Text × Option Text) :=
  [("type".toList, some "text".toList), ("id".toList, some (memotext memosid)),
    ("class".toList, some "form-control".toList)]

/-- A row up to the value of its text field. -/
def rowStart (memosid : Int) : Text :=
  write rowHead ++
    (('<' :: "input".toList ++ (fieldAttrs memosid).flatMap writeAttr) ++
      (' ' :: "value".toList ++ ['=', '"']))

/-- A row after the value of its text field. -/
def rowEnd : Text := '"' :: '>' :: (Piece.endTag "div".toList).write

/-- What is read before the text field. -/
def headTokens : List Token :=
  [.startTag "div".toList [("class".toList, "input-group col-xs-offset-3".toList)],
    .startTag "span".toList [("class".toList, "input-group-addon".toList)],
    .startTag "input".toList [("type".toList, "checkbox".toList),
      ("name".toList, "memosbox".toList), ("checked".toList, [])],
    .endTag "span".toList]

/-- The text field as it is read. -/
def fieldTag (memosid : Int) : Tag :=
  ⟨false, "input".toList, [("type".toList, "text".toList), ("id".toList, memotext memosid),
    ("class".toList, "form-control".toList)]⟩

/-- The tags of a row, by its number and the value of its text field. -/
def rowTags (row : Int × Text) : List Token :=
  headTokens ++ [.startTag "input".toList ((fieldTag row.1).attrs ++ [("value".toList, row.2)]),
    .endTag "div".toList]

/-- A row whose text field has a value, after a blank text. -/
def rowTokens (memosid : Int) (value : Text) : List Token :=
  .text [' '] :: rowTags (memosid, value)

section Pieces

variable {E : Entities} {ts : List Token} {memosid : Int}
  {raw memval rest : Text} {c : Char}

theorem rowHead_eq : write rowHead =
    " <div class=\"input-group col-xs-offset-3\"><span class=\"input-group-addon\">".toList ++
      "<input type=\"checkbox\" name=\"memosbox\" checked></span>".toList := by
  simp [write, rowHead, Piece.write, writeAttr]

theorem fieldStart_eq : '<' :: "input".toList ++ writeAttr ("type".toList, some "text".toList) ++
      (' ' :: "id".toList ++ '=' :: '"' :: "memotext".toList) =
    "<input type=\"text\" id=\"memotext".toList := by simp [writeAttr]

theorem fieldEnd_eq : '"' :: (writeAttr ("class".toList, some "form-control".toList) ++
      (' ' :: "value".toList ++ ['=', '"'])) =
    "\" class=\"form-control\" value=\"".toList := by simp [writeAttr]

theorem rowEnd_eq : rowEnd = "\"></div>".toList := by simp [rowEnd, Piece.write]

theorem fieldAttrs_eq : '<' :: "input".toList ++ (fieldAttrs memosid).flatMap writeAttr ++
      (' ' :: "value".toList ++ ['=', '"']) =
    "<input type=\"text\" id=\"memotext".toList ++
      (intText memosid ++ "\" class=\"form-control\" value=\"".toList) := by
  have hsplit : '<' :: "input".toList ++ (fieldAttrs memosid).flatMap writeAttr ++
        (' ' :: "value".toList ++ ['=', '"']) =
      '<' :: "input".toList ++ writeAttr ("type".toList, some "text".toList) ++
        (' ' :: "id".toList ++ '=' :: '"' :: "memotext".toList) ++
      (intText memosid ++ '"' :: (writeAttr ("class".toList, some "form-control".toList) ++
        (' ' :: "value".toList ++ ['=', '"']))) := by
    unfold fieldAttrs memotext
    simp only [List.flatMap_cons, List.flatMap_nil, writeAttr, List.append_assoc,
      List.cons_append, List.nil_append, List.append_nil]
  rw [hsplit, fieldStart_eq, fieldEnd_eq]

theorem newmemoform_eq : newmemoform memosid memval =
    (memosid + 1, rowStart (memosid + 1) ++ (memval ++ rowEnd)) := by
  rw [newmemoform, rowStart, rowHead_eq, fieldAttrs_eq, rowEnd_eq]
  simp only [List.append_assoc]

theorem mem_intText (h : c ∈ intText memosid) : c.isDigit ∨ c = '-' := by
  cases memosid with
  | ofNat n => exact .inl (Nat.isDigit_of_mem_toDigits (by decide) (by decide) h)
  | negSucc n =>
    obtain rfl | h := List.mem_cons.mp h
    · exact .inr rfl
    · exact .inl (Nat.isDigit_of_mem_toDigits (by decide) (by decide) h)

/-- The id of a text field holds nothing that HTML treats in another way. -/
theorem not_mem_memotext (hc : c ∉ "-memotx".toList) (hdigit : c.isDigit = false) :
    c ∉ memotext memosid := by
  intro h
  obtain h | h := List.mem_append.mp h
  · have hall : "memotext".toList ⊆ "-memotx".toList := by simp
    exact hc (hall h)
  · obtain h | rfl := mem_intText h
    · rw [hdigit] at h
      cases h
    · exact hc (by simp)

theorem attrValue_memotext : attrValue E (memotext memosid) = memotext memosid :=
  attrValue_eq_self_of_not_mem (not_mem_memotext (by simp) rfl)
    (not_mem_memotext (by simp) rfl)

theorem rowHead_ok : ∀ p ∈ rowHead, p.Ok := by
  unfold rowHead
  rw [List.forall_mem_cons, List.forall_mem_cons, List.forall_mem_cons, List.forall_mem_cons,
    List.forall_mem_singleton]
  have hspan : IsName "span".toList := by simp [IsName]
  exact ⟨by simp [Piece.Ok], Piece.ok_startTag (by simp [IsName]) (by simp [IsName]),
    Piece.ok_startTag hspan (by simp [IsName]),
    Piece.ok_startTag (by simp [IsName]) (by simp [IsName]), hspan.isTagName⟩

theorem read_rowHead : rowHead.foldl (Piece.read E) (ts, raw) =
      (flush E ts (raw ++ [' ']) ++ headTokens, []) := by
  have hgroup : attrValue E "input-group col-xs-offset-3".toList =
      "input-group col-xs-offset-3".toList :=
    attrValue_eq_self_of_not_mem (by simp) (by simp)
  have haddon : attrValue E "input-group-addon".toList = "input-group-addon".toList :=
    attrValue_eq_self_of_not_mem (by simp) (by simp)
  have htype : attrValue E "checkbox".toList = "checkbox".toList :=
    attrValue_eq_self_of_not_mem (by simp) (by simp)
  have hname : attrValue E "memosbox".toList = "memosbox".toList :=
    attrValue_eq_self_of_not_mem (by simp) (by simp)
  have hread : rowHead.foldl (Piece.read E) (ts, raw) =
      (flush E ts (raw ++ [' ']) ++
        [.startTag "div".toList [("class".toList, attrValue E "input-group col-xs-offset-3".toList)]] ++
        [.startTag "span".toList [("class".toList, attrValue E "input-group-addon".toList)]] ++
        [.startTag "input".toList [("type".toList, attrValue E "checkbox".toList),
          ("name".toList, attrValue E "memosbox".toList),
          ("checked".toList, attrValue E [])]] ++
        [.endTag "span".toList], []) := rfl
  rw [hread, hgroup, haddon, htype, hname]
  simp [headTokens]

theorem read_fieldAttrs : (fieldAttrs memosid).foldl (readTag E) ⟨false, "input".toList, []⟩ =
    fieldTag memosid := by
  have htype : attrValue E "text".toList = "text".toList :=
    attrValue_eq_self_of_not_mem (by simp) (by simp)
  have hclass : attrValue E "form-control".toList = "form-control".toList :=
    attrValue_eq_self_of_not_mem (by simp) (by simp)
  have hread : (fieldAttrs memosid).foldl (readTag E) ⟨false, "input".toList, []⟩ =
      ⟨false, "input".toList, [("type".toList, attrValue E "text".toList),
        ("id".toList, attrValue E (memotext memosid)),
        ("class".toList, attrValue E "form-control".toList)]⟩ := rfl
  rw [hread, htype, hclass, attrValue_memotext]
  rfl

theorem fieldAttrs_ok : (Piece.startTag "input".toList (fieldAttrs memosid)).Ok := by
  refine Piece.ok_startTag (by simp [IsName]) ?_
  unfold fieldAttrs
  rw [List.forall_mem_cons, List.forall_mem_cons, List.forall_mem_singleton]
  have hname : IsName "id".toList := by simp [IsName]
  refine ⟨by simp [IsName], ⟨hname, fun raw hraw => ?_⟩, by simp [IsName]⟩
  obtain rfl := Option.some.inj hraw
  exact not_mem_memotext (by simp) rfl

/-- The reading of a row up to the value of its text field. -/
theorem feeds_rowStart :
    feeds E ⟨ts, .data raw⟩ (rowStart memosid) =
      ⟨flush E ts (raw ++ [' ']) ++ headTokens,
        .quoted '"' (fieldTag memosid) "value".toList []⟩ := by
  rw [rowStart, feeds_append, feeds_write rowHead_ok, read_rowHead,
    feeds_openValue fieldAttrs_ok (by simp [IsName]), read_fieldAttrs]
  rfl

/-- A text field whose value holds no quotation mark. -/
theorem feeds_field (hquote : '"' ∉ memval) :
    feeds E ⟨ts, .quoted '"' (fieldTag memosid) "value".toList []⟩ (memval ++ rowEnd) =
      ⟨ts ++ [.startTag "input".toList ((fieldTag memosid).attrs ++
        [("value".toList, attrValue E memval)]), .endTag "div".toList], .data []⟩ := by
  have hopen : feeds E ⟨ts, .quoted '"' (fieldTag memosid) "value".toList memval⟩ ['"', '>'] =
      ⟨ts ++ [.startTag "input".toList ((fieldTag memosid).attrs ++
        [("value".toList, attrValue E memval)])], .data []⟩ := rfl
  have hend : rowEnd = ['"', '>'] ++ (Piece.endTag "div".toList).write := rfl
  rw [feeds_append, feeds_quoted hquote, List.nil_append, hend, feeds_append, hopen,
    feeds_endTag (IsName.isTagName (by simp [IsName]))]
  simp [flush, addText]

/-- A row is read as a row if its note holds no quotation mark. -/
theorem feeds_row (hquote : '"' ∉ memval) :
    feeds E ⟨ts, .data raw⟩ (rowStart memosid ++ (memval ++ rowEnd)) =
      ⟨flush E ts (raw ++ [' ']) ++ rowTags (memosid, attrValue E memval), .data []⟩ := by
  rw [feeds_append, feeds_rowStart, feeds_field hquote, rowTags, List.append_assoc]

theorem return_not_mem_rowStart : '\r' ∉ rowStart memosid := by
  have hhead : '\r' ∉ write rowHead := by simp [write, rowHead, Piece.write, writeAttr]
  have hid : '\r' ∉ intText memosid := fun hmem => by
    obtain hdigit | heq := mem_intText hmem
    · exact absurd hdigit (by decide)
    · exact absurd heq (by decide)
  rw [rowStart, fieldAttrs_eq, List.mem_append, List.mem_append, List.mem_append, not_or, not_or,
    not_or]
  exact ⟨hhead, by simp, hid, by simp⟩

/-- The line ends of a note stay within its row. -/
theorem normalize_newmemoform_append : normalize ((newmemoform memosid memval).2 ++ rest) =
    rowStart (memosid + 1) ++ (normalize memval ++ rowEnd) ++ normalize rest := by
  have hrest : (rowEnd ++ rest).head? ≠ some '\n' := by simp [rowEnd]
  have hreturn : '\r' ∉ rowEnd := by simp [rowEnd, Piece.write]
  rw [newmemoform_eq, List.append_assoc, List.append_assoc,
    normalize_append_left return_not_mem_rowStart, normalize_append hrest,
    normalize_append_left hreturn, List.append_assoc, List.append_assoc]

theorem normalize_newmemoform : normalize (newmemoform memosid memval).2 =
    rowStart (memosid + 1) ++ (normalize memval ++ rowEnd) := by
  have hnil : normalize [] = [] := rfl
  have happend := @normalize_newmemoform_append memosid memval []
  rwa [List.append_nil, hnil, List.append_nil] at happend

/-- The rows of notes with the numbers they get. -/
def numbered (memosid : Int) : List Text → List (Int × Text)
  | [] => []
  | value :: values => (memosid + 1, value) :: numbered (memosid + 1) values

/-- The rows of notes without quotation marks are read as rows. -/
theorem feeds_newmemoforms {memvals : List Text} (h : ∀ memval ∈ memvals, '"' ∉ memval) :
    feeds E ⟨ts, .data []⟩ (normalize (newmemoforms memosid memvals).2) =
      ⟨ts ++ (numbered memosid (memvals.map fun memval => attrValue E (normalize memval))).flatMap
        fun row => rowTokens row.1 row.2, .data []⟩ := by
  induction memvals generalizing ts memosid with
  | nil => simp [newmemoforms, numbered, Html.normalize, normalizeFrom]
  | cons memval memvals ih =>
    obtain ⟨hquote, hrest⟩ := List.forall_mem_cons.mp h
    have hquote' : '"' ∉ normalize memval := fun hmem =>
      hquote (mem_of_mem_normalize (by decide) hmem)
    have hflush : flush E ts [' '] = ts ++ [.text [' ']] := rfl
    have hnext : (newmemoform memosid memval).1 = memosid + 1 := rfl
    rw [newmemoforms]
    simp only [hnext]
    rw [normalize_newmemoform_append, feeds_append, feeds_row hquote', List.nil_append, hflush,
      ih hrest]
    simp [numbered, rowTokens]

end Pieces

/-! ## Documents made of rows -/

def boxShape : Text × List Attr :=
  ("input".toList, [("type".toList, "checkbox".toList), ("name".toList, "memosbox".toList),
    ("checked".toList, [])])

def fieldShape (row : Int × Text) : Text × List Attr :=
  ("input".toList, (fieldTag row.1).attrs ++ [("value".toList, row.2)])

/-- The elements of a row. -/
def rowElements (row : Int × Text) : List (Text × List Attr) :=
  [("div".toList, [("class".toList, "input-group col-xs-offset-3".toList)]),
    ("span".toList, [("class".toList, "input-group-addon".toList)]), boxShape, fieldShape row]

def Element.shape (e : Element) : Text × List Attr := (e.tag, e.attrs)

section Shape

variable {d : Document} {es : List Element} {rows : List (Int × Text)} {row : Int × Text}
  {e : Element} {k l : Int} {name : Text}

theorem attr_of_shape {tag : Text} {attrs : List Attr} (h : e.shape = (tag, attrs)) :
    e.attr name = (attrs.find? (·.1 = name)).map (·.2) := by
  obtain ⟨-, rfl⟩ := Prod.mk.inj h
  rfl

theorem isField_of_shape {tag : Text} {attrs : List Attr} (h : e.shape = (tag, attrs)) :
    e.isField = decide (tag = "input".toList ∧
      (attrs.find? (·.1 = "type".toList)).map (·.2) = some "text".toList) := by
  obtain ⟨rfl, rfl⟩ := Prod.mk.inj h
  rfl

theorem value_of_shape {tag : Text} {attrs : List Attr} (h : e.shape = (tag, attrs))
    (hfresh : e = .load e.tag e.attrs) :
    e.value = fieldValue (((attrs.find? (·.1 = "value".toList)).map (·.2)).getD []) ∧
      e.checked = decide (tag = "input".toList ∧ attrs.any (·.1 = "checked".toList)) := by
  obtain ⟨rfl, rfl⟩ := Prod.mk.inj h
  rw [hfresh]
  exact ⟨rfl, rfl⟩

/-- Of the four elements of a row the loop knows the box and the text field. -/
theorem shape_cons (h : es.map Element.shape = (row :: rows).flatMap rowElements) :
    ∃ (box field : Element) (rest : List Element),
      rest.map Element.shape = rows.flatMap rowElements ∧ (∀ e ∈ box :: field :: rest, e ∈ es) ∧
      box.shape = boxShape ∧ field.shape = fieldShape row ∧
      es.filter Element.isField = field :: rest.filter Element.isField ∧
      es.filter (·.attr "name".toList = some "memosbox".toList) =
        box :: rest.filter (·.attr "name".toList = some "memosbox".toList) ∧
      ∀ id, es.find? (·.attr "id".toList = some id) =
        if memotext row.1 = id then some field else rest.find? (·.attr "id".toList = some id) := by
  obtain ⟨e₁, es₁, rfl, h₁, h⟩ := List.map_eq_cons_iff.mp h
  obtain ⟨e₂, es₂, rfl, h₂, h⟩ := List.map_eq_cons_iff.mp h
  obtain ⟨box, es₃, rfl, h₃, h⟩ := List.map_eq_cons_iff.mp h
  obtain ⟨field, rest, rfl, h₄, h⟩ := List.map_eq_cons_iff.mp h
  have hid : field.attr "id".toList = some (memotext row.1) := (attr_of_shape h₄).trans rfl
  have hid₁ : e₁.attr "id".toList = none := (attr_of_shape h₁).trans rfl
  have hid₂ : e₂.attr "id".toList = none := (attr_of_shape h₂).trans rfl
  have hid₃ : box.attr "id".toList = none := (attr_of_shape h₃).trans rfl
  have hname₁ : e₁.attr "name".toList = none := (attr_of_shape h₁).trans rfl
  have hname₂ : e₂.attr "name".toList = none := (attr_of_shape h₂).trans rfl
  have hname₃ : box.attr "name".toList = some "memosbox".toList := (attr_of_shape h₃).trans rfl
  have hname₄ : field.attr "name".toList = none := (attr_of_shape h₄).trans rfl
  have hfield₁ : e₁.isField = false := (isField_of_shape h₁).trans rfl
  have hfield₂ : e₂.isField = false := (isField_of_shape h₂).trans rfl
  have hfield₃ : box.isField = false := (isField_of_shape h₃).trans rfl
  have hfield₄ : field.isField = true := (isField_of_shape h₄).trans rfl
  have hmem : ∀ e ∈ box :: field :: rest, e ∈ e₁ :: e₂ :: box :: field :: rest := fun e he =>
    List.mem_cons_of_mem _ (List.mem_cons_of_mem _ he)
  refine ⟨box, field, rest, h, hmem, h₃, h₄, ?_, ?_, fun id => ?_⟩
  · simp only [List.filter_cons, hfield₁, hfield₂, hfield₃, hfield₄, if_true, Bool.false_eq_true,
      if_false]
  · simp only [List.filter_cons, hname₁, hname₂, hname₃, hname₄, decide_true, if_true, reduceCtorEq,
      decide_false, Bool.false_eq_true, if_false]
  · simp only [List.find?_cons, hid₁, hid₂, hid₃, hid, reduceCtorEq, decide_false, Option.some.injEq]
    by_cases heq : memotext row.1 = id <;> simp [heq]

theorem intText_injective (h : intText k = intText l) : k = l := by
  have hminus : ∀ n, '-' ∉ numeral n := fun n hmem =>
    absurd (Nat.isDigit_of_mem_toDigits (by decide) (by decide) hmem) (by decide)
  cases k with
  | ofNat m =>
    cases l with
    | ofNat n => rw [Script.numeral_injective h]
    | negSucc n =>
      refine absurd ?_ (hminus m)
      rw [show numeral m = '-' :: numeral (n + 1) from h]
      exact List.mem_cons_self
  | negSucc m =>
    cases l with
    | ofNat n =>
      refine absurd ?_ (hminus n)
      rw [← show '-' :: numeral (m + 1) = numeral n from h]
      exact List.mem_cons_self
    | negSucc n =>
      have heq : m + 1 = n + 1 := Script.numeral_injective (List.cons.inj h).2
      rw [Nat.succ.inj heq]

theorem memotext_injective (h : memotext k = memotext l) : k = l :=
  intText_injective (List.append_cancel_left h)

/-- The loop sees the ids of the rows, and a box in each row. -/
theorem rows_of_shape (h : es.map Element.shape = rows.flatMap rowElements) :
    (es.filter Element.isField).map (·.attr "id".toList) =
        rows.map (fun row => some (memotext row.1)) ∧
      (es.filter (·.attr "name".toList = some "memosbox".toList)).length = rows.length ∧
      ∀ id, es.find? (·.attr "id".toList = some id) =
        (es.filter Element.isField).find? (·.attr "id".toList = some id) := by
  induction rows generalizing es with
  | nil =>
    obtain rfl := List.map_eq_nil_iff.mp h
    exact ⟨rfl, rfl, fun id => rfl⟩
  | cons row rows ih =>
    obtain ⟨box, field, rest, hrest, -, -, hfield, hfields, hboxes, hfind⟩ := shape_cons h
    obtain ⟨hids, hlength, hfind'⟩ := ih hrest
    have hid : field.attr "id".toList = some (memotext row.1) := (attr_of_shape hfield).trans rfl
    refine ⟨?_, ?_, fun id => ?_⟩
    · rw [hfields, List.map_cons, hid, hids, List.map_cons]
    · rw [hboxes, List.length_cons, hlength, List.length_cons]
    · rw [hfind, hfields, List.find?_cons, hid, hfind']
      by_cases heq : memotext row.1 = id <;> simp [heq]

/-- In rows that were just created every box is checked, and each text field has the text
that was put into its value. -/
theorem fresh_of_shape (h : es.map Element.shape = rows.flatMap rowElements)
    (hfresh : ∀ e ∈ es, e = .load e.tag e.attrs) :
    (∀ box ∈ es.filter (·.attr "name".toList = some "memosbox".toList), box.checked = true) ∧
      (es.filter Element.isField).map (·.value) = rows.map fun row => fieldValue row.2 := by
  induction rows generalizing es with
  | nil =>
    obtain rfl := List.map_eq_nil_iff.mp h
    exact ⟨fun box hbox => (by cases hbox), rfl⟩
  | cons row rows ih =>
    obtain ⟨box, field, rest, hrest, hmem, hbox, hfield, hfields, hboxes, -⟩ := shape_cons h
    obtain ⟨hchecked, hvalues⟩ := ih hrest fun e he => hfresh e (hmem e (by simp [he]))
    have hboxChecked : box.checked = true :=
      (value_of_shape hbox (hfresh box (hmem box (by simp)))).2.trans rfl
    have hfieldValue : field.value = fieldValue row.2 :=
      (value_of_shape hfield (hfresh field (hmem field (by simp)))).1.trans rfl
    constructor
    · rw [hboxes]
      exact List.forall_mem_cons.mpr ⟨hboxChecked, hchecked⟩
    · rw [hfields, List.map_cons, hfieldValue, hvalues, List.map_cons]

/-- The ids of the first `n` rows. -/
theorem find_of_ids {fields : List Element} {n : Nat}
    (h : fields.map (·.attr "id".toList) = (List.range n).map fun i : Nat => some (memotext i))
    {i : Nat} (hi : i < n) : ∃ e, fields[i]? = some e ∧
      fields.find? (·.attr "id".toList = some (memotext i)) = some e := by
  have hlength : fields.length = n := by simpa using congrArg List.length h
  have hid : ∀ (j : Nat) (hj : j < fields.length),
      fields[j].attr "id".toList = some (memotext j) := fun j hj => by
    have hget := congrArg (·[j]?) h
    simpa [hj, hlength ▸ hj] using hget
  have hi' : i < fields.length := hlength ▸ hi
  refine ⟨fields[i], List.getElem?_eq_getElem hi', List.find?_eq_some_iff_getElem.mpr
    ⟨decide_eq_true (hid i hi'), i, hi', rfl, fun j hj => ?_⟩⟩
  rw [hid j (hj.trans hi')]
  have hne : (j : Int) ≠ i := by omega
  simpa using fun heq => hne (memotext_injective heq)

/-- Rows are aligned if and only if they are numbered from 0 on. -/
theorem aligned_iff_of_shape (h : d.elements.map Element.shape = rows.flatMap rowElements) :
    d.Aligned ↔ rows.map (·.1) = (List.range rows.length).map fun i : Nat => (i : Int) := by
  obtain ⟨hids, hboxes, hfind⟩ := rows_of_shape h
  have hids' : d.fields.map (·.attr "id".toList) =
      (rows.map (·.1)).map fun k => some (memotext k) := by
    rw [List.map_map]
    exact hids
  have hlength : d.fields.length = rows.length := by
    simpa using congrArg List.length hids'
  have hinjective : Function.Injective fun k => some (memotext k) :=
    fun k l heq => memotext_injective (Option.some.inj heq)
  constructor
  · intro haligned
    refine List.map_injective_iff.mpr hinjective ?_
    rw [← hids', haligned.ids, hlength, List.map_map]
    rfl
  · intro hrange
    have hnumbered : d.fields.map (·.attr "id".toList) =
        (List.range rows.length).map fun i : Nat => some (memotext i) := by
      rw [hids', hrange, List.map_map]
      rfl
    refine ⟨hlength ▸ hnumbered, fun i box hbox => ?_⟩
    have hi : i < rows.length := hboxes ▸ (List.getElem?_eq_some_iff.mp hbox).1
    obtain ⟨e, he, hfound⟩ := find_of_ids hnumbered hi
    exact ⟨e, he, (hfind _).trans hfound⟩

end Shape

/-! ## Rows that are read -/

def Token.shape? : Token → Option (Text × List Attr)
  | .startTag name attrs => some (name, attrs)
  | _ => none

section Read

variable {d : Document} {ts : List Token} {rows : List (Int × Text)} {memosid : Int}
  {values : List Text}

theorem elements_shape : d.elements.map Element.shape = (d.map Node.token).filterMap Token.shape? := by
  induction d with
  | nil => rfl
  | cons node d ih =>
    cases node with
    | text s => exact ih
    | close tag => exact ih
    | element e => exact congrArg (e.shape :: ·) ih

theorem token_load : (ts.map Node.load).map Node.token = ts := by
  rw [List.map_map]
  refine (List.map_congr_left fun t _ => ?_).trans (List.map_id ts)
  cases t <;> rfl

theorem elements_load :
    (Document.elements (ts.map Node.load)).map Element.shape = ts.filterMap Token.shape? := by
  rw [elements_shape, token_load]

theorem fresh_load : ∀ e ∈ Document.elements (ts.map Node.load), e = .load e.tag e.attrs := by
  intro e he
  obtain ⟨node, hnode, he⟩ := List.mem_filterMap.mp he
  obtain ⟨t, -, rfl⟩ := List.mem_map.mp hnode
  cases t with
  | startTag name attrs =>
    obtain rfl := Option.some.inj he
    rfl
  | text s => cases he
  | endTag name => cases he

theorem shape_rowTokens : (rows.flatMap fun row => rowTokens row.1 row.2).filterMap Token.shape? =
    rows.flatMap rowElements := by
  induction rows with
  | nil => rfl
  | cons row rows ih =>
    rw [List.flatMap_cons, List.filterMap_append, ih]
    rfl

theorem numbered_map_fst : (numbered (-1) values).map (·.1) =
    (List.range values.length).map fun i : Nat => (i : Int) := by
  suffices hfrom : ∀ (n : Nat), (numbered (n - 1) values).map (·.1) =
      (List.range' n values.length).map fun i : Nat => (i : Int) by
    rw [List.range_eq_range']
    exact hfrom 0
  induction values with
  | nil => exact fun n => rfl
  | cons value values ih =>
    intro n
    have hnext := ih (n + 1)
    rw [show ((n + 1 : Nat) : Int) - 1 = n by omega] at hnext
    have hfirst : (n : Int) - 1 + 1 = n := by omega
    rw [numbered, hfirst, List.map_cons, hnext, List.length_cons, List.range'_succ, List.map_cons]

theorem numbered_length : (numbered memosid values).length = values.length := by
  induction values generalizing memosid with
  | nil => rfl
  | cons value values ih => simp [numbered, ih]

theorem numbered_map_snd : (numbered memosid values).map (·.2) = values := by
  induction values generalizing memosid with
  | nil => rfl
  | cons value values ih => simp [numbered, ih]

end Read

end SmartDoor.Router.Pages
