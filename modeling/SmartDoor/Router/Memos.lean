-- SUMMARY: The form of notes of one page over any clicks and answers, and when the ids of its rows are their positions.
import SmartDoor.Base.Reread
import SmartDoor.Router.Notes
import SmartDoor.Router.Rows

/-!
# The form of notes

`memosid` gives each new row its id: a click on Update starts it anew, and so does
the loading of the page. The rows of an answer are counted on from where it
stands. What the browser does with the source of the form is known for rows only.
-/

namespace SmartDoor.Router.Pages

open Script (Text)
open Html
open Transition

/-! ## The browser -/

/-- Texts, fields, and groups that are closed in turn. -/
def nested : List Text → List Token → Bool
  | opened, [] => opened.isEmpty
  | opened, .text _ :: ts => nested opened ts
  | opened, .startTag name _ :: ts =>
    if name = "input".toList then nested opened ts
    else if name = "div".toList ∨ name = "span".toList then nested (name :: opened) ts
    else false
  | [], .endTag _ :: _ => false
  | top :: opened, .endTag name :: ts => if name = top then nested opened ts else false

/-- Of such tokens the tree has the order of the source, and nothing is moved or added. -/
def Plain (ts : List Token) : Prop := nested [] ts = true

/-- The setter and the getter of `innerHTML`. -/
structure Browser where
  entities : Entities
  parse : Text → Document
  source : Document → Text
  parse_plain : ∀ {html ts}, tokenize entities html = some ts → Plain ts →
    parse html = ts.map Node.load
  source_plain : ∀ {d : Document}, Plain (d.map Node.token) →
    source d = serialize (d.map Node.token)

/-- The tokens themselves, without a tree. -/
def Browser.flat (E : Entities) : Browser where
  entities := E
  parse html := ((tokenize E html).getD []).map Node.load
  source d := serialize (d.map Node.token)
  parse_plain h _ := congrArg (fun ts => (Option.getD ts []).map Node.load) h
  source_plain _ := rfl

/-! ## The page -/

structure Page where
  memosid : Int
  memos : Json
  form : Document
  /-- How many requests for the notes have not been answered. -/
  requests : Nat
  /-- The notes that were posted. -/
  posts : List Json

/-- The page is loaded; its form holds blanks. -/
def Page.start : Page := ⟨-1, .obj [], [.text "\n\n\n     ".toList], 0, []⟩

inductive Action where
  /-- The user clicks New. -/
  | newmemo
  /-- The user clicks Update. -/
  | updatememo
  /-- The user checks or unchecks the box at this place of the form. -/
  | check (k : Nat) (checked : Bool)
  /-- The user changes the text of the field at this place. -/
  | enter (k : Nat) (value : Text)
  | refsite
  /-- A request for the notes is answered. -/
  | notes (data : Content Json)

/-- The code units of a character; what has no character of its own is shown as `�`. -/
def codeUnits (c : Char) : Text := if c.toNat < 65536 then [c] else ['\ufffd', '\ufffd']

/-- The texts of `memos[key]` in the order of `for (key in memos)`. -/
def forIn : Json → List Text
  | .obj props => props.map (·.2.text.toList)
  | .arr elems => elems.map (·.text.toList)
  | .str s => (s.toList.flatMap codeUnits).map ([·])
  | _ => []

def Element.isBox (e : Element) : Bool :=
  e.tag = "input".toList ∧ e.attr "type".toList = some "checkbox".toList

/-- The map `memos` of the rows that were collected. -/
def Collected.json (acc : Collected) : Json :=
  .obj (acc.memos.map fun memo => (memo.1.repr, .str (String.ofList memo.2)))

namespace Page

variable (b : Browser) (p : Page)

def newmemo : Page :=
  let row := newmemoform p.memosid []
  { p with memosid := row.1, form := b.parse (b.source p.form ++ row.2) }

/-- If the loop throws, the form stays, and nothing is posted. -/
def updatemems : Page :=
  match collectRows p.form with
  | .ok acc =>
    { p with memosid := acc.memosid, memos := acc.json, form := b.parse acc.newmemos,
             posts := p.posts ++ [acc.json] }
  | .error acc => { p with memosid := acc.memosid, memos := acc.json }

/-- The user does `f` to the element at the place `k`. -/
def change (k : Nat) (kind : Element → Bool) (f : Element → Element) : Option Page :=
  match p.form[k]? with
  | some (.element e) => if kind e then some { p with form := p.form.set k (.element (f e)) } else none
  | _ => none

/-- The request for the notes. -/
def refsite : Page := if Notes.noKeys p.memos then { p with requests := p.requests + 1 } else p

/-- The callback; `JSON.parse` throws on an empty file, and there is none on an error. -/
def onNotes : Content Json → Page
  | .missing => p
  | .blank => p
  | .text memos =>
    let rows := newmemoforms p.memosid (forIn memos)
    { p with memosid := rows.1, memos := memos, form := b.parse rows.2 }

def step : Action → Option Page
  | .newmemo => some (p.newmemo b)
  | .updatememo => some (p.updatemems b)
  | .check k checked => p.change k Element.isBox fun e => { e with checked := checked }
  | .enter k value => p.change k Element.isField fun e => { e with value := fieldValue value }
  | .refsite => some p.refsite
  | .notes data =>
    if p.requests = 0 then none else some ({ p with requests := p.requests - 1 }.onNotes b data)

end Page

/-- In every state of the run the rows are aligned. -/
def AlwaysAligned (b : Browser) (as : List Action) : Prop :=
  ∀ pre p, pre <+: as → run (Page.step b) .start pre = some p → p.form.Aligned

/-! ## The condition -/

/-- `memosid` is the number of the last row when a row is added, and there are no rows
counted when the rows of an answer are shown. -/
def Counts (p : Page) : Action → Prop
  | .newmemo => p.memosid + 1 = p.form.boxes.length
  | .notes (.text memos) => forIn memos ≠ [] → p.memosid = -1
  | _ => True

/-- The texts of the rows that are shown anew. -/
def shownAnew (p : Page) : Action → List Text
  | .updatememo => p.form.checkedTexts.map (·.2)
  | .notes (.text memos) => forIn memos
  | _ => []

/-- The text keeps to its row: it adds no tag and leaves none open, and its text field gets
no attribute but the value. A further one could be a handler that changes `memosid`. -/
def Contained (E : Entities) (memval : Text) : Prop :=
  ∀ memosid, ∃ ts value,
    feeds E ⟨[], .data []⟩ (normalize (newmemoform memosid memval).2) = ⟨ts, .data []⟩ ∧
      tags ts = rowTags (memosid + 1, value)

/-- Every text that is shown anew keeps to its row. -/
def Contains (b : Browser) (p : Page) (a : Action) : Prop :=
  ∀ memval ∈ shownAnew p a, Contained b.entities memval

instance {p : Page} : ∀ a, Decidable (Counts p a)
  | .newmemo => inferInstanceAs (Decidable (p.memosid + 1 = p.form.boxes.length))
  | .notes (.text memos) => inferInstanceAs (Decidable (forIn memos ≠ [] → p.memosid = -1))
  | .notes .missing => isTrue trivial
  | .notes .blank => isTrue trivial
  | .updatememo => isTrue trivial
  | .check _ _ => isTrue trivial
  | .enter _ _ => isTrue trivial
  | .refsite => isTrue trivial

/-! ## Forms made of rows -/

/-- Apart from texts, the form has these rows. -/
structure Shows (d : Document) (rows : List (Int × Text)) : Prop where
  tags : tags (d.map Node.token) = rows.flatMap rowTags
  good : ∀ t ∈ d.map Node.token, t.Good

section Rows

variable {E : Entities} {b : Browser} {d : Document} {rows : List (Int × Text)}
  {row : Int × Text} {ts us : List Token} {opened : List Text} {name memval rest : Text}
  {attrs : List Attr} {k : Int} {values : List Text}

/-! ## Their elements -/

theorem shape_tags : ts.filterMap Token.shape? = (tags ts).filterMap Token.shape? := by
  induction ts with
  | nil => rfl
  | cons t ts ih =>
    cases t with
    | text s => exact ih
    | startTag name attrs => exact congrArg ((name, attrs) :: ·) ih
    | endTag name => exact ih

theorem shape_rowTags : (rows.flatMap rowTags).filterMap Token.shape? = rows.flatMap rowElements := by
  induction rows with
  | nil => rfl
  | cons row rows ih =>
    rw [List.flatMap_cons, List.filterMap_append, ih]
    rfl

theorem Shows.shape (h : Shows d rows) :
    d.elements.map Element.shape = rows.flatMap rowElements := by
  rw [elements_shape, shape_tags, h.tags, shape_rowTags]

theorem Shows.aligned_iff (h : Shows d rows) :
    d.Aligned ↔ rows.map (·.1) = (List.range rows.length).map fun i : Nat => (i : Int) :=
  aligned_iff_of_shape h.shape

theorem Shows.boxes_length (h : Shows d rows) : d.boxes.length = rows.length :=
  (rows_of_shape h.shape).2.1

/-! ## Their source -/

theorem nested_tags : nested opened ts = nested opened (tags ts) := by
  induction ts generalizing opened with
  | nil => rfl
  | cons t ts ih =>
    cases t with
    | text s => exact ih
    | startTag name attrs =>
      have htags : tags (.startTag name attrs :: ts) = .startTag name attrs :: tags ts := rfl
      rw [htags, nested, nested, ih, ih]
    | endTag name =>
      have htags : tags (.endTag name :: ts) = .endTag name :: tags ts := rfl
      cases opened with
      | nil => rfl
      | cons top opened => rw [htags, nested, nested, ih]

theorem nested_input : nested opened (.startTag "input".toList attrs :: ts) = nested opened ts :=
  if_pos rfl

theorem nested_group (hinput : name ≠ "input".toList)
    (hgroup : name = "div".toList ∨ name = "span".toList) :
    nested opened (.startTag name attrs :: ts) = nested (name :: opened) ts := by
  rw [nested, if_neg hinput, if_pos hgroup]

theorem nested_endTag : nested (name :: opened) (.endTag name :: ts) = nested opened ts := if_pos rfl

theorem nested_rowTags : nested opened (rowTags row ++ ts) = nested opened ts := by
  have htags : rowTags row ++ ts =
      .startTag "div".toList [("class".toList, "input-group col-xs-offset-3".toList)] ::
      .startTag "span".toList [("class".toList, "input-group-addon".toList)] ::
      .startTag "input".toList boxShape.2 :: .endTag "span".toList ::
      .startTag "input".toList (fieldShape row).2 :: .endTag "div".toList :: ts := rfl
  rw [htags, nested_group (by simp) (.inl rfl), nested_group (by simp) (.inr rfl), nested_input,
    nested_endTag, nested_input, nested_endTag]

theorem plain_of_tags (h : tags ts = rows.flatMap rowTags) : Plain ts := by
  rw [Plain, nested_tags, h]
  clear h
  induction rows with
  | nil => rfl
  | cons row rows ih => rw [List.flatMap_cons, nested_rowTags, ih]

/-- A source whose tags are those of rows is shown as rows. -/
theorem shows_parse {html : Text} (htokenize : tokenize b.entities html = some ts)
    (htags : tags ts = rows.flatMap rowTags) : Shows (b.parse html) rows := by
  rw [b.parse_plain htokenize (plain_of_tags htags)]
  constructor
  case tags => rw [token_load, htags]
  case good =>
    rw [token_load]
    exact good_tokenize htokenize

theorem rereadAttr_eq_self {value : Text} (h : ∀ c ∈ value, c ≠ '&' ∧ c ≠ '\u00a0' ∧ c ≠ '<' ∧
    c ≠ '>' ∧ c ≠ '"') (hnul : '\x00' ∉ value) (hreturn : '\r' ∉ value) :
    rereadAttr E (name, value) = (name, value) := by
  have hamp : '&' ∉ value := fun hmem => (h _ hmem).1 rfl
  rw [rereadAttr, escape_eq_self h, normalize_eq_self hreturn,
    attrValue_eq_self_of_not_mem hamp hnul]

theorem rereadAttr_id : rereadAttr E (name, memotext k) = (name, memotext k) := by
  refine rereadAttr_eq_self (fun c hc => ?_) (not_mem_memotext (by simp) rfl)
    (not_mem_memotext (by simp) rfl)
  refine ⟨?_, ?_, ?_, ?_, ?_⟩ <;> rintro rfl <;> exact not_mem_memotext (by simp) rfl hc

theorem reread_headTokens : headTokens.map (Token.reread E) = headTokens := by
  have hread : headTokens.map (Token.reread E) =
      [.startTag "div".toList [rereadAttr E ("class".toList, "input-group col-xs-offset-3".toList)],
        .startTag "span".toList [rereadAttr E ("class".toList, "input-group-addon".toList)],
        .startTag "input".toList [rereadAttr E ("type".toList, "checkbox".toList),
          rereadAttr E ("name".toList, "memosbox".toList), rereadAttr E ("checked".toList, [])],
        .endTag "span".toList] := rfl
  rw [hread, rereadAttr_eq_self (by simp) (by simp) (by simp),
    rereadAttr_eq_self (by simp) (by simp) (by simp),
    rereadAttr_eq_self (by simp) (by simp) (by simp),
    rereadAttr_eq_self (by simp) (by simp) (by simp),
    rereadAttr_eq_self (by simp) (by simp) (by simp)]
  rfl

theorem reread_fieldTag : (fieldTag k).attrs.map (rereadAttr E) = (fieldTag k).attrs := by
  have hread : (fieldTag k).attrs.map (rereadAttr E) =
      [rereadAttr E ("type".toList, "text".toList), rereadAttr E ("id".toList, memotext k),
        rereadAttr E ("class".toList, "form-control".toList)] := rfl
  rw [hread, rereadAttr_id, rereadAttr_eq_self (by simp) (by simp) (by simp),
    rereadAttr_eq_self (by simp) (by simp) (by simp)]
  rfl

/-- A row with its value as it is written and read. -/
def rereadRow (E : Entities) (row : Int × Text) : Int × Text :=
  (row.1, (rereadAttr E ("value".toList, row.2)).2)

theorem reread_rowTags : (rowTags row).map (Token.reread E) = rowTags (rereadRow E row) := by
  have hfield : ((fieldTag row.1).attrs ++ [("value".toList, row.2)]).map (rereadAttr E) =
      (fieldTag (rereadRow E row).1).attrs ++ [("value".toList, (rereadRow E row).2)] := by
    rw [List.map_append, reread_fieldTag]
    rfl
  rw [rowTags, List.map_append, reread_headTokens, rowTags, ← hfield]
  rfl

theorem reread_rows :
    (rows.flatMap rowTags).map (Token.reread E) = (rows.map (rereadRow E)).flatMap rowTags := by
  rw [List.map_flatMap, List.flatMap_map]
  exact List.flatMap_congr fun row _ => reread_rowTags

theorem tags_rowTags : tags (rowTags row) = rowTags row := rfl

/-- A new row comes after those that are shown. -/
theorem tokenize_newmemo (htags : tags ts = rows.flatMap rowTags) (hgood : ∀ t ∈ ts, t.Good) :
    ∃ us, tokenize E (serialize ts ++ (newmemoform k []).2) = some us ∧ tags us =
      (rows.map (rereadRow E) ++ [(k + 1, [])]).flatMap rowTags := by
  have hhead : (newmemoform k []).2.head? ≠ some '\n' := by
    have hspace : (rowStart (k + 1) ++ ([] ++ rowEnd)).head? = some ' ' := rfl
    rw [newmemoform_eq, hspace]
    decide
  obtain ⟨us, raw, hfeeds, hus⟩ := @feeds_serialize E ts [] [] _ false hgood hhead
  have hvalue : attrValue E [] = [] := rfl
  refine ⟨flush E us (raw ++ [' ']) ++ rowTags (k + 1, []), ?_, ?_⟩
  · have hsource : tokenize E (serialize ts ++ (newmemoform k []).2) = finish E (feeds E
        ⟨[], .data []⟩ (normalizeFrom false (serialize ts ++ (newmemoform k []).2))) := rfl
    have hnil : normalize [] = [] := rfl
    rw [hsource, hfeeds, normalize_newmemoform, hnil, feeds_row List.not_mem_nil, hvalue]
    rfl
  · rw [tags_append, tags_rowTags, flush, tags_addText, hus, htags, reread_rows, List.flatMap_append,
      List.flatMap_singleton]
    rfl

theorem Shows.parse_newmemo (h : Shows d rows) :
    Shows (b.parse (b.source d ++ (newmemoform k []).2))
      (rows.map (rereadRow b.entities) ++ [(k + 1, [])]) := by
  have hplain : Plain (d.map Node.token) := plain_of_tags h.tags
  obtain ⟨us, htokenize, htags⟩ := @tokenize_newmemo b.entities rows _ k h.tags h.good
  rw [b.source_plain hplain]
  exact shows_parse htokenize htags

/-! ## Rows that are built at once -/

/-- Without a quotation mark a text keeps to its row. -/
theorem contained_of_not_mem (h : '"' ∉ memval) : Contained E memval := by
  intro memosid
  have hquote : '"' ∉ normalize memval := fun hmem => h (mem_of_mem_normalize (by decide) hmem)
  refine ⟨rowTokens (memosid + 1) (attrValue E (normalize memval)), _, ?_, rfl⟩
  rw [normalize_newmemoform, feeds_row hquote]
  rfl

/-- A handler is one attribute too many. -/
example : ¬ Contained .basic "\" onfocus=\"memosid=7".toList := by
  intro h
  obtain ⟨ts, value, hfeeds, htags⟩ := h 0
  have hlengths : ((tags (feeds .basic ⟨[], .data []⟩
      (normalize (newmemoform 0 "\" onfocus=\"memosid=7".toList).2)).emitted).filterMap
        Token.shape?).map (·.2.length) = [1, 1, 3, 5] := by decide +kernel
  rw [hfeeds, htags] at hlengths
  cases hlengths

/-- Rows that are built at once get the numbers from `k + 1` on. -/
theorem feeds_contained (h : ∀ memval ∈ values, Contained E memval) :
    ∃ (ts : List Token) (rows : List (Int × Text)),
    feeds E ⟨us, .data []⟩ (normalize (newmemoforms k values).2) = ⟨us ++ ts, .data []⟩ ∧
      tags ts = rows.flatMap rowTags ∧
      rows.map (·.1) = (List.range values.length).map fun i : Nat => k + 1 + i := by
  induction values generalizing us k with
  | nil => exact ⟨[], [], by rw [List.append_nil]; rfl, rfl, rfl⟩
  | cons memval values ih =>
    obtain ⟨hmemval, hvalues⟩ := List.forall_mem_cons.mp h
    obtain ⟨ts, value, hfeeds, htags⟩ := hmemval k
    have hfirst : feeds E ⟨us, .data []⟩ (normalize (newmemoform k memval).2) =
        ⟨us ++ ts, .data []⟩ := by
      have hemitted := @feeds_emitted E [] us (.data []) (normalize (newmemoform k memval).2)
      rwa [List.append_nil, hfeeds] at hemitted
    obtain ⟨ts', rows, hfeeds', htags', hids⟩ := @ih (us ++ ts) (k + 1) hvalues
    refine ⟨ts ++ ts', (k + 1, value) :: rows, ?_, ?_, ?_⟩
    · have hrow : (newmemoform k memval).1 = k + 1 := rfl
      rw [newmemoforms]
      simp only [hrow]
      rw [normalize_newmemoform_append, ← normalize_newmemoform, feeds_append, hfirst, hfeeds',
        List.append_assoc]
    · rw [tags_append, htags, htags', List.flatMap_cons]
    · rw [List.map_cons, hids, List.length_cons, List.range_succ_eq_map, List.map_cons, List.map_map]
      have hnext : ∀ i : Nat, k + 1 + 1 + i = k + 1 + (i + 1 : Nat) := fun i => by omega
      simp [hnext]

theorem shows_parse_newmemoforms (h : ∀ memval ∈ values, Contained b.entities memval) :
    ∃ rows, Shows (b.parse (newmemoforms k values).2) rows ∧
      rows.map (·.1) = (List.range values.length).map fun i : Nat => k + 1 + i := by
  obtain ⟨ts, rows, hfeeds, htags, hids⟩ := @feeds_contained b.entities [] k values h
  have htokenize : tokenize b.entities (newmemoforms k values).2 = some ts := by
    rw [tokenize, hfeeds]
    rfl
  exact ⟨rows, shows_parse htokenize htags, hids⟩

/-- They are aligned if they are counted from 0 on. -/
theorem aligned_parse_newmemoforms_iff (h : ∀ memval ∈ values, Contained b.entities memval) :
    (b.parse (newmemoforms k values).2).Aligned ↔ (values ≠ [] → k = -1) := by
  obtain ⟨rows, hshows, hids⟩ := @shows_parse_newmemoforms b k values h
  have hlength : rows.length = values.length := by simpa using congrArg List.length hids
  rw [hshows.aligned_iff, hids, hlength]
  cases values with
  | nil => exact iff_of_true rfl fun hne => absurd rfl hne
  | cons value values =>
    constructor
    · intro hrange _
      have hfirst := congrArg List.head? hrange
      simp only [List.length_cons, List.range_succ_eq_map, List.map_cons, List.head?_cons,
        Option.some.injEq] at hfirst
      omega
    · intro hstart
      rw [hstart (List.cons_ne_nil _ _)]
      exact List.map_congr_left fun i _ => by omega

end Rows

/-! ## Steps -/

section Steps

variable {b : Browser} {p p' : Page} {a : Action} {rows : List (Int × Text)} {i : Nat}
  {kind : Element → Bool} {f : Element → Element}

theorem change_eq_some (h : p.change i kind f = some p') :
    ∃ e, p.form[i]? = some (.element e) ∧ p' = { p with form := p.form.set i (.element (f e)) } := by
  unfold Page.change at h
  split at h
  · next e hnode =>
    split at h
    · exact ⟨e, hnode, (Option.some.inj h).symm⟩
    · cases h
  · cases h

/-- What the user does to a row does not change its attributes. -/
theorem change_aligned (h : Shows p.form rows) (hp : p.form.Aligned)
    (hchange : p.change i kind f = some p') (hf : ∀ e : Element, (f e).shape = e.shape) :
    Shows p'.form rows ∧ p'.form.Aligned := by
  obtain ⟨e, hnode, rfl⟩ := change_eq_some hchange
  have htoken : Node.token (.element (f e)) = Node.token (.element e) := by
    obtain ⟨htag, hattrs⟩ := Prod.mk.inj (hf e)
    rw [Node.token, htag, hattrs]
    rfl
  have htokens : (p.form.set i (.element (f e))).map Node.token = p.form.map Node.token := by
    obtain ⟨hi, heq⟩ := List.getElem?_eq_some_iff.mp hnode
    rw [List.map_set, htoken, ← heq, ← List.map_set, List.set_getElem_self]
  have hshows : Shows (p.form.set i (.element (f e))) rows :=
    ⟨htokens ▸ h.tags, htokens ▸ h.good⟩
  exact ⟨hshows, hshows.aligned_iff.mpr (h.aligned_iff.mp hp)⟩

theorem newmemo_aligned_iff (h : Shows p.form rows) (hp : p.form.Aligned) :
    (p.newmemo b).form.Aligned ↔ p.memosid + 1 = p.form.boxes.length := by
  have hshows : Shows (p.newmemo b).form
    (rows.map (rereadRow b.entities) ++ [(p.memosid + 1, [])]) := h.parse_newmemo
  have hids : (rows.map (rereadRow b.entities)).map (·.1) =
      (List.range rows.length).map fun i : Nat => (i : Int) := by
    rw [← h.aligned_iff.mp hp, List.map_map]
    rfl
  rw [hshows.aligned_iff, h.boxes_length, List.map_append, hids, List.length_append,
    List.length_map, List.length_singleton, List.range_succ, List.map_append,
    List.append_cancel_left_eq]
  exact List.singleton_inj

theorem updatemems_aligned (hp : p.form.Aligned)
    (hcontains : ∀ memval ∈ p.form.checkedTexts.map (·.2), Contained b.entities memval) :
    (∃ rows, Shows (p.updatemems b).form rows) ∧ (p.updatemems b).form.Aligned := by
  unfold Page.updatemems
  rw [hp.collectRows]
  obtain ⟨rows, hshows, -⟩ := shows_parse_newmemoforms hcontains
  exact ⟨⟨rows, hshows⟩, (aligned_parse_newmemoforms_iff hcontains).mpr fun _ => rfl⟩

/-- A step keeps the rows aligned exactly where they are counted. -/
theorem step_aligned_iff (h : ∃ rows, Shows p.form rows) (hp : p.form.Aligned)
    (hcontains : Contains b p a) (hstep : p.step b a = some p') :
    (∃ rows, Shows p'.form rows) ∧ (p'.form.Aligned ↔ Counts p a) := by
  obtain ⟨rows, h⟩ := h
  cases a with
  | newmemo =>
    obtain rfl := Option.some.inj hstep
    exact ⟨⟨_, h.parse_newmemo⟩, newmemo_aligned_iff h hp⟩
  | updatememo =>
    obtain rfl := Option.some.inj hstep
    obtain ⟨hshows, haligned⟩ := updatemems_aligned hp hcontains
    exact ⟨hshows, iff_of_true haligned trivial⟩
  | check i checked =>
    have hchange : p.change i Element.isBox (fun e => { e with checked := checked }) = some p' := hstep
    obtain ⟨hshows, haligned⟩ := change_aligned h hp hchange fun _ => rfl
    exact ⟨⟨rows, hshows⟩, iff_of_true haligned trivial⟩
  | enter i value =>
    have hchange : p.change i Element.isField (fun e => { e with value := fieldValue value }) =
      some p' := hstep
    obtain ⟨hshows, haligned⟩ := change_aligned h hp hchange fun _ => rfl
    exact ⟨⟨rows, hshows⟩, iff_of_true haligned trivial⟩
  | refsite =>
    obtain rfl := Option.some.inj hstep
    have hform : p.refsite.form = p.form := by
      unfold Page.refsite
      split
      · rfl
      · rfl
    rw [hform]
    exact ⟨⟨rows, h⟩, iff_of_true hp trivial⟩
  | notes data =>
    obtain ⟨-, hstep⟩ := Option.ite_none_left_eq_some.mp hstep
    obtain rfl := Option.some.inj hstep
    cases data with
    | missing => exact ⟨⟨rows, h⟩, iff_of_true hp trivial⟩
    | blank => exact ⟨⟨rows, h⟩, iff_of_true hp trivial⟩
    | text memos =>
      obtain ⟨rows, hshows, -⟩ := shows_parse_newmemoforms hcontains
      exact ⟨⟨rows, hshows⟩, aligned_parse_newmemoforms_iff hcontains⟩

theorem shows_start : Shows Page.start.form [] :=
  ⟨rfl, List.forall_mem_singleton.mpr trivial⟩

end Steps

/-- In a run in which every text keeps to its row the rows are always aligned if and only
if each row that is added by a click gets its position for a number and the rows of an
answer are shown only while no row has been counted. -/
theorem always_aligned_iff (b : Browser) (as : List Action) {p : Page}
    (hrun : run (Page.step b) .start as = some p)
    (hcontains : Meets (Page.step b) (Contains b) .start as) :
    AlwaysAligned b as ↔ Meets (Page.step b) Counts .start as :=
  always_iff_meets (fun _ _ _ h hp hcontains hstep => step_aligned_iff h hp hcontains hstep)
    ⟨[], shows_start⟩ (shows_start.aligned_iff.mpr rfl) hcontains hrun

/-- What the page is given for a note that was stored. -/
def milk : Json := .obj [("0", .str "milk")]

/-- The note is shown; a row is added to it, its box is unchecked, and the form is posted. -/
def addRow : List Action :=
  [.refsite, .notes (.text milk), .newmemo, .check 10 false, .updatememo, .newmemo]

theorem always_aligned_addRow : AlwaysAligned (.flat .basic) addRow := by
  have hsome : (run (Page.step (.flat .basic)) .start addRow).isSome := by decide +kernel
  obtain ⟨p, hrun⟩ := Option.isSome_iff_exists.mp hsome
  have hquote : Meets (Page.step (.flat .basic)) (fun p a => ∀ memval ∈ shownAnew p a, '"' ∉ memval)
    .start addRow := by decide +kernel
  have hcontains : Meets (Page.step (.flat .basic)) (Contains (.flat .basic)) .start addRow :=
    meets_mono (fun _ _ h memval hmem => contained_of_not_mem (h memval hmem)) hquote
  exact (always_aligned_iff (.flat .basic) addRow hrun hcontains).mpr (by decide +kernel)

/-- The page asks for the notes, and a row is added before the answer arrives. -/
def earlyRow : List Action := [.refsite, .newmemo, .notes (.text milk)]

theorem run_earlyRow {b : Browser} : ∃ p, run (Page.step b) .start earlyRow = some p ∧
    p.form = b.parse (newmemoforms 0 ["milk".toList]).2 := ⟨_, rfl, rfl⟩

/-- A note with the source of a box. -/
def boxInNote : List Action :=
  [.refsite, .notes (.text (.obj [("0", .str "\"><input name=\"memosbox")]))]

theorem run_boxInNote : ∃ p, run (Page.step (.flat .basic)) .start boxInNote = some p ∧
    p.form.boxes.length = 2 ∧ p.form.fields.length = 1 := by
  have hmap : (run (Page.step (.flat .basic)) .start boxInNote).map
      (fun p => (p.form.boxes.length, p.form.fields.length)) = some (2, 1) := by decide +kernel
  obtain ⟨p, hrun, hlengths⟩ := Option.map_eq_some_iff.mp hmap
  exact ⟨p, hrun, Prod.mk.inj hlengths⟩

/-- The only row that is shown has the number 1; one more box is shown than there are rows. -/
theorem rows_misaligned :
    ¬ AlwaysAligned (.flat .basic) earlyRow ∧ ¬ AlwaysAligned (.flat .basic) boxInNote := by
  constructor
  · intro h
    obtain ⟨p, hrun, hform⟩ := @run_earlyRow (.flat .basic)
    have haligned := h earlyRow p List.prefix_rfl hrun
    have hcontained : ∀ memval ∈ ["milk".toList],
        Contained (Browser.flat .basic).entities memval :=
      List.forall_mem_singleton.mpr (contained_of_not_mem (by simp))
    rw [hform, aligned_parse_newmemoforms_iff hcontained] at haligned
    exact absurd (haligned (List.cons_ne_nil _ _)) (by decide)
  · intro h
    obtain ⟨p, hrun, hboxes, hfields⟩ := run_boxInNote
    have haligned := h boxInNote p List.prefix_rfl hrun
    have hlast : 1 < p.form.boxes.length := by omega
    obtain ⟨e, hfield, -⟩ := haligned.found 1 p.form.boxes[1] (List.getElem?_eq_getElem hlast)
    have hlt := (List.getElem?_eq_some_iff.mp hfield).1
    omega

end SmartDoor.Router.Pages
