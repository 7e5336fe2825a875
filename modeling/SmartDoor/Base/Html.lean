-- SUMMARY: Tags and texts of HTML: the reading of a source character by character, and what is read of a source that was written piece by piece.
import SmartDoor.Base.References

/-!
# Reading HTML

The rules of HTML for tags, attributes and texts, as a machine that is given one
character after the other. Comments, declarations and processing instructions are
left out: a source that reaches one is not read.
-/

namespace Html

open Script (Text)

/-! ## Tokens -/

abbrev Attr := Text × Text

inductive Token where
  | text (s : Text)
  | startTag (name : Text) (attrs : List Attr)
  | endTag (name : Text)
  deriving DecidableEq, Repr

/-- A tag that is being read. -/
structure Tag where
  close : Bool
  name : Text
  attrs : List Attr

/-- Of several attributes with one name the first counts. -/
def Tag.add (tag : Tag) (name value : Text) : Tag :=
  if tag.attrs.any (·.1 = name) then tag else { tag with attrs := tag.attrs ++ [(name, value)] }

def Tag.token (tag : Tag) : Token :=
  if tag.close then .endTag tag.name else .startTag tag.name tag.attrs

/-! ## The machine -/

inductive Mode where
  | data (raw : Text)
  /-- After `<`, with the text before it. -/
  | tagOpen (raw : Text)
  /-- After `</`, with the text before it. -/
  | endTagOpen (raw : Text)
  | tagName (tag : Tag)
  | beforeAttrName (tag : Tag)
  | attrName (tag : Tag) (name : Text)
  | afterAttrName (tag : Tag) (name : Text)
  | beforeAttrValue (tag : Tag) (name : Text)
  | quoted (quote : Char) (tag : Tag) (name raw : Text)
  | unquoted (tag : Tag) (name raw : Text)
  | afterQuoted (tag : Tag)
  | selfClosing (tag : Tag)
  /-- In what is left out. -/
  | other

structure State where
  emitted : List Token
  mode : Mode

def isSpace (c : Char) : Bool := c = ' ' ∨ c = '\t' ∨ c = '\n' ∨ c = '\x0c'

def nameChar (c : Char) : Char := if c = '\x00' then '\ufffd' else c.toLower

/-- There is no token for an empty text. -/
def addText (ts : List Token) (s : Text) : List Token := if s = [] then ts else ts ++ [.text s]

/-- A text ends. -/
def flush (E : Entities) (ts : List Token) (raw : Text) : List Token := addText ts (textData E raw)

/-- A tag ends. -/
def emit (ts : List Token) (tag : Tag) : State := ⟨ts ++ [tag.token], .data []⟩

/-- The next character where the name of an attribute can start. -/
def feedAttrName (ts : List Token) (tag : Tag) (c : Char) : State :=
  if isSpace c then ⟨ts, .beforeAttrName tag⟩
  else if c = '/' then ⟨ts, .selfClosing tag⟩
  else if c = '>' then emit ts tag
  else ⟨ts, .attrName tag [nameChar c]⟩

def feed (E : Entities) (st : State) (c : Char) : State :=
  match st.mode with
  | .data raw =>
    if c = '<' then ⟨st.emitted, .tagOpen raw⟩ else ⟨st.emitted, .data (raw ++ [c])⟩
  | .tagOpen raw =>
    if c.isAlpha then ⟨flush E st.emitted raw, .tagName ⟨false, [c.toLower], []⟩⟩
    else if c = '/' then ⟨st.emitted, .endTagOpen raw⟩
    else if c = '!' ∨ c = '?' then ⟨st.emitted, .other⟩
    else if c = '<' then ⟨st.emitted, .tagOpen (raw ++ ['<'])⟩
    else ⟨st.emitted, .data (raw ++ ['<', c])⟩
  | .endTagOpen raw =>
    if c.isAlpha then ⟨flush E st.emitted raw, .tagName ⟨true, [c.toLower], []⟩⟩
    else if c = '>' then ⟨st.emitted, .data raw⟩
    else ⟨st.emitted, .other⟩
  | .tagName tag =>
    if isSpace c then ⟨st.emitted, .beforeAttrName tag⟩
    else if c = '/' then ⟨st.emitted, .selfClosing tag⟩
    else if c = '>' then emit st.emitted tag
    else ⟨st.emitted, .tagName { tag with name := tag.name ++ [nameChar c] }⟩
  | .beforeAttrName tag => feedAttrName st.emitted tag c
  | .attrName tag name =>
    if isSpace c then ⟨st.emitted, .afterAttrName tag name⟩
    else if c = '/' then ⟨st.emitted, .selfClosing (tag.add name [])⟩
    else if c = '>' then emit st.emitted (tag.add name [])
    else if c = '=' then ⟨st.emitted, .beforeAttrValue tag name⟩
    else ⟨st.emitted, .attrName tag (name ++ [nameChar c])⟩
  | .afterAttrName tag name =>
    if isSpace c then ⟨st.emitted, .afterAttrName tag name⟩
    else if c = '/' then ⟨st.emitted, .selfClosing (tag.add name [])⟩
    else if c = '=' then ⟨st.emitted, .beforeAttrValue tag name⟩
    else if c = '>' then emit st.emitted (tag.add name [])
    else ⟨st.emitted, .attrName (tag.add name []) [nameChar c]⟩
  | .beforeAttrValue tag name =>
    if isSpace c then ⟨st.emitted, .beforeAttrValue tag name⟩
    else if c = '"' ∨ c = '\'' then ⟨st.emitted, .quoted c tag name []⟩
    else if c = '>' then emit st.emitted (tag.add name [])
    else ⟨st.emitted, .unquoted tag name [c]⟩
  | .quoted quote tag name raw =>
    if c = quote then ⟨st.emitted, .afterQuoted (tag.add name (attrValue E raw))⟩
    else ⟨st.emitted, .quoted quote tag name (raw ++ [c])⟩
  | .unquoted tag name raw =>
    if isSpace c then ⟨st.emitted, .beforeAttrName (tag.add name (attrValue E raw))⟩
    else if c = '>' then emit st.emitted (tag.add name (attrValue E raw))
    else ⟨st.emitted, .unquoted tag name (raw ++ [c])⟩
  | .afterQuoted tag => feedAttrName st.emitted tag c
  | .selfClosing tag =>
    if c = '>' then emit st.emitted tag else feedAttrName st.emitted tag c
  | .other => st

def feeds (E : Entities) (st : State) (s : Text) : State := s.foldl (feed E) st

/-- The source ends. A tag that is not finished is dropped. -/
def finish (E : Entities) (st : State) : Option (List Token) :=
  match st.mode with
  | .data raw => some (flush E st.emitted raw)
  | .tagOpen raw => some (flush E st.emitted (raw ++ ['<']))
  | .endTagOpen raw => some (flush E st.emitted (raw ++ ['<', '/']))
  | .other => none
  | _ => some st.emitted

def tokenize (E : Entities) (html : Text) : Option (List Token) :=
  finish E (feeds E ⟨[], .data []⟩ (normalize html))

section Machine

variable {E : Entities} {ts : List Token} {st : State} {tag : Tag} {name raw s t : Text} {c : Char}

@[simp] theorem feeds_nil : feeds E st [] = st := rfl

@[simp] theorem feeds_cons : feeds E st (c :: s) = feeds E (feed E st c) s := rfl

theorem feeds_append : feeds E st (s ++ t) = feeds E (feeds E st s) t := List.foldl_append

end Machine

/-! ## Sources written piece by piece -/

/-- A piece of a source; the value of an attribute can be missing. -/
inductive Piece where
  | text (raw : Text)
  | startTag (name : Text) (attrs : List (Text × Option Text))
  | endTag (name : Text)

def writeAttr (a : Text × Option Text) : Text :=
  match a.2 with
  | some raw => ' ' :: a.1 ++ '=' :: '"' :: raw ++ ['"']
  | none => ' ' :: a.1

def Piece.write : Piece → Text
  | .text raw => raw
  | .startTag name attrs => '<' :: name ++ attrs.flatMap writeAttr ++ ['>']
  | .endTag name => '<' :: '/' :: name ++ ['>']

def write (ps : List Piece) : Text := ps.flatMap Piece.write

/-- A character that a name is read with as it is. -/
def isNameChar (c : Char) : Bool :=
  nameChar c = c ∧ isSpace c = false ∧ c ≠ '\r' ∧ c ≠ '/' ∧ c ≠ '>'

def IsTagName (name : Text) : Prop := name.head?.any Char.isAlpha ∧ ∀ c ∈ name, isNameChar c

/-- The name of an attribute may begin with `=`. -/
def IsAttrName (name : Text) : Prop := name ≠ [] ∧ (∀ c ∈ name, isNameChar c) ∧ '=' ∉ name.tail

/-- A name of small letters, as programs write them. -/
def IsName (name : Text) : Prop := name ≠ [] ∧ ∀ c ∈ name, c.isLower

/-- A value ends at the first quotation mark, a text at the first `<`; after a name without
a value `=` would start one. -/
def Piece.Ok : Piece → Prop
  | .text raw => '<' ∉ raw
  | .startTag name attrs =>
    IsTagName name ∧ (∀ a ∈ attrs, IsAttrName a.1 ∧ ∀ raw ∈ a.2, '"' ∉ raw) ∧
      ((∀ a ∈ attrs, a.2.isSome) ∨ ∀ a ∈ attrs, '=' ∉ a.1)
  | .endTag name => IsTagName name

/-- The tag that is written. -/
def readTag (E : Entities) (tag : Tag) (a : Text × Option Text) : Tag :=
  tag.add a.1 (attrValue E (a.2.getD []))

/-- What a piece is read as, after the tokens and the text that come before it. -/
def Piece.read (E : Entities) (acc : List Token × Text) : Piece → List Token × Text
  | .text raw => (acc.1, acc.2 ++ raw)
  | .startTag name attrs =>
    (flush E acc.1 acc.2 ++ [(attrs.foldl (readTag E) ⟨false, name, []⟩).token], [])
  | .endTag name => (flush E acc.1 acc.2 ++ [.endTag name], [])

section Write

variable {E : Entities} {ts : List Token} {st : State} {tag : Tag} {name raw s t : Text} {c : Char}

/-- What the machine does with a small letter. -/
theorem isLower_facts (h : c.isLower) : c.isAlpha ∧ c.toLower = c ∧ nameChar c = c ∧
    isSpace c = false ∧ c ≠ '/' ∧ c ≠ '>' ∧ c ≠ '=' := by
  have hne : ∀ d : Char, d.isLower = false → c ≠ d := fun d hd heq => by
    rw [heq, hd] at h
    cases h
  have hlower : c.toLower = c := by
    refine dif_neg fun hupper => ?_
    have hrange : 'a'.val ≤ c.val := of_decide_eq_true ((Bool.and_eq_true _ _).mp h).1
    exact absurd (UInt32.le_trans hrange hupper.2) (by decide)
  have halpha : c.isAlpha := (Bool.or_eq_true _ _).mpr (.inr h)
  refine ⟨halpha, hlower, ?_, ?_, hne _ rfl, hne _ rfl, hne _ rfl⟩
  · rw [nameChar, if_neg (hne _ rfl), hlower]
  · simp [isSpace, hne ' ' rfl, hne '\t' rfl, hne '\n' rfl, hne '\x0c' rfl]

theorem isNameChar_of_isLower (h : c.isLower) : isNameChar c := by
  obtain ⟨-, -, hchar, hspace, hslash, hgt, -⟩ := isLower_facts h
  have hreturn : c ≠ '\r' := fun heq => by
    rw [heq] at h
    cases h
  simp [isNameChar, hchar, hspace, hslash, hgt, hreturn]

theorem isNameChar_facts (h : isNameChar c) :
    nameChar c = c ∧ isSpace c = false ∧ c ≠ '\r' ∧ c ≠ '/' ∧ c ≠ '>' := of_decide_eq_true h

theorem IsName.isTagName (h : IsName name) : IsTagName name := by
  obtain ⟨hne, hlower⟩ := h
  cases name with
  | nil => exact absurd rfl hne
  | cons c name =>
    exact ⟨(isLower_facts (hlower c List.mem_cons_self)).1,
      fun d hd => isNameChar_of_isLower (hlower d hd)⟩

theorem IsName.eq_not_mem (h : IsName name) : '=' ∉ name := fun hmem => by cases h.2 _ hmem

theorem IsName.isAttrName (h : IsName name) : IsAttrName name :=
  ⟨h.1, fun c hc => isNameChar_of_isLower (h.2 c hc),
    fun hmem => h.eq_not_mem (List.mem_of_mem_tail hmem)⟩

theorem Piece.ok_startTag {attrs : List (Text × Option Text)} (hname : IsName name)
    (hattrs : ∀ a ∈ attrs, IsName a.1 ∧ ∀ raw ∈ a.2, '"' ∉ raw) :
    (Piece.startTag name attrs).Ok :=
  ⟨hname.isTagName, fun a ha => ⟨(hattrs a ha).1.isAttrName, (hattrs a ha).2⟩,
    .inr fun a ha => (hattrs a ha).1.eq_not_mem⟩

theorem feeds_tagName (h : ∀ c ∈ name, isNameChar c) :
    feeds E ⟨ts, .tagName tag⟩ name = ⟨ts, .tagName { tag with name := tag.name ++ name }⟩ := by
  induction name generalizing tag with
  | nil => simp
  | cons c name ih =>
    obtain ⟨hc, hname⟩ := List.forall_mem_cons.mp h
    obtain ⟨hchar, hspace, -, hslash, hgt⟩ := isNameChar_facts hc
    simp [feed, hchar, hspace, hslash, hgt, ih hname]

theorem feeds_attrName (h : ∀ c ∈ name, isNameChar c) (heq : '=' ∉ name) :
    feeds E ⟨ts, .attrName tag s⟩ name = ⟨ts, .attrName tag (s ++ name)⟩ := by
  induction name generalizing s with
  | nil => simp
  | cons c name ih =>
    obtain ⟨hc, hname⟩ := List.forall_mem_cons.mp h
    obtain ⟨hchar, hspace, -, hslash, hgt⟩ := isNameChar_facts hc
    rw [List.mem_cons, not_or] at heq
    simp [feed, hchar, hspace, hslash, hgt, Ne.symm heq.1, ih hname heq.2]

theorem feeds_quoted {quote : Char} (h : quote ∉ raw) :
    feeds E ⟨ts, .quoted quote tag name s⟩ raw = ⟨ts, .quoted quote tag name (s ++ raw)⟩ := by
  induction raw generalizing s with
  | nil => simp
  | cons c raw ih =>
    rw [List.mem_cons, not_or] at h
    simp [feed, Ne.symm h.1, ih h.2]

theorem feeds_data (h : '<' ∉ raw) :
    feeds E ⟨ts, .data s⟩ raw = ⟨ts, .data (s ++ raw)⟩ := by
  induction raw generalizing s with
  | nil => simp
  | cons c raw ih =>
    rw [List.mem_cons, not_or] at h
    simp [feed, Ne.symm h.1, ih h.2]

/-- The tag that would be emitted now. -/
def Mode.closed : Mode → Option Tag
  | .tagName tag => some tag
  | .afterQuoted tag => some tag
  | .attrName tag name => some (tag.add name [])
  | _ => none

theorem feed_close {mode : Mode} (h : mode.closed = some tag) :
    feed E ⟨ts, mode⟩ '>' = emit ts tag := by
  cases mode <;> first | cases h; rfl | cases h

/-- Whether `=` would not be read as the start of a value. -/
def Mode.valued : Mode → Bool
  | .attrName _ _ => false
  | _ => true

theorem feedAttrName_of_isNameChar (h : isNameChar c) :
    feedAttrName ts tag c = ⟨ts, .attrName tag [c]⟩ := by
  obtain ⟨hchar, hspace, -, hslash, hgt⟩ := isNameChar_facts h
  simp [feedAttrName, hspace, hslash, hgt, hchar]

/-- A blank and a name start a new attribute. -/
theorem feeds_closed_name {mode : Mode} (h : mode.closed = some tag) (hname : IsAttrName name)
    (heq : mode.valued ∨ '=' ∉ name) :
    feeds E ⟨ts, mode⟩ (' ' :: name) = ⟨ts, .attrName tag name⟩ := by
  obtain ⟨hne, hchars, htail⟩ := hname
  cases name with
  | nil => exact absurd rfl hne
  | cons c name =>
    obtain ⟨hc, hname⟩ := List.forall_mem_cons.mp hchars
    have hfirst : feeds E ⟨ts, mode⟩ [' ', c] = ⟨ts, .attrName tag [c]⟩ := by
      cases mode with
      | tagName tag' =>
        obtain rfl := Option.some.inj h
        exact feedAttrName_of_isNameChar hc
      | afterQuoted tag' =>
        obtain rfl := Option.some.inj h
        exact feedAttrName_of_isNameChar hc
      | attrName tag' name' =>
        obtain rfl := Option.some.inj h
        obtain ⟨hchar, hspace, -, hslash, hgt⟩ := isNameChar_facts hc
        have hne : c ≠ '=' := by
          rintro rfl
          obtain hvalued | hnot := heq
          · cases hvalued
          · exact hnot List.mem_cons_self
        have hblank : feed E ⟨ts, .attrName tag' name'⟩ ' ' = ⟨ts, .afterAttrName tag' name'⟩ := rfl
        rw [feeds_cons, hblank]
        simp [feed, hspace, hslash, hgt, hne, hchar]
      | _ => cases h
    have hsplit : ' ' :: c :: name = [' ', c] ++ name := rfl
    rw [hsplit, feeds_append, hfirst, feeds_attrName hname htail]
    rfl

/-- An attribute is added, whether it has a value or not. -/
theorem feeds_writeAttr {mode : Mode} {a : Text × Option Text} (h : mode.closed = some tag)
    (hname : IsAttrName a.1) (heq : mode.valued ∨ '=' ∉ a.1) (hvalue : ∀ raw ∈ a.2, '"' ∉ raw) :
    ∃ mode', feeds E ⟨ts, mode⟩ (writeAttr a) = ⟨ts, mode'⟩ ∧
      mode'.closed = some (readTag E tag a) ∧ (a.2.isSome → mode'.valued) := by
  obtain ⟨name, value⟩ := a
  cases value with
  | none => exact ⟨_, feeds_closed_name h hname heq, rfl, fun hsome => by cases hsome⟩
  | some raw =>
    refine ⟨.afterQuoted (tag.add name (attrValue E raw)), ?_, rfl, fun _ => rfl⟩
    have hsplit : writeAttr (name, some raw) = (' ' :: name) ++ (['=', '"'] ++ (raw ++ ['"'])) := by
      simp [writeAttr]
    rw [hsplit, feeds_append, feeds_closed_name h hname heq, feeds_append]
    have hstart : feeds E ⟨ts, .attrName tag name⟩ ['=', '"'] = ⟨ts, .quoted '"' tag name []⟩ := rfl
    rw [hstart, feeds_append, feeds_quoted (hvalue raw rfl)]
    rfl

theorem feeds_writeAttrs {mode : Mode} {attrs : List (Text × Option Text)}
    (h : mode.closed = some tag) (hattrs : ∀ a ∈ attrs, IsAttrName a.1 ∧ ∀ raw ∈ a.2, '"' ∉ raw)
    (heq : (mode.valued ∧ ∀ a ∈ attrs, a.2.isSome) ∨ ∀ a ∈ attrs, '=' ∉ a.1) :
    ∃ mode', feeds E ⟨ts, mode⟩ (attrs.flatMap writeAttr) = ⟨ts, mode'⟩ ∧
      mode'.closed = some (attrs.foldl (readTag E) tag) := by
  induction attrs generalizing mode tag with
  | nil => exact ⟨mode, rfl, h⟩
  | cons a attrs ih =>
    obtain ⟨⟨hname, hvalue⟩, hrest⟩ := List.forall_mem_cons.mp hattrs
    have hfirst : mode.valued ∨ '=' ∉ a.1 := heq.imp And.left fun hnone => hnone a List.mem_cons_self
    obtain ⟨mode', hfeeds, hclosed, hvalued⟩ := @feeds_writeAttr E ts _ _ _ h hname hfirst hvalue
    have hnext : (mode'.valued ∧ ∀ a ∈ attrs, a.2.isSome) ∨ ∀ a ∈ attrs, '=' ∉ a.1 := by
      obtain ⟨-, hsome⟩ | hnone := heq
      · exact .inl ⟨hvalued (hsome a List.mem_cons_self), (List.forall_mem_cons.mp hsome).2⟩
      · exact .inr (List.forall_mem_cons.mp hnone).2
    obtain ⟨mode'', hfeeds', hclosed'⟩ := ih hclosed hrest hnext
    exact ⟨mode'', by rw [List.flatMap_cons, feeds_append, hfeeds, hfeeds'], hclosed'⟩

/-- The first letter of a name that is read as it is. -/
theorem toLower_of_isNameChar (halpha : c.isAlpha) (h : isNameChar c) : c.toLower = c := by
  have hchar := (isNameChar_facts h).1
  rw [nameChar, if_neg] at hchar
  · exact hchar
  · rintro rfl
    cases halpha

/-- The start of a tag ends the text before it. -/
theorem feeds_tagOpen (h : IsTagName name) :
    feeds E ⟨ts, .data raw⟩ ('<' :: name) = ⟨flush E ts raw, .tagName ⟨false, name, []⟩⟩ := by
  obtain ⟨halpha, hchars⟩ := h
  cases name with
  | nil => cases halpha
  | cons c name =>
    have halpha : c.isAlpha := halpha
    obtain ⟨hc, hname⟩ := List.forall_mem_cons.mp hchars
    simp [feed, halpha, toLower_of_isNameChar halpha hc, feeds_tagName hname]

theorem feeds_startTag {attrs : List (Text × Option Text)}
    (h : (Piece.startTag name attrs).Ok) :
    feeds E ⟨ts, .data raw⟩ (Piece.startTag name attrs).write =
      ⟨flush E ts raw ++ [(attrs.foldl (readTag E) ⟨false, name, []⟩).token], .data []⟩ := by
  obtain ⟨hname, hattrs, heq⟩ := h
  have hstart : (Mode.tagName ⟨false, name, []⟩).closed = some ⟨false, name, []⟩ := rfl
  obtain ⟨mode, hfeeds, hclosed⟩ := @feeds_writeAttrs E (flush E ts raw) _ _ _ hstart hattrs
    (heq.imp (And.intro rfl) id)
  rw [Piece.write, feeds_append, feeds_append, feeds_tagOpen hname, hfeeds]
  exact feed_close hclosed

theorem feeds_endTag (h : IsTagName name) :
    feeds E ⟨ts, .data raw⟩ (Piece.endTag name).write =
      ⟨flush E ts raw ++ [.endTag name], .data []⟩ := by
  obtain ⟨halpha, hchars⟩ := h
  cases name with
  | nil => cases halpha
  | cons c name =>
    have halpha : c.isAlpha := halpha
    obtain ⟨hc, hname⟩ := List.forall_mem_cons.mp hchars
    have hopen : feeds E ⟨ts, .data raw⟩ ['<', '/', c] =
        ⟨flush E ts raw, .tagName ⟨true, [c], []⟩⟩ := by
      simp [feed, halpha, toLower_of_isNameChar halpha hc]
    have hsplit : (Piece.endTag (c :: name)).write = ['<', '/', c] ++ (name ++ ['>']) := rfl
    rw [hsplit, feeds_append, hopen, feeds_append, feeds_tagName hname]
    rfl

/-- What is written piece by piece is read piece by piece. -/
theorem feeds_write {ps : List Piece} (h : ∀ p ∈ ps, p.Ok) :
    feeds E ⟨ts, .data raw⟩ (write ps) =
      ⟨(ps.foldl (Piece.read E) (ts, raw)).1, .data (ps.foldl (Piece.read E) (ts, raw)).2⟩ := by
  induction ps generalizing ts raw with
  | nil => rfl
  | cons p ps ih =>
    obtain ⟨hp, hps⟩ := List.forall_mem_cons.mp h
    rw [write, List.flatMap_cons, feeds_append, ← write]
    cases p with
    | text raw' => rw [Piece.write, feeds_data hp, ih hps]; rfl
    | startTag name attrs => rw [feeds_startTag hp, ih hps]; rfl
    | endTag name => rw [feeds_endTag hp, ih hps]; rfl

/-- A tag up to the value of its last attribute. -/
theorem feeds_openValue {attrs : List (Text × Option Text)} {attr : Text}
    (h : (Piece.startTag name attrs).Ok) (hattr : IsName attr) :
    feeds E ⟨ts, .data raw⟩ (('<' :: name ++ attrs.flatMap writeAttr) ++ (' ' :: attr ++ ['=', '"'])) =
      ⟨flush E ts raw, .quoted '"' (attrs.foldl (readTag E) ⟨false, name, []⟩) attr []⟩ := by
  obtain ⟨hname, hattrs, heq⟩ := h
  have hstart : (Mode.tagName ⟨false, name, []⟩).closed = some ⟨false, name, []⟩ := rfl
  obtain ⟨mode, hfeeds, hclosed⟩ := @feeds_writeAttrs E (flush E ts raw) _ _ _ hstart hattrs
    (heq.imp (And.intro rfl) id)
  rw [feeds_append, feeds_append, feeds_append, feeds_tagOpen hname, hfeeds,
    feeds_closed_name hclosed hattr.isAttrName (.inr hattr.eq_not_mem)]
  rfl

theorem addText_append {us : List Token} : addText (ts ++ us) s = ts ++ addText us s := by
  unfold addText
  split
  · rfl
  · exact List.append_assoc _ _ _

end Write

/-! ## Tokens that are written -/

def Token.piece : Token → Piece
  | .text s => .text (escape false s)
  | .startTag name attrs => .startTag name (attrs.map fun a => (a.1, some (escape true a.2)))
  | .endTag name => .endTag name

/-- What a browser gives as the source of what it shows. -/
def serialize (ts : List Token) : Text := write (ts.map Token.piece)

theorem serialize_append {ts us : List Token} :
    serialize (ts ++ us) = serialize ts ++ serialize us := by
  simp [serialize, write]

end Html
