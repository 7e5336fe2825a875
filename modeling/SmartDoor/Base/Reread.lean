-- SUMMARY: The names of tags and attributes that can be read, and the tags of a source that was written for what was read.
import SmartDoor.Base.Html

/-!
# Reading again

Whatever the source, the machine reads names of one form only, and no attribute
twice. A source that is written for tokens with such names is read as the same
tags. Texts can change: two that were apart come together.
-/

namespace Html

open Script (Text)

/-! ## Names that are read -/

structure Tag.Good (tag : Tag) : Prop where
  name : IsTagName tag.name
  attrs : ∀ a ∈ tag.attrs, IsAttrName a.1
  nodup : (tag.attrs.map (·.1)).Nodup

def Token.Good : Token → Prop
  | .text _ => True
  | .startTag name attrs => Tag.Good ⟨false, name, attrs⟩
  | .endTag name => IsTagName name

def Mode.Good : Mode → Prop
  | .tagName tag => tag.Good
  | .beforeAttrName tag => tag.Good
  | .attrName tag name => tag.Good ∧ IsAttrName name
  | .afterAttrName tag name => tag.Good ∧ IsAttrName name
  | .beforeAttrValue tag name => tag.Good ∧ IsAttrName name
  | .quoted _ tag name _ => tag.Good ∧ IsAttrName name
  | .unquoted tag name _ => tag.Good ∧ IsAttrName name
  | .afterQuoted tag => tag.Good
  | .selfClosing tag => tag.Good
  | _ => True

structure State.Good (st : State) : Prop where
  emitted : ∀ t ∈ st.emitted, t.Good
  mode : st.mode.Good

section Good

variable {E : Entities} {ts us : List Token} {st : State} {mode : Mode} {tag : Tag}
  {name raw s value : Text} {c : Char}

theorem isLower_toLower_of_isUpper (h : c.isUpper) : c.toLower.isLower := by
  have hupper : c.val ≥ 'A'.val ∧ c.val ≤ 'Z'.val := of_decide_eq_true h
  have hval : c.toLower.val = c.val + ('a'.val - 'A'.val) := congrArg Char.val (dif_pos hupper)
  have hlow : 65 ≤ c.val.toNat := UInt32.le_iff_toNat_le.mp hupper.1
  have hhigh : c.val.toNat ≤ 90 := UInt32.le_iff_toNat_le.mp hupper.2
  have hnat : c.toLower.val.toNat = c.val.toNat + 32 := by
    rw [hval, UInt32.toNat_add, show ('a'.val - 'A'.val).toNat = 32 from rfl]
    omega
  refine (Bool.and_eq_true _ _).mpr ⟨decide_eq_true ?_, decide_eq_true ?_⟩
  · exact UInt32.le_iff_toNat_le.mpr (hnat ▸ Nat.add_le_add_right hlow 32)
  · exact UInt32.le_iff_toNat_le.mpr (hnat ▸ Nat.add_le_add_right hhigh 32)

/-- A capital letter becomes a small one, and another character stays. -/
theorem toLower_cases : c.toLower = c ∨ c.toLower.isLower := by
  by_cases hupper : c.isUpper
  · exact .inr (isLower_toLower_of_isUpper hupper)
  · exact .inl (dif_neg fun h => hupper (decide_eq_true h))

theorem isNameChar_nameChar (hspace : ¬ isSpace c) (hreturn : c ≠ '\r') (hslash : c ≠ '/')
    (hgt : c ≠ '>') : isNameChar (nameChar c) := by
  by_cases hnul : c = '\x00'
  · rw [hnul]
    rfl
  · have hname : nameChar c = c.toLower := if_neg hnul
    rw [hname]
    obtain hsame | hlower := @toLower_cases c
    · rw [hsame] at hname ⊢
      simp [isNameChar, hname, hspace, hreturn, hslash, hgt]
    · exact isNameChar_of_isLower hlower

theorem nameChar_ne_eq (h : c ≠ '=') : nameChar c ≠ '=' := by
  unfold nameChar
  split
  · decide
  · obtain hsame | hlower := @toLower_cases c
    · rwa [hsame]
    · exact (isLower_facts hlower).2.2.2.2.2.2

theorem isAttrName_single (h : isNameChar c) : IsAttrName [c] :=
  ⟨List.cons_ne_nil _ _, List.forall_mem_singleton.mpr h, List.not_mem_nil⟩

theorem IsAttrName.concat (h : IsAttrName name) (hc : isNameChar c) (heq : c ≠ '=') :
    IsAttrName (name ++ [c]) := by
  obtain ⟨hne, hchars, htail⟩ := h
  refine ⟨List.append_ne_nil_of_left_ne_nil hne _, List.forall_mem_append.mpr
    ⟨hchars, List.forall_mem_singleton.mpr hc⟩, ?_⟩
  rw [List.tail_append_of_ne_nil hne, List.mem_append, List.mem_singleton, not_or]
  exact ⟨htail, Ne.symm heq⟩

theorem IsTagName.concat (h : IsTagName name) (hc : isNameChar c) : IsTagName (name ++ [c]) := by
  obtain ⟨halpha, hchars⟩ := h
  refine ⟨?_, List.forall_mem_append.mpr ⟨hchars, List.forall_mem_singleton.mpr hc⟩⟩
  cases name with
  | nil => cases halpha
  | cons d name => exact halpha

theorem isTagName_single (h : c.isAlpha) : IsTagName [c.toLower] := by
  have hlower : c.toLower.isLower := by
    obtain hupper | hlower := (Bool.or_eq_true _ _).mp h
    · exact isLower_toLower_of_isUpper hupper
    · rwa [(isLower_facts hlower).2.1]
  exact IsName.isTagName ⟨List.cons_ne_nil _ _, List.forall_mem_singleton.mpr hlower⟩

theorem Tag.Good.add (h : tag.Good) (hname : IsAttrName name) : (tag.add name value).Good := by
  unfold Tag.add
  split
  · exact h
  · next hnew =>
    have hfresh : name ∉ tag.attrs.map (·.1) := fun hmem => hnew (by simpa using hmem)
    constructor
    case name => exact h.name
    case attrs => exact List.forall_mem_append.mpr ⟨h.attrs, List.forall_mem_singleton.mpr hname⟩
    case nodup =>
      rw [List.map_append, List.nodup_append]
      refine ⟨h.nodup, by simp, fun a ha b hb => ?_⟩
      obtain rfl := List.mem_singleton.mp hb
      exact fun heq => hfresh (heq ▸ ha)

theorem Tag.Good.token (h : tag.Good) : tag.token.Good := by
  unfold Tag.token
  split
  · exact h.name
  · exact ⟨h.name, h.attrs, h.nodup⟩

/-! ## The machine keeps them -/

theorem good_addText (h : ∀ t ∈ ts, t.Good) : ∀ t ∈ addText ts s, t.Good := by
  unfold addText
  split
  · exact h
  · exact List.forall_mem_append.mpr ⟨h, List.forall_mem_singleton.mpr trivial⟩

theorem good_emit (h : ∀ t ∈ ts, t.Good) (htag : tag.Good) : (emit ts tag).Good :=
  ⟨List.forall_mem_append.mpr ⟨h, List.forall_mem_singleton.mpr htag.token⟩, trivial⟩

theorem good_feedAttrName (h : ∀ t ∈ ts, t.Good) (htag : tag.Good) (hc : c ≠ '\r') :
    (feedAttrName ts tag c).Good := by
  unfold feedAttrName
  split_ifs with hspace hslash hgt
  · exact ⟨h, htag⟩
  · exact ⟨h, htag⟩
  · exact good_emit h htag
  · have hname : isNameChar (nameChar c) := isNameChar_nameChar hspace hc hslash hgt
    exact ⟨h, htag, isAttrName_single hname⟩

theorem State.Good.feed (h : st.Good) (hc : c ≠ '\r') : (feed E st c).Good := by
  obtain ⟨ts, mode⟩ := st
  obtain ⟨hts, hmode⟩ := h
  cases mode with
  | data raw =>
    simp only [Html.feed]
    split_ifs
    · exact ⟨hts, trivial⟩
    · exact ⟨hts, trivial⟩
  | tagOpen raw =>
    simp only [Html.feed]
    split_ifs with halpha
    · exact ⟨good_addText hts, isTagName_single halpha, List.forall_mem_nil _, List.nodup_nil⟩
    all_goals exact ⟨hts, trivial⟩
  | endTagOpen raw =>
    simp only [Html.feed]
    split_ifs with halpha
    · exact ⟨good_addText hts, isTagName_single halpha, List.forall_mem_nil _, List.nodup_nil⟩
    all_goals exact ⟨hts, trivial⟩
  | tagName tag =>
    simp only [Html.feed]
    split_ifs with hspace hslash hgt
    · exact ⟨hts, hmode⟩
    · exact ⟨hts, hmode⟩
    · exact good_emit hts hmode
    · have hname : isNameChar (nameChar c) := isNameChar_nameChar hspace hc hslash hgt
      exact ⟨hts, hmode.name.concat hname, hmode.attrs, hmode.nodup⟩
  | beforeAttrName tag => exact good_feedAttrName hts hmode hc
  | attrName tag name =>
    obtain ⟨htag, hname⟩ := hmode
    simp only [Html.feed]
    split_ifs with hspace hslash hgt heq
    · exact ⟨hts, htag, hname⟩
    · exact ⟨hts, htag.add hname⟩
    · exact good_emit hts (htag.add hname)
    · exact ⟨hts, htag, hname⟩
    · have hchar : isNameChar (nameChar c) := isNameChar_nameChar hspace hc hslash hgt
      exact ⟨hts, htag, hname.concat hchar (nameChar_ne_eq heq)⟩
  | afterAttrName tag name =>
    obtain ⟨htag, hname⟩ := hmode
    simp only [Html.feed]
    split_ifs with hspace hslash heq hgt
    · exact ⟨hts, htag, hname⟩
    · exact ⟨hts, htag.add hname⟩
    · exact ⟨hts, htag, hname⟩
    · exact good_emit hts (htag.add hname)
    · have hchar : isNameChar (nameChar c) := isNameChar_nameChar hspace hc hslash hgt
      exact ⟨hts, htag.add hname, isAttrName_single hchar⟩
  | beforeAttrValue tag name =>
    obtain ⟨htag, hname⟩ := hmode
    simp only [Html.feed]
    split_ifs
    · exact ⟨hts, htag, hname⟩
    · exact ⟨hts, htag, hname⟩
    · exact good_emit hts (htag.add hname)
    · exact ⟨hts, htag, hname⟩
  | quoted quote tag name raw =>
    obtain ⟨htag, hname⟩ := hmode
    simp only [Html.feed]
    split_ifs
    · exact ⟨hts, htag.add hname⟩
    · exact ⟨hts, htag, hname⟩
  | unquoted tag name raw =>
    obtain ⟨htag, hname⟩ := hmode
    simp only [Html.feed]
    split_ifs
    · exact ⟨hts, htag.add hname⟩
    · exact good_emit hts (htag.add hname)
    · exact ⟨hts, htag, hname⟩
  | afterQuoted tag => exact good_feedAttrName hts hmode hc
  | selfClosing tag =>
    simp only [Html.feed]
    split_ifs
    · exact good_emit hts hmode
    · exact good_feedAttrName hts hmode hc
  | other => exact ⟨hts, trivial⟩

theorem State.Good.feeds (h : st.Good) (hs : '\r' ∉ s) : (feeds E st s).Good := by
  induction s generalizing st with
  | nil => exact h
  | cons c s ih =>
    rw [List.mem_cons, not_or] at hs
    exact ih (h.feed (Ne.symm hs.1)) hs.2

/-- Whatever the source, the tokens have names of this form. -/
theorem good_tokenize {html : Text} (h : tokenize E html = some ts) : ∀ t ∈ ts, t.Good := by
  have hgood : (Html.feeds E ⟨[], .data []⟩ (normalize html)).Good :=
    State.Good.feeds ⟨List.forall_mem_nil _, trivial⟩ not_mem_normalizeFrom
  unfold tokenize finish at h
  split at h
  · obtain rfl := Option.some.inj h
    exact good_addText hgood.emitted
  · obtain rfl := Option.some.inj h
    exact good_addText hgood.emitted
  · obtain rfl := Option.some.inj h
    exact good_addText hgood.emitted
  · cases h
  · obtain rfl := Option.some.inj h
    exact hgood.emitted

end Good

/-! ## What is emitted before -/

section Emitted

variable {E : Entities} {ts us : List Token} {mode : Mode} {tag : Tag} {raw s : Text} {c : Char}

/-- The same state after further tokens. -/
def State.after (us : List Token) (st : State) : State := ⟨us ++ st.emitted, st.mode⟩

theorem feedAttrName_append : feedAttrName (us ++ ts) tag c = (feedAttrName ts tag c).after us := by
  unfold feedAttrName emit State.after
  split_ifs <;> simp

theorem feed_append : feed E ⟨us ++ ts, mode⟩ c = (feed E ⟨ts, mode⟩ c).after us := by
  cases mode with
  | beforeAttrName tag => exact feedAttrName_append
  | afterQuoted tag => exact feedAttrName_append
  | selfClosing tag =>
    simp only [feed]
    split_ifs
    · simp [emit, State.after]
    · exact feedAttrName_append
  | other => rfl
  | _ =>
    simp only [feed]
    split_ifs <;> simp [emit, flush, addText_append, State.after]

/-- What was emitted before plays no part. -/
theorem feeds_emitted : feeds E ⟨us ++ ts, mode⟩ s = (feeds E ⟨ts, mode⟩ s).after us := by
  induction s generalizing ts mode with
  | nil => rfl
  | cons c s ih =>
    rw [feeds_cons, feeds_cons, feed_append]
    exact ih

end Emitted

/-! ## Tags that are written again -/

def Token.isTag : Token → Bool
  | .text _ => false
  | _ => true

def tags (ts : List Token) : List Token := ts.filter Token.isTag

/-- An attribute that is written and read. -/
def rereadAttr (E : Entities) (a : Attr) : Attr := (a.1, attrValue E (normalize (escape true a.2)))

def Token.reread (E : Entities) : Token → Token
  | .startTag name attrs => .startTag name (attrs.map (rereadAttr E))
  | t => t

section Reread

variable {E : Entities} {ts us : List Token} {t : Token} {tag : Tag} {name raw s rest : Text}
  {attrs : List Attr} {b : Bool}

theorem tags_append : tags (ts ++ us) = tags ts ++ tags us := List.filter_append ..

theorem tags_addText : tags (addText ts s) = tags ts := by
  unfold addText
  split
  · rfl
  · rw [tags_append]
    exact List.append_nil _

/-- Attributes with different names are all read. -/
theorem foldl_readTag {pairs : List (Text × Option Text)}
    (h : (tag.attrs.map (·.1) ++ pairs.map (·.1)).Nodup) :
    pairs.foldl (readTag E) tag =
      { tag with attrs := tag.attrs ++ pairs.map fun a => (a.1, attrValue E (a.2.getD [])) } := by
  induction pairs generalizing tag with
  | nil => simp
  | cons a pairs ih =>
    have hfresh : tag.attrs.any (·.1 = a.1) = false := by
      rw [List.map_cons, List.nodup_append] at h
      refine List.any_eq_false.mpr fun b hb => ?_
      have hne := h.2.2 b.1 (List.mem_map_of_mem hb) a.1 List.mem_cons_self
      simpa using hne
    have hadd : readTag E tag a =
        { tag with attrs := tag.attrs ++ [(a.1, attrValue E (a.2.getD []))] } := by
      simp [readTag, Tag.add, hfresh]
    rw [List.foldl_cons, hadd, ih (by simpa using h)]
    simp

/-- The line ends of a value stay within it. -/
theorem normalize_writeAttrs (h : ∀ a ∈ attrs, IsAttrName a.1) :
    normalize ((attrs.map fun a => (a.1, some (escape true a.2))).flatMap writeAttr ++ rest) =
      (attrs.map fun a => (a.1, some (normalize (escape true a.2)))).flatMap writeAttr ++
        normalize rest := by
  induction attrs with
  | nil => rfl
  | cons a attrs ih =>
    obtain ⟨hname, hrest⟩ := List.forall_mem_cons.mp h
    have hreturn : '\r' ∉ ' ' :: a.1 ++ ['=', '"'] := by
      have hnot : '\r' ∉ a.1 := fun hmem => (isNameChar_facts (hname.2.1 _ hmem)).2.2.1 rfl
      simp [hnot]
    have hsplit : ∀ raw t, writeAttr (a.1, some raw) ++ t =
        (' ' :: a.1 ++ ['=', '"']) ++ (raw ++ '"' :: t) := fun raw t => by simp [writeAttr]
    rw [List.map_cons, List.map_cons, List.flatMap_cons, List.flatMap_cons, List.append_assoc,
      List.append_assoc, hsplit, hsplit, normalize_append_left hreturn, normalize_append (by simp),
      normalize_cons_of_ne (by decide), ih hrest]

/-- A tag is read as the same tag. -/
theorem feeds_serialize_tag (h : t.Good) (htag : t.isTag) :
    feeds E ⟨us, .data raw⟩ (normalizeFrom b (serialize [t] ++ rest)) =
      feeds E ⟨flush E us raw ++ [t.reread E], .data []⟩ (normalize rest) := by
  cases t with
  | text s => cases htag
  | startTag name attrs =>
    obtain ⟨hname, hattrs, hnodup⟩ := h
    have hok : (Piece.startTag name
        (attrs.map fun a => (a.1, some (normalize (escape true a.2))))).Ok := by
      refine ⟨hname, ?_, .inl ?_⟩
      · rintro a' ha'
        obtain ⟨a, ha, rfl⟩ := List.mem_map.mp ha'
        refine ⟨hattrs a ha, fun v hv hquote => ?_⟩
        obtain rfl := Option.some.inj hv
        exact quote_not_mem_escape (mem_of_mem_normalize (by decide) hquote)
      · rintro a' ha'
        obtain ⟨a, -, rfl⟩ := List.mem_map.mp ha'
        rfl
    have hread : (attrs.map fun a => (a.1, some (normalize (escape true a.2)))).foldl (readTag E)
        ⟨false, name, []⟩ = ⟨false, name, attrs.map (rereadAttr E)⟩ := by
      rw [foldl_readTag (by simpa [Function.comp_def] using hnodup), List.map_map]
      rfl
    have hreturn : '\r' ∉ '<' :: name := by
      have hnot : '\r' ∉ name := fun hmem => (isNameChar_facts (hname.2 _ hmem)).2.2.1 rfl
      simp [hnot]
    have hwrite : serialize [.startTag name attrs] ++ rest = '<' :: name ++
        ((attrs.map fun a => (a.1, some (escape true a.2))).flatMap writeAttr ++ '>' :: rest) := by
      simp [serialize, write, Token.piece, Piece.write]
    have hnormal : normalize (serialize [.startTag name attrs] ++ rest) = (Piece.startTag name
        (attrs.map fun a => (a.1, some (normalize (escape true a.2))))).write ++ normalize rest := by
      rw [hwrite, normalize_append_left hreturn, normalize_writeAttrs hattrs,
        normalize_cons_of_ne (by decide)]
      simp [Piece.write]
    rw [normalizeFrom_eq_normalize (by simp [hwrite]), hnormal, feeds_append, feeds_startTag hok,
      hread]
    rfl
  | endTag name =>
    have hreturn : '\r' ∉ '<' :: '/' :: name ++ ['>'] := by
      have hnot : '\r' ∉ name := fun hmem => (isNameChar_facts (h.2 _ hmem)).2.2.1 rfl
      simp [hnot]
    have hwrite : serialize [.endTag name] = (Piece.endTag name).write := List.append_nil _
    rw [hwrite, normalizeFrom_eq_normalize (by simp [Piece.write]), Piece.write,
      normalize_append_left hreturn, feeds_append, ← Piece.write, feeds_endTag h]
    rfl

theorem feeds_serialize (h : ∀ t ∈ ts, t.Good) (hrest : rest.head? ≠ some '\n') :
    ∃ us' raw', feeds E ⟨us, .data raw⟩ (normalizeFrom b (serialize ts ++ rest)) =
        feeds E ⟨us', .data raw'⟩ (normalize rest) ∧
      tags us' = tags us ++ (tags ts).map (Token.reread E) := by
  induction ts generalizing us raw b with
  | nil => exact ⟨us, raw, by rw [← normalizeFrom_eq_normalize hrest]; rfl, by simp [tags]⟩
  | cons t ts ih =>
    obtain ⟨ht, hts⟩ := List.forall_mem_cons.mp h
    have hsplit : serialize (t :: ts) ++ rest = serialize [t] ++ (serialize ts ++ rest) := by
      rw [← List.append_assoc, ← serialize_append, List.singleton_append]
    by_cases htag : t.isTag
    · rw [hsplit, feeds_serialize_tag ht htag]
      obtain ⟨us', raw', hfeeds, htags⟩ := @ih (flush E us raw ++ [t.reread E]) [] false hts
      have hreread : (t.reread E).isTag := by
        cases t with
        | text s => exact htag
        | startTag name attrs => rfl
        | endTag name => rfl
      refine ⟨us', raw', hfeeds, ?_⟩
      rw [htags, tags_append, flush, tags_addText]
      simp [tags, htag, hreread]
    · -- the text is put together with the next
      cases t with
      | text s =>
        have hlt : '<' ∉ normalizeFrom b (escape false s) := fun hmem =>
          lt_not_mem_escape (mem_of_mem_normalizeFrom (by decide) hmem)
        have hwrite : serialize [.text s] = escape false s := List.append_nil _
        obtain ⟨b', hb⟩ := @normalizeFrom_append (escape false s) (serialize ts ++ rest) b
        rw [hsplit, hwrite, hb, feeds_append, feeds_data hlt]
        exact ih hts
      | startTag name attrs => exact absurd rfl htag
      | endTag name => exact absurd rfl htag

end Reread

end Html
