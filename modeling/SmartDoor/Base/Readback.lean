-- SUMMARY: When a text that was put between quotation marks, or between two tags, is read back from there.
import SmartDoor.Base.Html

/-!
# Reading back

A source can put a text where the value of an attribute is read, or where a text
is. From the tokens alone one can tell what became of it: a tag that was open
keeps its attributes, and no text becomes longer than its source.
-/

namespace Html

open Script (Text)

/-! ## Tags that go on -/

/-- The same tag with more attributes. -/
structure Tag.Extends (tag tag' : Tag) : Prop where
  close : tag'.close = tag.close
  name : tag'.name = tag.name
  attrs : tag.attrs <+: tag'.attrs

/-- The tag whose attributes are being read. -/
def Mode.inside : Mode → Option Tag
  | .beforeAttrName tag => some tag
  | .attrName tag _ => some tag
  | .afterAttrName tag _ => some tag
  | .beforeAttrValue tag _ => some tag
  | .quoted _ tag _ _ => some tag
  | .unquoted tag _ _ => some tag
  | .afterQuoted tag => some tag
  | .selfClosing tag => some tag
  | _ => none

/-- After the tokens `ts` comes the tag with these attributes first, if it ends at all. -/
def Opened (ts : List Token) (tag : Tag) (st : State) : Prop :=
  ∃ tag', tag.Extends tag' ∧
    (st.emitted = ts ∧ st.mode.inside = some tag' ∨ ∃ more, st.emitted = ts ++ tag'.token :: more)

section Open

variable {E : Entities} {ts : List Token} {st : State} {tag tag' : Tag} {name value raw s : Text}
  {c : Char}

theorem Tag.Extends.refl : tag.Extends tag := ⟨rfl, rfl, List.prefix_rfl⟩

theorem Tag.Extends.add (h : tag.Extends tag') : tag.Extends (tag'.add name value) := by
  unfold Tag.add
  split
  · exact h
  · exact ⟨h.close, h.name, h.attrs.trans (List.prefix_append _ _)⟩

theorem opened_of_inside {mode : Mode} (h : tag.Extends tag') (hmode : mode.inside = some tag') :
    Opened ts tag ⟨ts, mode⟩ := ⟨tag', h, .inl ⟨rfl, hmode⟩⟩

theorem opened_emit (h : tag.Extends tag') : Opened ts tag (emit ts tag') :=
  ⟨tag', h, .inr ⟨[], rfl⟩⟩

theorem opened_feedAttrName (h : tag.Extends tag') : Opened ts tag (feedAttrName ts tag' c) := by
  unfold feedAttrName
  split_ifs
  · exact opened_of_inside h rfl
  · exact opened_of_inside h rfl
  · exact opened_emit h
  · exact opened_of_inside h rfl

theorem prefix_flush : ts <+: flush E ts raw := by
  unfold flush addText
  split
  · exact List.prefix_rfl
  · exact List.prefix_append _ _

/-- Tokens are only added. -/
theorem prefix_feed : st.emitted <+: (feed E st c).emitted := by
  unfold feed feedAttrName
  split <;> (try split_ifs) <;>
    first | exact List.prefix_rfl | exact prefix_flush | exact List.prefix_append _ _

theorem Opened.feed (h : Opened ts tag st) : Opened ts tag (feed E st c) := by
  obtain ⟨tag', hext, ⟨rfl, hmode⟩ | ⟨more, hmore⟩⟩ := h
  · obtain ⟨ts, mode⟩ := st
    -- a tag that is open goes on, perhaps with one more attribute, or is emitted
    cases mode with
    | beforeAttrName tag₁ =>
      obtain rfl := Option.some.inj hmode
      exact opened_feedAttrName hext
    | attrName tag₁ name =>
      obtain rfl := Option.some.inj hmode
      simp only [Html.feed]
      split_ifs
      · exact opened_of_inside hext rfl
      · exact opened_of_inside hext.add rfl
      · exact opened_emit hext.add
      · exact opened_of_inside hext rfl
      · exact opened_of_inside hext rfl
    | afterAttrName tag₁ name =>
      obtain rfl := Option.some.inj hmode
      simp only [Html.feed]
      split_ifs
      · exact opened_of_inside hext rfl
      · exact opened_of_inside hext.add rfl
      · exact opened_of_inside hext rfl
      · exact opened_emit hext.add
      · exact opened_of_inside hext.add rfl
    | beforeAttrValue tag₁ name =>
      obtain rfl := Option.some.inj hmode
      simp only [Html.feed]
      split_ifs
      · exact opened_of_inside hext rfl
      · exact opened_of_inside hext rfl
      · exact opened_emit hext.add
      · exact opened_of_inside hext rfl
    | quoted quote tag₁ name raw =>
      obtain rfl := Option.some.inj hmode
      simp only [Html.feed]
      split_ifs
      · exact opened_of_inside hext.add rfl
      · exact opened_of_inside hext rfl
    | unquoted tag₁ name raw =>
      obtain rfl := Option.some.inj hmode
      simp only [Html.feed]
      split_ifs
      · exact opened_of_inside hext.add rfl
      · exact opened_emit hext.add
      · exact opened_of_inside hext rfl
    | afterQuoted tag₁ =>
      obtain rfl := Option.some.inj hmode
      exact opened_feedAttrName hext
    | selfClosing tag₁ =>
      obtain rfl := Option.some.inj hmode
      simp only [Html.feed]
      split_ifs
      · exact opened_emit hext
      · exact opened_feedAttrName hext
    | _ => cases hmode
  · obtain ⟨new, hnew⟩ := @prefix_feed E st c
    exact ⟨tag', hext, .inr ⟨more ++ new, by simp [← hnew, hmore]⟩⟩

theorem Opened.feeds (h : Opened ts tag st) : Opened ts tag (feeds E st s) := by
  induction s generalizing st with
  | nil => exact h
  | cons c s ih => exact ih h.feed

theorem prefix_finish {tokens : List Token} (h : finish E st = some tokens) :
    st.emitted <+: tokens := by
  unfold finish at h
  split at h <;> cases h <;> first | exact prefix_flush | exact List.prefix_rfl

theorem finish_of_inside {tokens : List Token} (hmode : st.mode.inside = some tag)
    (h : finish E st = some tokens) : tokens = st.emitted := by
  obtain ⟨ts, mode⟩ := st
  cases mode <;> cases hmode <;> exact (Option.some.inj h).symm

/-- If the tag that was open is emitted at all, it has its attributes first. -/
theorem Opened.finish {tokens : List Token} (h : Opened ts tag st)
    (hfinish : finish E st = some tokens) :
    tokens = ts ∨ ∃ tag' more, tag.Extends tag' ∧ tokens = ts ++ tag'.token :: more := by
  obtain ⟨tag', hext, ⟨rfl, hmode⟩ | ⟨more, hmore⟩⟩ := h
  · exact .inl (finish_of_inside hmode hfinish)
  · obtain ⟨new, hnew⟩ := prefix_finish hfinish
    exact .inr ⟨tag', more ++ new, hext, by simp [← hnew, hmore]⟩

/-- What comes before the first quotation mark. -/
theorem exists_quoted : ∃ p rest, s ++ '"' :: raw = p ++ '"' :: rest ∧ '"' ∉ p ∧
    (p = s ∧ rest = raw ∨ p.length < s.length) := by
  by_cases hs : '"' ∈ s
  · obtain ⟨p, post, rfl, hp⟩ := List.eq_append_cons_of_mem hs
    refine ⟨p, post ++ '"' :: raw, by simp, hp, .inr ?_⟩
    simp only [List.length_append, List.length_cons]
    omega
  · exact ⟨s, raw, rfl, hs, .inl ⟨rfl, rfl⟩⟩

/-- A start tag is read with the value up to the first quotation mark. -/
theorem value_of_finish {element : Text} {attrs : List Attr} {more : List Token}
    (hname : tag.attrs.any (·.1 = name) = false) (hclose : tag.close = false)
    (h : finish E (Html.feeds E ⟨ts, .quoted '"' tag name []⟩ (s ++ '"' :: raw)) =
      some (ts ++ .startTag element attrs :: more)) :
    ∃ p, tag.attrs ++ [(name, attrValue E p)] <+: attrs ∧
      (p = s ∧ '"' ∉ s ∨ p.length < s.length) := by
  obtain ⟨p, rest, hsplit, hp, hcases⟩ := @exists_quoted raw s
  refine ⟨p, ?_, hcases.imp (And.rec fun heq _ => ⟨heq, heq ▸ hp⟩) id⟩
  have hafter : Html.feed E ⟨ts, .quoted '"' tag name p⟩ '"' =
      ⟨ts, .afterQuoted (tag.add name (attrValue E p))⟩ := rfl
  rw [hsplit, feeds_append, feeds_quoted hp, feeds_cons, List.nil_append, hafter] at h
  have hopened : Opened ts (tag.add name (attrValue E p))
      ⟨ts, .afterQuoted (tag.add name (attrValue E p))⟩ := opened_of_inside .refl rfl
  have hadd : tag.add name (attrValue E p) =
      { tag with attrs := tag.attrs ++ [(name, attrValue E p)] } := by simp [Tag.add, hname]
  obtain hnone | ⟨tag', more', hext, htokens⟩ := (hopened.feeds (E := E) (s := rest)).finish h
  · simp at hnone
  · obtain ⟨htoken, -⟩ := List.cons.inj (List.append_cancel_left htokens)
    have hprefix := hext.attrs
    rw [hadd] at hprefix
    have hclose' : tag'.close = false := by rw [hext.close, hadd]; exact hclose
    simp only [Tag.token, hclose', Bool.false_eq_true, if_false] at htoken
    obtain ⟨-, rfl⟩ := Token.startTag.inj htoken
    exact hprefix

/-- A value that is read no shorter than it was written is read whole. -/
theorem attrValue_of_finish {element : Text} {more : List Token}
    (hname : tag.attrs.any (·.1 = name) = false) (hclose : tag.close = false)
    (hlength : s.length ≤ value.length)
    (h : finish E (Html.feeds E ⟨ts, .quoted '"' tag name []⟩ (s ++ '"' :: raw)) =
      some (ts ++ .startTag element (tag.attrs ++ [(name, value)]) :: more)) :
    attrValue E s = value ∧ '"' ∉ s := by
  obtain ⟨p, hprefix, hp⟩ := value_of_finish hname hclose h
  have hattr : attrValue E p = value := by
    have heq := hprefix.eq_of_length (by simp)
    simpa using heq
  have hle : value.length ≤ p.length := hattr ▸ attrValue_length_le
  obtain ⟨rfl, hquote⟩ | hlt := hp
  · exact ⟨hattr, hquote⟩
  · omega

end Open

/-! ## Texts between tags -/

/-- After `<` the character is not part of a text. -/
def startsMarkup (c : Char) : Bool := c.isAlpha ∨ c = '/' ∨ c = '!' ∨ c = '?'

/-- No `<` starts anything but itself. -/
def PlainText (s : Text) : Prop :=
  ∀ pre c post, s = pre ++ '<' :: c :: post → startsMarkup c = false

/-- The characters of the texts. -/
def textLength : List Token → Nat
  | [] => 0
  | .text s :: ts => s.length + textLength ts
  | _ :: ts => textLength ts

/-- The characters that may still become a text. -/
def Mode.pending : Mode → Nat
  | .data raw => raw.length
  | .tagOpen raw => raw.length + 1
  | .endTagOpen raw => raw.length + 2
  | _ => 0

/-- No text can become longer than this without a further character. -/
def State.bound (st : State) : Nat := textLength st.emitted + st.mode.pending

/-- After the text `s`, of which no `<` starts anything. -/
def textState (ts : List Token) (s : Text) : State :=
  if s.getLast? = some '<' then ⟨ts, .tagOpen s.dropLast⟩ else ⟨ts, .data s⟩

section Texts

variable {E : Entities} {ts us : List Token} {st : State} {tag : Tag} {raw s name : Text}
  {c : Char}

theorem textLength_append : textLength (ts ++ us) = textLength ts + textLength us := by
  induction ts with
  | nil => simp [textLength]
  | cons token ts ih =>
    cases token with
    | text s => simp [textLength, ih, Nat.add_assoc]
    | startTag name attrs => simpa [textLength] using ih
    | endTag name => simpa [textLength] using ih

theorem textLength_addText : textLength (addText ts s) = textLength ts + s.length := by
  unfold addText
  split
  · next h => simp [h]
  · simp [textLength_append, textLength]

theorem textLength_flush_le : textLength (flush E ts raw) ≤ textLength ts + raw.length := by
  rw [flush, textLength_addText]
  exact Nat.add_le_add_left textData_length_le _

theorem bound_emit : (emit ts tag).bound = textLength ts := by
  unfold emit Tag.token State.bound
  split <;> simp [textLength_append, textLength, Mode.pending]

theorem bound_feedAttrName : (feedAttrName ts tag c).bound = textLength ts := by
  unfold feedAttrName
  split_ifs
  · rfl
  · rfl
  · exact bound_emit
  · rfl

/-- In a tag, or in what is left out. -/
def Mode.quiet : Mode → Bool
  | .data _ => false
  | .tagOpen _ => false
  | .endTagOpen _ => false
  | _ => true

theorem bound_of_quiet (h : st.mode.quiet) : st.bound = textLength st.emitted := by
  obtain ⟨ts, mode⟩ := st
  cases mode <;> first | rfl | cases h

theorem feedAttrName_quiet (hc : c ≠ '>') : (feedAttrName ts tag c).mode.quiet := by
  unfold feedAttrName
  split_ifs <;> rfl

/-- A tag adds nothing to a text, and ends only at `>`. -/
theorem feed_of_quiet (h : st.mode.quiet) :
    (feed E st c).bound = textLength st.emitted ∧ (c ≠ '>' → (feed E st c).mode.quiet) := by
  obtain ⟨ts, mode⟩ := st
  cases mode with
  | data raw => cases h
  | tagOpen raw => cases h
  | endTagOpen raw => cases h
  | beforeAttrName tag => exact ⟨bound_feedAttrName, feedAttrName_quiet⟩
  | afterQuoted tag => exact ⟨bound_feedAttrName, feedAttrName_quiet⟩
  | selfClosing tag =>
    simp only [feed]
    split_ifs with hc
    · exact ⟨bound_emit, fun hne => absurd hc hne⟩
    · exact ⟨bound_feedAttrName, feedAttrName_quiet⟩
  | other => exact ⟨rfl, fun _ => rfl⟩
  | _ =>
    simp only [feed]
    split_ifs <;>
      first
      | exact ⟨rfl, fun _ => rfl⟩
      | exact ⟨bound_emit, fun hne => absurd ‹c = '>'› hne⟩

/-- One more character makes the texts longer by one at most. -/
theorem bound_feed_le : (feed E st c).bound ≤ st.bound + 1 := by
  by_cases hquiet : st.mode.quiet
  · rw [(feed_of_quiet hquiet).1, bound_of_quiet hquiet]
    exact Nat.le_succ _
  · obtain ⟨ts, mode⟩ := st
    cases mode with
    | data raw =>
      simp only [feed, State.bound]
      split_ifs <;> simp [Mode.pending] <;> omega
    | tagOpen raw =>
      have hflush := @textLength_flush_le E ts raw
      simp only [feed, State.bound]
      split_ifs <;> simp [Mode.pending] <;> omega
    | endTagOpen raw =>
      have hflush := @textLength_flush_le E ts raw
      simp only [feed, State.bound]
      split_ifs <;> simp [Mode.pending] <;> omega
    | _ => exact absurd rfl hquiet

theorem bound_feeds_le : (feeds E st s).bound ≤ st.bound + s.length := by
  induction s generalizing st with
  | nil => simp
  | cons c s ih =>
    have := @bound_feed_le E st c
    have := @ih (feed E st c)
    simp only [feeds_cons, List.length_cons]
    omega

theorem textLength_finish_le {tokens : List Token} (h : finish E st = some tokens) :
    textLength tokens ≤ st.bound := by
  obtain ⟨ts, mode⟩ := st
  cases mode with
  | data raw =>
    obtain rfl := Option.some.inj h
    exact textLength_flush_le
  | tagOpen raw =>
    obtain rfl := Option.some.inj h
    exact textLength_flush_le.trans (by simp [State.bound, Mode.pending])
  | endTagOpen raw =>
    obtain rfl := Option.some.inj h
    exact textLength_flush_le.trans (by simp [State.bound, Mode.pending])
  | other => cases h
  | _ =>
    obtain rfl := Option.some.inj h
    exact Nat.le_add_right _ _

theorem feeds_of_quiet (h : st.mode.quiet) (hs : '>' ∉ s) :
    (feeds E st s).mode.quiet ∧ (feeds E st s).bound = st.bound := by
  induction s generalizing st with
  | nil => exact ⟨h, rfl⟩
  | cons c s ih =>
    rw [List.mem_cons, not_or] at hs
    obtain ⟨hbound, hquiet⟩ := @feed_of_quiet E st c h
    obtain ⟨hrest, hbound'⟩ := ih (hquiet (Ne.symm hs.1)) hs.2
    exact ⟨hrest, by rw [feeds_cons, hbound', hbound, bound_of_quiet h]⟩

/-- After `</` and a letter nothing is pending any more. -/
theorem feeds_endTagOpen (hc : c.isLower) :
    (feeds E st ['<', '/', c]).mode.quiet ∧ (feeds E st ['<', '/', c]).bound ≤ st.bound := by
  by_cases hquiet : st.mode.quiet
  · have hgt := (isLower_facts hc).2.2.2.2.2.1
    obtain ⟨hmode, hbound⟩ := @feeds_of_quiet E st ['<', '/', c] hquiet (by simp [Ne.symm hgt])
    exact ⟨hmode, hbound.le⟩
  · have halpha := (isLower_facts hc).1
    obtain ⟨ts, mode⟩ := st
    cases mode with
    | data raw =>
      have hflush := @textLength_flush_le E ts raw
      simp [feed, halpha, State.bound, Mode.quiet, Mode.pending]
      omega
    | tagOpen raw =>
      have hflush := @textLength_flush_le E ts (raw ++ ['<'])
      simp [feed, halpha, State.bound, Mode.quiet, Mode.pending] at hflush ⊢
      omega
    | endTagOpen raw =>
      simp [feed, State.bound, Mode.quiet, Mode.pending]
    | _ => exact absurd rfl hquiet

/-- An end tag adds nothing to a text. -/
theorem bound_feeds_endTag (h : IsName name) :
    (feeds E st (Piece.endTag name).write).bound ≤ st.bound := by
  obtain ⟨hne, hlower⟩ := h
  cases name with
  | nil => exact absurd rfl hne
  | cons c name =>
    obtain ⟨hc, hname⟩ := List.forall_mem_cons.mp hlower
    have hgt : '>' ∉ name := fun hmem => absurd (hname _ hmem) (by decide)
    obtain ⟨hquiet, hbound⟩ := @feeds_endTagOpen E st c hc
    obtain ⟨hquiet', hbound'⟩ := @feeds_of_quiet E _ name hquiet hgt
    have hsplit : (Piece.endTag (c :: name)).write = ['<', '/', c] ++ (name ++ ['>']) := rfl
    rw [hsplit, feeds_append, feeds_append, feeds_cons, feeds_nil, (feed_of_quiet hquiet').1,
      ← bound_of_quiet hquiet', hbound']
    exact hbound

/-! ## Texts that are read whole -/

theorem plainText_concat_iff : PlainText (s ++ [c]) ↔
    PlainText s ∧ (s.getLast? = some '<' → startsMarkup c = false) := by
  constructor
  · intro h
    refine ⟨fun pre d post heq => h pre d (post ++ [c]) (by simp [heq]), fun hlast => ?_⟩
    obtain ⟨pre, rfl⟩ := List.getLast?_eq_some_iff.mp hlast
    exact h pre c [] (by simp)
  · rintro ⟨hs, hlast⟩ pre d post heq
    obtain rfl | ⟨post, e, rfl⟩ := List.eq_nil_or_concat' post
    · have hsplit : s ++ [c] = (pre ++ ['<']) ++ [d] := by simpa using heq
      obtain ⟨rfl, hd⟩ := List.append_inj' hsplit rfl
      obtain rfl := List.singleton_inj.mp hd
      exact hlast (by simp)
    · have hsplit : s ++ [c] = (pre ++ '<' :: d :: post) ++ [e] := by simpa using heq
      exact hs pre d post (List.append_inj' hsplit rfl).1

theorem textState_concat (hc : s.getLast? = some '<' → startsMarkup c = false) :
    feed E (textState ts s) c = textState ts (s ++ [c]) := by
  unfold textState
  by_cases hlast : s.getLast? = some '<'
  · have hmarkup := hc hlast
    simp only [startsMarkup, decide_eq_false_iff_not, not_or] at hmarkup
    obtain ⟨halpha, hslash, hexclamation, hquestion⟩ := hmarkup
    obtain ⟨pre, rfl⟩ := List.getLast?_eq_some_iff.mp hlast
    by_cases hlt : c = '<'
    · subst hlt
      simp [feed]
    · simp [feed, halpha, hslash, hexclamation, hquestion, hlt]
  · by_cases hlt : c = '<'
    · subst hlt
      simp [feed, hlast]
    · simp [feed, hlast, hlt]

/-- A tag, or what is left out, takes the `<` before it from the text. -/
theorem feed_tagOpen_of_markup (h : startsMarkup c) :
    (feed E ⟨ts, .tagOpen raw⟩ c).bound ≤ textLength ts + raw.length ∨
      (feed E ⟨ts, .tagOpen raw⟩ c).mode = .endTagOpen raw := by
  simp only [startsMarkup, decide_eq_true_eq] at h
  by_cases halpha : c.isAlpha
  · left
    simpa [feed, halpha, State.bound, Mode.pending] using textLength_flush_le
  · obtain h | rfl | h := h
    · exact absurd h halpha
    · exact .inr rfl
    · left
      have hslash : c ≠ '/' := by rintro rfl; simp at h
      simp [feed, halpha, hslash, h, State.bound, Mode.pending]

theorem bound_feed_endTagOpen_le :
    (feed E ⟨ts, .endTagOpen raw⟩ c).bound ≤ textLength ts + raw.length := by
  simp only [feed, State.bound]
  split_ifs
  · exact textLength_flush_le
  · exact le_rfl
  · exact Nat.le_add_right _ _

/-- A text of which no `<` starts anything is read whole. -/
theorem PlainText.feeds (h : PlainText s) : feeds E ⟨ts, .data []⟩ s = textState ts s := by
  induction s using List.reverseRecOn with
  | nil => rfl
  | append_singleton s c ih =>
    obtain ⟨hs, hc⟩ := plainText_concat_iff.mp h
    rw [feeds_append, ih hs]
    exact textState_concat hc

/-- Any other text loses a part, or ends with `</`. -/
theorem feeds_of_not_plainText (h : ¬ PlainText s) :
    (feeds E ⟨ts, .data []⟩ s).bound < textLength ts + s.length ∨
      ∃ raw, (feeds E ⟨ts, .data []⟩ s).mode = .endTagOpen raw := by
  induction s using List.reverseRecOn with
  | nil => exact absurd (fun pre c post heq => by simp at heq) h
  | append_singleton s c ih =>
    rw [feeds_append, feeds_cons, feeds_nil, List.length_append, List.length_singleton]
    by_cases hs : PlainText s
    · have hc : ¬ (s.getLast? = some '<' → startsMarkup c = false) := fun hc =>
        h (plainText_concat_iff.mpr ⟨hs, hc⟩)
      obtain ⟨hlast, hmarkup⟩ := Classical.not_imp.mp hc
      obtain ⟨pre, rfl⟩ := List.getLast?_eq_some_iff.mp hlast
      have hopen : textState ts (pre ++ ['<']) = ⟨ts, .tagOpen pre⟩ := by simp [textState]
      rw [hs.feeds, hopen]
      obtain hbound | hmode := @feed_tagOpen_of_markup E ts pre c (by simpa using hmarkup)
      · refine .inl ?_
        simp only [List.length_append, List.length_singleton]
        omega
      · exact .inr ⟨pre, hmode⟩
    · obtain hlost | ⟨raw, hmode⟩ := ih hs
      · have := @bound_feed_le E (Html.feeds E ⟨ts, .data []⟩ s) c
        exact .inl (by omega)
      · -- what follows `</` leaves at least these two characters out
        have hbefore := @bound_feeds_le E ⟨ts, .data []⟩ s
        have hstate : Html.feeds E ⟨ts, .data []⟩ s =
            ⟨(Html.feeds E ⟨ts, .data []⟩ s).emitted, .endTagOpen raw⟩ := by rw [← hmode]
        have hafter := @bound_feed_endTagOpen_le E (Html.feeds E ⟨ts, .data []⟩ s).emitted raw c
        rw [← hstate] at hafter
        simp only [State.bound, hmode, Mode.pending, List.length_nil] at hbefore
        exact .inl (by omega)

/-- A text that is read whole ends before an end tag. -/
theorem feeds_textState_endTag (h : IsName name) :
    feeds E (textState ts s) (Piece.endTag name).write =
      ⟨flush E ts s ++ [.endTag name], .data []⟩ := by
  unfold textState
  split
  · next hlast =>
    obtain ⟨pre, rfl⟩ := List.getLast?_eq_some_iff.mp hlast
    -- the `<` at the end of the text is followed by that of the tag
    have hopen : feeds E ⟨ts, .tagOpen pre⟩ (Piece.endTag name).write =
        feeds E ⟨ts, .data (pre ++ ['<'])⟩ (Piece.endTag name).write := rfl
    rw [List.dropLast_concat, hopen, feeds_endTag h.isTagName]
  · exact feeds_endTag h.isTagName

theorem addText_injective {t : Text} (h : addText ts s = addText ts t) : s = t := by
  unfold addText at h
  split_ifs at h with hs ht ht
  · rw [hs, ht]
  · simp at h
  · simp at h
  · simpa using h

theorem feeds_other : feeds E ⟨ts, .other⟩ s = ⟨ts, .other⟩ := by
  induction s with
  | nil => rfl
  | cons c s ih => exact ih

/-- A text before an end tag is read as `t`, which is no shorter, if and only if no `<` of
it starts anything and its references stand for `t`. -/
theorem feeds_text_endTag_iff {t : Text} (h : IsName name) (hlength : s.length ≤ t.length) :
    finish E (feeds E ⟨ts, .data []⟩ (s ++ (Piece.endTag name).write)) =
      some (addText ts t ++ [.endTag name]) ↔ PlainText s ∧ textData E s = t := by
  rw [feeds_append]
  constructor
  · intro hread
    have hplain : PlainText s := by
      by_contra hnot
      obtain hlost | ⟨raw, hmode⟩ := @feeds_of_not_plainText E ts s hnot
      · have hlong := textLength_finish_le hread
        have hend := @bound_feeds_endTag E (feeds E ⟨ts, .data []⟩ s) name h
        simp only [textLength_append, textLength_addText] at hlong
        omega
      · -- a comment starts
        have hstate : feeds E ⟨ts, .data []⟩ s =
            ⟨(feeds E ⟨ts, .data []⟩ s).emitted, .endTagOpen raw⟩ := by rw [← hmode]
        have hother : feeds E ⟨(feeds E ⟨ts, .data []⟩ s).emitted, .endTagOpen raw⟩
            (Piece.endTag name).write = ⟨(feeds E ⟨ts, .data []⟩ s).emitted, .other⟩ := feeds_other
        rw [hstate, hother] at hread
        cases hread
    rw [hplain.feeds, feeds_textState_endTag h] at hread
    have heq : flush E ts s ++ [.endTag name] = addText ts t ++ [.endTag name] :=
      Option.some.inj hread
    exact ⟨hplain, addText_injective (List.append_inj_left' heq rfl)⟩
  · rintro ⟨hplain, rfl⟩
    rw [hplain.feeds, feeds_textState_endTag h]
    rfl

end Texts

end Html
