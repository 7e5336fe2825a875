-- SUMMARY: The page starts with the last choice of a door exactly if the cookies take its name and its door unchanged.
import SmartDoor.Web.App

/-!
# Remember me

Three cookies carry a choice to the next load of the page, and nothing is encoded
on the way. What comes back of a name or a door is its part before the first `;`,
without the blanks around it; whether the choice was to be remembered comes back
in any case.
-/

namespace SmartDoor.Web

open Script

variable {lower : Text → Text} {jar : Jar} {choices : List Choice} {choice : Choice}

/-! ## The next page -/

/-- What the page should start with after the last of `choices`, if any. -/
def App.StartsWith (choice : Option Choice) (app : App) : Prop :=
  match choice with
  | some choice =>
    if choice.remember then
      app.name = some (.text choice.name.toList) ∧ app.door = some (.text choice.door.toList) ∧
        app.doorselected = "true".toList
    else app.door = some (.text []) ∧ app.doorselected ≠ "true".toList
  | none => app.door = some (.text []) ∧ app.doorselected ≠ "true".toList

/-- The page loaded after `choices`, without a query string, starts with the last one. -/
def Restored (lower : Text → Text) (jar : Jar) (choices : List Choice) : Prop :=
  ∃ app, App.construct lower (chooseDoors jar choices).text .fresh [] = .ok app ∧
    app.StartsWith choices.getLast?

/-- A text that a cookie takes as it is. -/
def CookieText (s : Text) : Prop := ';' ∉ s ∧ trim s = s

instance {s : Text} : Decidable (CookieText s) := inferInstanceAs (Decidable (_ ∧ _))

/-! ## The three cookies -/

theorem plainName_name : PlainName "name".toList := ⟨by decide, by decide, by decide⟩

theorem plainName_door : PlainName "door".toList := ⟨by decide, by decide, by decide⟩

theorem plainName_doorselected : PlainName "doorselected".toList :=
  ⟨by decide, by decide, by decide⟩

theorem construct_nil {cookie : Text} :
    App.construct lower cookie .fresh [] = .ok (App.fromCookies cookie) := rfl

theorem fromCookies_text : App.fromCookies jar.text = {
    doorselected := (jar.lookup "doorselected".toList).getD []
    door := some (.text ((jar.lookup "door".toList).getD []))
    name := some (.text ((jar.lookup "name".toList).getD []))
    curpage := some "main".toList
    app := false } := by
  unfold App.fromCookies
  rw [getCookie_text plainName_name, getCookie_text plainName_door,
    getCookie_text plainName_doorselected]

/-! ## A choice -/

theorem lookup_chooseDoor_of_remember (jar : Jar) (h : choice.remember = true) :
    (chooseDoor jar choice).lookup "name".toList = some (storedValue choice.name.toList) ∧
    (chooseDoor jar choice).lookup "door".toList = some (storedValue choice.door.toList) ∧
    (chooseDoor jar choice).lookup "doorselected".toList = some "true".toList := by
  unfold chooseDoor
  dsimp only
  rw [if_pos h]
  refine ⟨?_, ?_, ?_⟩
  · rw [lookup_setCookie_of_ne plainName_doorselected (by decide),
      lookup_setCookie_of_ne plainName_door (by decide), lookup_setCookie_self plainName_name]
  · rw [lookup_setCookie_of_ne plainName_doorselected (by decide),
      lookup_setCookie_self plainName_door]
  · exact lookup_setCookie_self plainName_doorselected

theorem lookup_chooseDoor_of_not_remember (jar : Jar)
    (h : choice.remember = false) :
    (chooseDoor jar choice).lookup "door".toList = some [] ∧
    (chooseDoor jar choice).lookup "doorselected".toList = some "false".toList := by
  unfold chooseDoor
  dsimp only
  rw [if_neg (by simp [h])]
  refine ⟨lookup_setCookie_self plainName_door, ?_⟩
  rw [lookup_setCookie_of_ne plainName_door (by decide)]
  exact lookup_setCookie_self plainName_doorselected

/-- A page with a choice to remember starts with what the cookies have kept of it. -/
theorem startsWith_chooseDoor_iff :
    (App.fromCookies (chooseDoor jar choice).text).StartsWith (some choice) ↔
      (choice.remember = true → CookieText choice.name.toList ∧ CookieText choice.door.toList) := by
  rw [fromCookies_text]
  unfold App.StartsWith
  dsimp only
  cases h : choice.remember with
  | true =>
    obtain ⟨hname, hdoor, hdoorselected⟩ := lookup_chooseDoor_of_remember jar h
    rw [hname, hdoor, hdoorselected, if_pos rfl]
    simp only [Option.getD_some, Option.some.injEq, Value.text.injEq, storedValue_eq_self_iff,
      and_true, true_imp_iff, CookieText]
  | false =>
    obtain ⟨hdoor, hdoorselected⟩ := lookup_chooseDoor_of_not_remember jar h
    rw [hdoor, hdoorselected, if_neg (by decide)]
    have hne : "false".toList ≠ "true".toList := by decide
    simp only [Option.getD_some, hne, ne_eq, not_false_eq_true, and_self, true_iff]
    exact fun hremember => absurd hremember (by decide)

/-! ## Any number of choices -/

/-- The page starts with the last choice exactly if it was not to be remembered, or
the cookies take its name and its door as they are. Only if nothing was chosen the
cookies from before count. -/
theorem restored_iff_cookieText (h : choices = [] → jar.cookies = []) :
    Restored lower jar choices ↔ ∀ choice ∈ choices.getLast?, choice.remember = true →
      CookieText choice.name.toList ∧ CookieText choice.door.toList := by
  unfold Restored
  simp only [construct_nil, Except.ok.injEq, exists_eq_left']
  cases choices using List.reverseRecOn with
  | nil =>
    have hlookup : ∀ name, jar.lookup name = none := fun name => by simp [Jar.lookup, h rfl]
    simp [chooseDoors, fromCookies_text, App.StartsWith, hlookup]
  | append_singleton before last =>
    have hlast : chooseDoors jar (before ++ [last]) = chooseDoor (chooseDoors jar before) last :=
      List.foldl_concat ..
    rw [hlast, List.getLast?_concat, startsWith_chooseDoor_iff]
    simp

/-- A choice of the door "home" to be remembered, with some date. -/
def choiceOf (name : String) : Choice where
  name := name
  door := "home"
  remember := true
  expires := fun _ => "Thu, 01 Dec 2016 12:00:00 GMT".toList

theorem restored_iff_cookieText_twoNames :
    Restored (List.map Char.toLower) .empty [choiceOf "Ann", choiceOf "Bob"] := by
  refine (restored_iff_cookieText (by simp)).mpr fun choice hchoice _ => ?_
  obtain rfl : choiceOf "Bob" = choice := Option.some.inj hchoice
  decide

/-- A name with a `;` comes back without the rest. -/
theorem name_with_semicolon_not_restored :
    ¬ Restored (List.map Char.toLower) .empty [choiceOf "Ann;Bob"] := by
  unfold Restored
  simp only [construct_nil, Except.ok.injEq, exists_eq_left']
  intro h
  have hstart : (App.fromCookies (chooseDoor .empty (choiceOf "Ann;Bob")).text).StartsWith
    (some (choiceOf "Ann;Bob")) := h
  have hname := startsWith_chooseDoor_iff.mp hstart rfl
  revert hname
  decide

end SmartDoor.Web
