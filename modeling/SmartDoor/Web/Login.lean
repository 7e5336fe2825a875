-- SUMMARY: The login of the app by a query string selects the door it names exactly if lower case leaves its texts as they are.
import SmartDoor.Web.Params

/-!
# Login by query string

`applogin=true` takes the door and the name from the parameters `doorname` and
`name`. The parser changes their values to lower case and does not decode them, so
a door with a capital letter is not found, nor is one that the browser has to
encode. Another parameter with one of the three names in another case gets in the
way, unless it is empty.
-/

namespace SmartDoor.Web

open Script

/-! ## Lower case and encoding -/

/-- What the page relies on of `toLowerCase`. -/
structure LowerCase (lower : Text → Text) : Prop where
  eq_nil : ∀ s, lower s = [] → s = []
  lower_eq_self : ∀ s, (∀ c ∈ s, 'a' ≤ c ∧ c ≤ 'z') → lower s = s
  percent : ∀ s, '%' ∈ s → '%' ∈ lower s

/-- What a browser does to a text in `window.location.search`. -/
def PercentEncoding (encode : Text → Text) : Prop := ∀ s, encode s = s ∨ '%' ∈ encode s

/-- A query string with the three parameters of a login, among others, for a door
and a name. -/
structure Login (encode : Text → Text) where
  door : Text
  name : Text
  door_free : FreeOf ['&', '=', '#', '%', '+'] door
  name_free : FreeOf ['&', '=', '#', '%', '+'] name
  params : List Param
  no_bracket : ∀ p ∈ params, p.num = none
  nodup : (params.map Param.name).Nodup
  applogin : ∃ p ∈ params, p.name = "applogin".toList ∧ p.value = "true".toList
  doorname : ∃ p ∈ params, p.name = "doorname".toList ∧ p.value = encode door
  username : ∃ p ∈ params, p.name = "name".toList ∧ p.value = encode name

variable {lower encode : Text → Text} {r : Login encode} {ps l m : List Param} {p q : Param}
  {obj : Object} {x : Option Value} {k s v : Text}

section

variable (lower : Text → Text)

/-- Whatever the cookies hold, the page starts with the door and the name that were
asked for, and subscribes to the door. -/
def Login.LogsIn (r : Login encode) : Prop :=
  ∀ cookie, ∃ app, App.construct lower cookie .fresh (query r.params) = .ok app ∧
    app.doorselected = "true".toList ∧ app.door = some (.text r.door) ∧
    app.name = some (.text r.name) ∧ statusref app.mainDoor = doorRef r.door

/-- The parameters of the same name as `k`, in lower case, leave its value `s`: they
are empty, and one behind it changes nothing only if `s` is empty as well. -/
def Undisturbed (ps : List Param) (k s : Text) : Prop :=
  ∀ pre p post, ps = pre ++ p :: post → p.name = k →
    (∀ q ∈ pre, lower q.name = k → q.value = []) ∧
    ∀ q ∈ post, lower q.name = k → s = [] ∧ q.value = []

/-- A text arrives as it is. -/
def Arrives (encode : Text → Text) (s : Text) : Prop := encode s = s ∧ lower s = s

/-- The page understands the login. -/
structure Login.Understood (r : Login encode) : Prop where
  fits : Lists.Everywhere (Fits lower) r.params
  door : Arrives lower encode r.door
  name : Arrives lower encode r.name
  applogin_undisturbed : Undisturbed lower r.params "applogin".toList "true".toList
  doorname_undisturbed : Undisturbed lower r.params "doorname".toList r.door
  name_undisturbed : Undisturbed lower r.params "name".toList r.name

end

/-! ## Lower case -/

theorem LowerCase.nil_iff (h : LowerCase lower) : lower s = [] ↔ s = [] := by
  constructor
  · exact h.eq_nil s
  · rintro rfl
    exact h.lower_eq_self [] (by simp)

/-- A text without `%` comes out of the encoding and the change of case only if it
passes both as it is. -/
theorem arrives_iff (hlower : LowerCase lower) (hencode : PercentEncoding encode)
    (hs : '%' ∉ s) : lower (encode s) = s ↔ Arrives lower encode s := by
  unfold Arrives
  constructor
  · intro h
    obtain heq | hpercent := hencode s
    · exact ⟨heq, by rwa [heq] at h⟩
    · exact absurd (h ▸ hlower.percent _ hpercent) hs
  · rintro ⟨hself, hcase⟩
    rw [hself, hcase]

/-! ## One name -/

/-- A name ends up with the text `s` of its parameter `p` exactly if those before
are empty, and if there are any behind, `s` and they are empty. -/
theorem foldlM_eq_text_iff (hs : lower p.value = [] → s = [])
    (h : (l ++ p :: m).foldlM (nextValue lower) none = .ok x) :
    x = some (.text s) ↔ lower p.value = s ∧ (∀ q ∈ l, lower q.value = []) ∧
      ∀ q ∈ m, s = [] ∧ lower q.value = [] := by
  have hfalsy : ∀ {ps : List Param} {u : Option Value},
      ps.foldlM (nextValue lower) none = .ok u →
      (truthy u = false ↔ ∀ q ∈ ps, lower q.value = []) := fun hu => by
    rw [← Bool.not_eq_true, truthy_iff hu]
    simp
  induction m using List.reverseRecOn with
  | nil =>
    obtain ⟨u, hu, hstep⟩ := foldlM_concat_eq_ok.mp h
    rw [nextValue_eq_text_iff hstep, hfalsy hu]
    simp [and_comm]
  | append_singleton m q =>
    rw [← List.cons_append, ← List.append_assoc] at h
    obtain ⟨u, hu, hstep⟩ := foldlM_concat_eq_ok.mp h
    rw [nextValue_eq_text_iff hstep, hfalsy hu, List.forall_mem_append, List.forall_mem_cons]
    constructor
    · rintro ⟨⟨hl, hp, hm⟩, hq⟩
      obtain rfl := hs hp
      refine ⟨hp, hl, List.forall_mem_append.mpr ⟨fun q hmem => ⟨rfl, hm q hmem⟩, ?_⟩⟩
      simpa using hq
    · rintro ⟨hp, hl, hmq⟩
      obtain ⟨hm, hq⟩ := List.forall_mem_append.mp hmq
      obtain ⟨rfl, hlast⟩ := hq q (by simp)
      exact ⟨⟨hl, hp, fun q hmem => (hm q hmem).2⟩, hlast⟩

/-- What the parser has under the name of a parameter with the value `v`. -/
theorem get_eq_text_iff (hlower : LowerCase lower) (hcollects : Collects lower ps obj)
    (hk : k ∉ inherited) (hcase : lower k = k) (hnodup : (ps.map Param.name).Nodup)
    (hp : ∃ p ∈ ps, p.name = k ∧ p.value = v) (hs : v = [] → s = []) :
    obj.get k = some (.text s) ↔ lower v = s ∧ Undisturbed lower ps k s := by
  have hsplit : ∀ pre p post, ps = pre ++ p :: post → p.name = k →
      (obj.get k = some (.text s) ↔ lower v = s ∧
        (∀ q ∈ pre, lower q.name = k → q.value = []) ∧
        ∀ q ∈ post, lower q.name = k → s = [] ∧ q.value = []) := fun pre p post heq hname => by
    have hvalue : p.value = v := by
      obtain ⟨q, hq, hqname, hqvalue⟩ := hp
      have hpq : p = q := List.inj_on_of_nodup_map hnodup (by simp [heq]) hq (by rw [hname, hqname])
      rw [hpq, hqvalue]
    have hget := hcollects.get_eq k hk
    have hocc : occurrences lower k ps =
        occurrences lower k pre ++ p :: occurrences lower k post := by
      simp [occurrences, heq, hname, hcase]
    rw [hocc] at hget
    rw [foldlM_eq_text_iff (by rwa [hvalue, hlower.nil_iff]) hget, hvalue]
    simp [occurrences, hlower.nil_iff]
  constructor
  · intro hget
    obtain ⟨p, hmem, hname, -⟩ := hp
    obtain ⟨pre, post, heq⟩ := List.append_of_mem hmem
    refine ⟨((hsplit pre p post heq hname).mp hget).1, fun pre p post heq hname => ?_⟩
    exact ((hsplit pre p post heq hname).mp hget).2
  · rintro ⟨hv, hundisturbed⟩
    obtain ⟨p, hmem, hname, -⟩ := hp
    obtain ⟨pre, post, heq⟩ := List.append_of_mem hmem
    exact (hsplit pre p post heq hname).mpr ⟨hv, hundisturbed pre p post heq hname⟩

/-- Parameters whose names differ in more than case do not disturb each other. -/
theorem undisturbed_of_nodup (hnodup : (ps.map (lower ·.name)).Nodup) (hcase : lower k = k) :
    Undisturbed lower ps k s := by
  intro pre p post heq hname
  subst heq
  rw [List.map_append, List.map_cons, hname, hcase] at hnodup
  obtain ⟨-, hpost, hdisjoint⟩ := List.nodup_append.mp hnodup
  constructor
  · intro q hq hqname
    exact absurd hqname (hdisjoint _ (List.mem_map_of_mem hq) _ (by simp))
  · intro q hq hqname
    exact absurd (hqname ▸ List.mem_map_of_mem hq) (List.nodup_cons.mp hpost).1

/-! ## The page -/

theorem isText_iff : isText s x = true ↔ x = some (.text s) := by
  unfold isText
  split
  · simp
  · next hx => exact iff_of_false (by simp) fun heq => hx s heq

/-- The parameters leave the prototype as it is, so the constructor parses the same three times. -/
theorem construct_query {cookie : Text} (hcollects : Collects lower ps obj)
    (hok : getAllUrlParams lower .fresh (query ps) = .ok obj) :
    App.construct lower cookie .fresh (query ps) = .ok (
      if isText "true".toList (obj.get "applogin".toList) then {
        doorselected := "true".toList
        door := obj.get "doorname".toList
        name := obj.get "name".toList
        curpage := none
        app := true }
      else App.fromCookies cookie) := by
  unfold App.construct
  rw [hok]
  simp only [bind, Except.bind, hcollects.prototype_eq, hok]
  split <;> rfl

theorem ownNames_of_fits (hplain : ∀ p ∈ ps, p.num = none)
    (h : Lists.Everywhere (Fits lower) ps) : OwnNames lower ps := fun p hp => by
  obtain ⟨pre, post, heq⟩ := List.append_of_mem hp
  exact (h pre p post heq (hplain p hp)).1

/-- What the parser has to find for the page to log in. -/
structure Login.Parsed (r : Login encode) (obj : Object) : Prop where
  applogin : obj.get "applogin".toList = some (.text "true".toList)
  doorname : obj.get "doorname".toList = some (.text r.door)
  name : obj.get "name".toList = some (.text r.name)

theorem parsed_iff (hlower : LowerCase lower) (hencode : PercentEncoding encode)
    (hcollects : Collects lower r.params obj) :
    r.Parsed obj ↔ (Arrives lower encode r.door ∧ Arrives lower encode r.name) ∧
      Undisturbed lower r.params "applogin".toList "true".toList ∧
      Undisturbed lower r.params "doorname".toList r.door ∧
      Undisturbed lower r.params "name".toList r.name := by
  have hempty : ∀ s, encode s = [] → s = [] := fun s hs => by
    obtain heq | hpercent := hencode s
    · exact heq.symm.trans hs
    · rw [hs] at hpercent
      cases hpercent
  have hdoor : '%' ∉ r.door := fun hmem => r.door_free _ hmem (by simp)
  have hname : '%' ∉ r.name := fun hmem => r.name_free _ hmem (by simp)
  have happlogin := get_eq_text_iff (s := "true".toList) hlower hcollects (by decide)
    (hlower.lower_eq_self "applogin".toList (by simp)) r.nodup r.applogin (by simp)
  have hdoorname := get_eq_text_iff (s := r.door) hlower hcollects (by decide)
    (hlower.lower_eq_self "doorname".toList (by simp)) r.nodup r.doorname (hempty _)
  have husername := get_eq_text_iff (s := r.name) hlower hcollects (by decide)
    (hlower.lower_eq_self "name".toList (by simp)) r.nodup r.username (hempty _)
  rw [arrives_iff hlower hencode hdoor] at hdoorname
  rw [arrives_iff hlower hencode hname] at husername
  have htrue := hlower.lower_eq_self "true".toList (by simp)
  constructor
  · intro h
    obtain ⟨-, h1⟩ := happlogin.mp h.applogin
    obtain ⟨hd, h2⟩ := hdoorname.mp h.doorname
    obtain ⟨hn, h3⟩ := husername.mp h.name
    exact ⟨⟨hd, hn⟩, h1, h2, h3⟩
  · rintro ⟨⟨hd, hn⟩, h1, h2, h3⟩
    exact ⟨happlogin.mpr ⟨htrue, h1⟩, hdoorname.mpr ⟨hd, h2⟩, husername.mpr ⟨hn, h3⟩⟩

/-- The page logs in exactly if the parser finds the three texts. -/
theorem logsIn_iff_parsed (hcollects : Collects lower r.params obj)
    (hok : getAllUrlParams lower .fresh (query r.params) = .ok obj) :
    r.LogsIn lower ↔ r.Parsed obj := by
  unfold Login.LogsIn
  simp only [construct_query hcollects hok, Except.ok.injEq, exists_eq_left']
  constructor
  · intro h
    obtain ⟨hselected, hdoor, hname, -⟩ := h []
    split at hselected
    case isTrue htrue =>
      rw [if_pos htrue] at hdoor hname
      exact ⟨isText_iff.mp htrue, hdoor, hname⟩
    case isFalse =>
      -- there is no cookie to take the selection from
      exact absurd hselected (by decide)
  · intro h cookie
    rw [if_pos (isText_iff.mpr h.applogin), h.doorname, h.name]
    exact ⟨rfl, rfl, rfl, by simp [App.mainDoor, statusref]⟩

/-- The page logs in exactly if nothing is lost of the door and the name: lower case
and the encoding leave them as they are, and no other parameter gets in the way. -/
theorem logsIn_iff_understood (hlower : LowerCase lower) (hencode : PercentEncoding encode) :
    r.LogsIn lower ↔ r.Understood lower := by
  have hobj : ∀ obj, getAllUrlParams lower .fresh (query r.params) = .ok obj →
      (r.LogsIn lower ↔ (Arrives lower encode r.door ∧ Arrives lower encode r.name) ∧
        Undisturbed lower r.params "applogin".toList "true".toList ∧
        Undisturbed lower r.params "doorname".toList r.door ∧
        Undisturbed lower r.params "name".toList r.name) := fun obj hok => by
    have hfits := query_ok_iff.mp ⟨obj, hok⟩
    have hcollects := collects (ownNames_of_fits r.no_bracket hfits) hok
    rw [logsIn_iff_parsed hcollects hok, parsed_iff hlower hencode hcollects]
  constructor
  · intro h
    obtain ⟨app, happ, -⟩ := h []
    obtain ⟨obj, hok, -⟩ := bind_ok_iff.mp ⟨app, happ⟩
    obtain ⟨⟨hd, hn⟩, h1, h2, h3⟩ := (hobj obj hok).mp h
    exact ⟨query_ok_iff.mp ⟨obj, hok⟩, hd, hn, h1, h2, h3⟩
  · intro h
    obtain ⟨obj, hok⟩ := query_ok_iff.mpr h.fits
    exact (hobj obj hok).mpr ⟨⟨h.door, h.name⟩, h.applogin_undisturbed, h.doorname_undisturbed,
      h.name_undisturbed⟩

/-! ### A login without other parameters -/

theorem lowerCase_toLower : LowerCase (List.map Char.toLower) where
  eq_nil _ h := List.map_eq_nil_iff.mp h
  lower_eq_self s h := by
    have htoLower : ∀ c ∈ s, c.toLower = c := fun c hc => by
      refine dif_neg fun hupper => ?_
      -- no upper-case letter is at or behind 'a'
      exact absurd (UInt32.le_trans (h c hc).1 hupper.2) (by decide)
    exact (List.map_congr_left htoLower).trans (List.map_id' s)
  percent _ h := List.mem_map.mpr ⟨'%', h, rfl⟩

/-- `?applogin=true&doorname=<door>&name=Ann`, not encoded. -/
def loginTo (door : Text) (h : FreeOf ['&', '=', '#', '%', '+'] door) :
    Login id where
  door := door
  name := "ann".toList
  door_free := h
  name_free := by decide
  params := [Param.plain "applogin".toList "true".toList (by decide) (by decide),
    Param.plain "doorname".toList door (by decide) (h.mono (by simp)),
    Param.plain "name".toList "ann".toList (by decide) (by decide)]
  no_bracket := by simp [Param.plain]
  nodup := show ["applogin".toList, "doorname".toList, "name".toList].Nodup by decide
  applogin := ⟨_, List.mem_cons_self, rfl, rfl⟩
  doorname := ⟨_, List.mem_cons_of_mem _ List.mem_cons_self, rfl, rfl⟩
  username := ⟨_, List.mem_cons_of_mem _ (List.mem_cons_of_mem _ List.mem_cons_self), rfl, rfl⟩

theorem logsIn_iff_understood_home :
    (loginTo "home".toList (by decide)).LogsIn (List.map Char.toLower) := by
  refine (logsIn_iff_understood lowerCase_toLower fun _ => .inl rfl).mpr
    ⟨query_ok_iff.mp ⟨_, rfl⟩, ⟨rfl, by decide⟩, ⟨rfl, by decide⟩, ?_, ?_, ?_⟩
  all_goals exact undisturbed_of_nodup (by decide) (by decide)

/-- The door of the configuration has a capital letter. -/
theorem technionDoor_not_logsIn :
    ¬ (loginTo "Technion-door".toList (by decide)).LogsIn (List.map Char.toLower) := by
  intro h
  obtain ⟨app, happ, -⟩ := h []
  obtain ⟨obj, hok, -⟩ := bind_ok_iff.mp ⟨app, happ⟩
  have hcollects := collects (by decide) hok
  have hparsed := (logsIn_iff_parsed hcollects hok).mp h
  obtain ⟨⟨⟨-, hcase⟩, -⟩, -⟩ :=
    (parsed_iff lowerCase_toLower (fun _ => .inl rfl) hcollects).mp hparsed
  revert hcase
  decide

end SmartDoor.Web
