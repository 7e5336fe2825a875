-- SUMMARY: The maps of the router after any run, and whether a restart would read them back from their files.
import SmartDoor.Router.Server

/-!
# Stored maps

What the requests are meant to do to the maps is `Maps.apply`. Each map and its
file stay as meant in a run whose requests start from what the file holds and
store nothing that JSON leaves out, and whose readings and writes undo nothing
that was done after they were issued.
-/

namespace SmartDoor.Router

open Transition

/-! ## The maps as they are meant -/

/-- The values of the maps. -/
structure Maps where
  phones : Map
  btusers : Map
  btnew : Map
  settings : Map
  memos : Json

/-- What a start reads from the files. -/
def Disk.load (disk : Disk) : Maps where
  phones := mapFormat.load disk.phone
  btusers := mapFormat.load disk.savedbt
  btnew := mapFormat.load disk.newbt
  settings := mapFormat.load disk.settings
  memos := notesFormat.load disk.notes

/-- The maps in memory. -/
def Server.maps (s : Server) : Maps where
  phones := s.phones.memory
  btusers := s.btusers.memory
  btnew := s.btnew.memory
  settings := s.settings.memory
  memos := s.memos.memory

def Server.disk (s : Server) : Disk where
  phone := s.phones.disk
  savedbt := s.btusers.disk
  newbt := s.btnew.disk
  settings := s.settings.disk
  notes := s.memos.disk

/-- No file operation is pending. -/
def Server.Idle (s : Server) : Prop :=
  s.phones.Idle ∧ s.btusers.Idle ∧ s.btnew.Idle ∧ s.settings.Idle ∧ s.memos.Idle

instance {s : Server} : Decidable s.Idle :=
  inferInstanceAs (Decidable (s.phones.Idle ∧ s.btusers.Idle ∧ s.btnew.Idle ∧ _))

/-- The map with `value` stored under `key`. -/
def Map.store (m : Map) (key : String) (value : Property) : Map :=
  Function.update m key (some value)

/-- The settings of the emergency form. -/
def Map.storeEmergency (m : Map) (callhelp alarmhelp callemer alarmemer callto : Field) : Map :=
  ((((m.store "callhelp" callhelp.value).store "alarmhelp" alarmhelp.value).store
    "callemer" callemer.value).store "alarmemer" alarmemer.value).store "callto" callto.value

/-- What a request is meant to change. -/
def Maps.apply (maps : Maps) : Request → Maps
  | .addphone phonename phone =>
      { maps with phones := maps.phones.store phone.text phonename.value }
  | .delphone phone => { maps with phones := maps.phones.delete phone.text }
  | .newbt newbt =>
      { maps with btusers := maps.btusers.store newbt.text (maps.btnew.get newbt.text) }
  | .delbt btrem => { maps with btusers := maps.btusers.delete btrem.text }
  | .setemer callhelp alarmhelp callemer alarmemer callto =>
      let settings := maps.settings.storeEmergency callhelp alarmhelp callemer alarmemer callto
      { maps with settings := settings }
  | .setbt btopen => { maps with settings := maps.settings.store "btopen" btopen.value }
  -- notes that are not JSON are not accepted
  | .updatememos data _ => { maps with memos := data.getD maps.memos }
  | _ => maps

/-- The requests of a run. -/
def requests (es : List Event) : List Request :=
  es.filterMap fun e => match e with
    | .request _ r => some r
    | _ => none

/-- The maps are what the requests made of those first stored, and so are the files. -/
def Survives (first : Disk) (es : List Event) (s : Server) : Prop :=
  s.maps = (requests es).foldl Maps.apply first.load ∧ s.disk.load = s.maps

/-! ## The condition -/

/-- The value is one JSON can represent, and the key one that is not special. -/
def Storable (m : Map) (key : String) (value : Property) : Prop :=
  value.json?.isSome ∧ (key = "__proto__" → (m key).isSome)

/-- The map a request changes is the one of its file, and what is stored can be written. -/
def Request.Safe (s : Server) : Request → Prop
  | .addphone phonename phone =>
      s.phones.Ready mapFormat ∧ Storable s.phones.memory phone.text phonename.value
  | .delphone _ => s.phones.Ready mapFormat
  | .newbt name =>
      s.btusers.Ready mapFormat ∧ s.btnew.Ready mapFormat ∧
        Storable s.btusers.memory name.text (s.btnew.memory.get name.text)
  | .delbt _ => s.btusers.Ready mapFormat
  | .setemer callhelp alarmhelp callemer alarmemer callto =>
      s.settings.Ready mapFormat ∧
        .absent ∉ [callhelp, alarmhelp, callemer, alarmemer, callto]
  | .setbt btopen => s.settings.Ready mapFormat ∧ btopen ≠ .absent
  | _ => True

/-- The reading does not undo a request. -/
def Server.ReadsBack (s : Server) : File → Prop
  | .phone => s.phones.ReadsBack mapFormat
  | .savedbt => s.btusers.ReadsBack mapFormat
  | .newbt => s.btnew.ReadsBack mapFormat
  | .settings => s.settings.ReadsBack mapFormat
  | .notes => s.memos.ReadsBack notesFormat

/-- The write that completes does not undo a later one. -/
def Server.InOrder (s : Server) (i : Nat) : File → Prop
  | .phone => s.phones.InOrder mapFormat i
  | .savedbt => s.btusers.InOrder mapFormat i
  | .newbt => s.btnew.InOrder mapFormat i
  | .settings => s.settings.InOrder mapFormat i
  | .notes => s.memos.InOrder notesFormat i

def Safe (s : Server) : Event → Prop
  | .request _ r => r.Safe s
  | .timeout => True
  | .read f => s.ReadsBack f
  | .written f i => s.InOrder i f

/-! ## Maps that can be written -/

variable {m : Map} {key : String} {value : Property}

theorem representable_store (h : mapFormat.Representable m) (hvalue : value.json?.isSome) :
    mapFormat.Representable (m.store key value) := by
  funext k
  by_cases hk : k = key
  · subst hk
    cases value with
    | json j => simp [mapFormat, Map.store, Property.json?]
    | undefined => simp [Property.json?] at hvalue
    | function => simp [Property.json?] at hvalue
  · simpa [mapFormat, Map.store, hk] using congrFun h k

theorem representable_delete (h : mapFormat.Representable m) :
    mapFormat.Representable (m.delete key) := by
  funext k
  by_cases hk : k = key
  · simp [mapFormat, Map.delete, hk]
  · simpa [mapFormat, Map.delete, hk] using congrFun h k

/-- A field that is present can be written. -/
theorem Field.value_isSome {f : Field} (h : f ≠ .absent) : f.value.json?.isSome := by
  cases f with
  | absent => exact absurd rfl h
  | one s => rfl
  | many ss => rfl

/-! ## One step -/

/-- Every map and its file are as `maps` says. -/
structure Follows (first : Disk) (maps : Maps) (s : Server) : Prop where
  phones : s.phones.Follows mapFormat first.phone maps.phones
  btusers : s.btusers.Follows mapFormat first.savedbt maps.btusers
  btnew : s.btnew.Follows mapFormat first.newbt maps.btnew
  settings : s.settings.Follows mapFormat first.settings maps.settings
  memos : s.memos.Follows notesFormat first.notes maps.memos

variable {first : Disk} {maps : Maps} {s s' : Server}

theorem follows_start : Follows first first.load (.start first) where
  phones := Saved.follows_start
  btusers := Saved.follows_start
  btnew := Saved.follows_start
  settings := Saved.follows_start
  memos := Saved.follows_start

theorem follows_assign {f : Saved Map JsonMap} {c : Content JsonMap}
    (h : f.Follows mapFormat c m) (hready : f.Ready mapFormat)
    (hstore : Storable f.memory key value) :
    (f.save mapFormat (f.memory.assign key value)).Follows mapFormat c (m.store key value) := by
  rw [h.memory_of_ready hready] at hstore ⊢
  rw [Map.assign_eq_update hstore.2]
  exact h.save (representable_store h.representable hstore.1)

theorem follows_delete {f : Saved Map JsonMap} {c : Content JsonMap}
    (h : f.Follows mapFormat c m) (hready : f.Ready mapFormat) :
    (f.save mapFormat (f.memory.delete key)).Follows mapFormat c (m.delete key) := by
  rw [h.memory_of_ready hready]
  exact h.save (representable_delete h.representable)

theorem follows_emergencySettings {f : Saved Map JsonMap} {c : Content JsonMap}
    (h : f.Follows mapFormat c m) (hready : f.Ready mapFormat)
    {callhelp alarmhelp callemer alarmemer callto : Field}
    (hfields : .absent ∉ [callhelp, alarmhelp, callemer, alarmemer, callto]) :
    (f.save mapFormat (Server.emergencySettings f.memory
        callhelp alarmhelp callemer alarmemer callto)).Follows mapFormat c
      (m.storeEmergency callhelp alarmhelp callemer alarmemer callto) := by
  simp only [List.mem_cons, List.not_mem_nil, or_false, not_or] at hfields
  obtain ⟨h₁, h₂, h₃, h₄, h₅⟩ := hfields
  unfold Server.emergencySettings Map.storeEmergency
  rw [h.memory_of_ready hready]
  repeat rw [Map.assign_eq_update (by simp)]
  refine h.save ?_
  apply representable_store _ (Field.value_isSome (Ne.symm h₅))
  apply representable_store _ (Field.value_isSome (Ne.symm h₄))
  apply representable_store _ (Field.value_isSome (Ne.symm h₃))
  apply representable_store _ (Field.value_isSome (Ne.symm h₂))
  exact representable_store h.representable (Field.value_isSome (Ne.symm h₁))

theorem Follows.button {setting : String} (h : Follows first maps s) :
    Follows first maps (s.button setting) := by
  unfold Server.button
  split
  · exact { h with }
  · exact { h with }

theorem Follows.handle {authenticated : Bool} {r : Request} (h : Follows first maps s)
    (hsafe : r.Safe s) : Follows first (maps.apply r) (s.handle authenticated r).1 := by
  cases r with
  | addphone phonename phone =>
    exact { h with phones := follows_assign h.phones hsafe.1 hsafe.2 }
  | delphone phone => exact { h with phones := follows_delete h.phones hsafe }
  | newbt name =>
    obtain ⟨hready, hnew, hstore⟩ := hsafe
    refine { h with btusers := ?_ }
    -- the name that is stored is the one meant
    simp only [Maps.apply, ← h.btnew.memory_of_ready hnew]
    exact follows_assign h.btusers hready hstore
  | delbt btrem => exact { h with btusers := follows_delete h.btusers hsafe }
  | setemer callhelp alarmhelp callemer alarmemer callto =>
    exact { h with settings := follows_emergencySettings h.settings hsafe.1 hsafe.2 }
  | setbt btopen =>
    have hstore : Storable s.settings.memory "btopen" btopen.value :=
      ⟨Field.value_isSome hsafe.2, by simp⟩
    exact { h with settings := follows_assign h.settings hsafe.1 hstore }
  | updatememos data lastupdate =>
    cases data with
    | none => exact h
    | some memos => exact { h with memos := h.memos.update rfl rfl }
  | ledon => exact { h with }
  | ledoff => exact { h with }
  | helpbut => exact h.button
  | emerbut => exact h.button
  | _ => exact h

/-- What an event is meant to do to the maps. -/
def Maps.after (maps : Maps) (e : Event) : Maps := (requests [e]).foldl Maps.apply maps

theorem Follows.finishRead {f : File} (h : Follows first maps s) (hback : s.ReadsBack f)
    (hread : s.finishRead f = some s') : Follows first maps s' := by
  cases f with
  | phone =>
    obtain ⟨f, hf, rfl⟩ := Option.map_eq_some_iff.mp hread
    exact { h with phones := h.phones.finishRead hback hf }
  | savedbt =>
    obtain ⟨f, hf, rfl⟩ := Option.map_eq_some_iff.mp hread
    exact { h with btusers := h.btusers.finishRead hback hf }
  | newbt =>
    obtain ⟨f, hf, rfl⟩ := Option.map_eq_some_iff.mp hread
    exact { h with btnew := h.btnew.finishRead hback hf }
  | settings =>
    obtain ⟨f, hf, rfl⟩ := Option.map_eq_some_iff.mp hread
    exact { h with settings := h.settings.finishRead hback hf }
  | notes =>
    obtain ⟨f, hf, rfl⟩ := Option.map_eq_some_iff.mp hread
    exact { h with memos := h.memos.finishRead hback hf }

theorem Follows.complete {f : File} {i : Nat} (h : Follows first maps s) (horder : s.InOrder i f)
    (hcomplete : s.complete i f = some s') : Follows first maps s' := by
  cases f with
  | phone =>
    obtain ⟨f, hf, rfl⟩ := Option.map_eq_some_iff.mp hcomplete
    exact { h with phones := h.phones.complete horder hf }
  | savedbt =>
    obtain ⟨f, hf, rfl⟩ := Option.map_eq_some_iff.mp hcomplete
    exact { h with btusers := h.btusers.complete horder hf }
  | newbt =>
    obtain ⟨f, hf, rfl⟩ := Option.map_eq_some_iff.mp hcomplete
    exact { h with btnew := h.btnew.complete horder hf }
  | settings =>
    obtain ⟨f, hf, rfl⟩ := Option.map_eq_some_iff.mp hcomplete
    exact { h with settings := h.settings.complete horder hf }
  | notes =>
    obtain ⟨f, hf, rfl⟩ := Option.map_eq_some_iff.mp hcomplete
    exact { h with memos := h.memos.complete horder hf }

/-- One step of which the condition holds. -/
theorem Follows.step {e : Event} (h : Follows first maps s) (hsafe : Safe s e)
    (hstep : s.step e = some s') : Follows first (maps.after e) s' := by
  cases e with
  | request authenticated r =>
    obtain rfl := Option.some.inj hstep
    exact h.handle hsafe
  | timeout =>
    simp only [Server.step, Option.ite_none_left_eq_some, Option.some.injEq] at hstep
    obtain ⟨-, rfl⟩ := hstep
    exact { h with }
  | read f => exact h.finishRead hsafe hstep
  | written f i => exact h.complete hsafe hstep

/-! ## Whole runs -/

theorem requests_cons {e : Event} {es : List Event} :
    (requests (e :: es)).foldl Maps.apply maps =
      (requests es).foldl Maps.apply (maps.after e) := by
  rw [← List.singleton_append, requests, List.filterMap_append, List.foldl_append]
  rfl

theorem Follows.run {es : List Event} (h : Follows first maps s)
    (hsafe : Meets Server.step Safe s es) (hrun : run Server.step s es = some s') :
    Follows first ((requests es).foldl Maps.apply maps) s' := by
  induction es generalizing maps s with
  | nil =>
    obtain rfl : s = s' := by simpa using hrun
    exact h
  | cons e es ih =>
    obtain ⟨t, hstep, hrest⟩ := run_cons_eq_some.mp hrun
    rw [requests_cons]
    exact ih (h.step hsafe.1 hstep) (hsafe.2 t hstep) hrest

theorem Follows.idle (h : Follows first maps s) (hidle : s.Idle) :
    s.maps = maps ∧ s.disk.load = maps := by
  obtain ⟨h₁, h₂, h₃, h₄, h₅⟩ := hidle
  obtain ⟨hm₁, hd₁⟩ := h.phones.idle h₁
  obtain ⟨hm₂, hd₂⟩ := h.btusers.idle h₂
  obtain ⟨hm₃, hd₃⟩ := h.btnew.idle h₃
  obtain ⟨hm₄, hd₄⟩ := h.settings.idle h₄
  obtain ⟨hm₅, hd₅⟩ := h.memos.idle h₅
  constructor
  · simp [Server.maps, hm₁, hm₂, hm₃, hm₄, hm₅]
  · simp [Server.disk, Disk.load, hd₁, hd₂, hd₃, hd₄, hd₅]

/-- Where every step of a run meets the condition, the maps survive a restart
whenever no file operation is pending. -/
theorem survives_of_run (first : Disk) (es : List Event) (s : Server)
    (hrun : run Server.step (.start first) es = some s)
    (hsafe : Meets Server.step Safe (.start first) es) (hidle : s.Idle) :
    Survives first es s := by
  obtain ⟨hmaps, hdisk⟩ := (follows_start.run hsafe hrun).idle hidle
  exact ⟨hmaps, hdisk.trans hmaps.symm⟩

def noFiles : Disk := ⟨.missing, .missing, .missing, .missing, .missing⟩

/-- All files are read, and two phones are added before either write completes. -/
def addedTwo : List Event :=
  [.read .phone, .read .savedbt, .read .newbt, .read .settings, .read .notes,
    .request true (.addphone (.one "Dan") (.one "1")),
    .request true (.addphone (.one "Ori") (.one "2"))]

/-- The writes complete in the order they were issued in. -/
theorem survives_in_order :
    ∃ s, run Server.step (.start noFiles) (addedTwo ++ [.written .phone 0, .written .phone 0]) =
        some s ∧ s.Idle ∧
      Survives noFiles (addedTwo ++ [.written .phone 0, .written .phone 0]) s := by
  refine ⟨_, rfl, by decide, survives_of_run _ _ _ rfl ?_ (by decide)⟩
  iterate 5 refine meets_cons_of_step rfl (.inl rfl) ?_
  iterate 2
    refine meets_cons_of_step rfl ⟨fun h => ?_, rfl, fun h => absurd h (by decide)⟩ ?_
    · cases h
  refine meets_cons_of_step rfl (Saved.inOrder_of_length (by decide)) ?_
  exact meets_cons_of_step rfl (Saved.inOrder_of_last rfl rfl) trivial

/-- The write issued last completes first, and the second phone is lost. -/
theorem phone_lost :
    ∃ s, run Server.step (.start noFiles) (addedTwo ++ [.written .phone 1, .written .phone 0]) =
        some s ∧ s.Idle ∧ s.maps.phones "2" = some (.json (.str "Ori")) ∧
      s.disk.load.phones "2" = none ∧
      ¬ Survives noFiles (addedTwo ++ [.written .phone 1, .written .phone 0]) s := by
  refine ⟨_, rfl, by decide, rfl, rfl, fun hsurvives => ?_⟩
  have hphone := congrFun (congrArg Maps.phones hsurvives.2) "2"
  cases hphone

end SmartDoor.Router
