-- SUMMARY: The `users` database: what `chooseDoor` stores under a name and which children the senders notify.
import SmartDoor.Base.PathTree
import Mathlib.Data.List.Induction

/-!
# Registrations

`App.js` turns the name a user types into a path below `users`, where `child`
splits it at every `/`. `sendnot.js` and `sendnotification.js` look at the
direct children of `users` only.
-/

namespace SmartDoor.Users

/-! ## Names and paths -/

/-- What `child` takes as a path. -/
def Accepted (s : String) : Prop :=
  s ≠ "" ∧ s.toList.all (· ∉ ['.', '#', '$', '[', ']'])

instance {s : String} : Decidable (Accepted s) := inferInstanceAs (Decidable (_ ∧ _))

/-- The key of a node: one piece of an accepted path. -/
structure Key where
  name : String
  accepted : Accepted name
  one_piece : '/' ∉ name.toList
  deriving DecidableEq

def Key.ofString? (s : String) : Option Key :=
  if h : Accepted s ∧ '/' ∉ s.toList then some ⟨s, h.1, h.2⟩ else none

/-- The pieces of `path`, without the empty ones; `child` throws on a path that is not accepted. -/
def childPath (path : String) : Option (List Key) :=
  if Accepted path then
    some (((path.toList.splitOn '/').map String.ofList).filterMap Key.ofString?)
  else none

def door : Key := ⟨"door", by decide, by decide⟩

def toekn : Key := ⟨"toekn", by decide, by decide⟩

/-- The database below `users`. -/
abbrev Database := PathTree Key String

/-! ## The writer -/

/-- The arguments of `chooseDoor`. -/
structure Call where
  name : String
  door : String
  remember : Bool
  deriving DecidableEq, Repr

/-- `chooseDoor` of `App.js`. `remember` chooses the cookies of the page, which
the database does not see; the exception of `child` leaves it as it was. -/
def chooseDoor (users : Database) (call : Call) : Database :=
  match childPath call.name with
  | some doorRef2 => users.set (doorRef2 ++ [door]) call.door
  | none => users

/-- `chooseDoor` called for each of `calls`. -/
def chooseDoors (users : Database) (calls : List Call) : Database := calls.foldl chooseDoor users

/-! ## The readers -/

/-- A message handed to `fcm.send`, with the key that is logged for it; `recipient`
is its field `to`. -/
structure Message where
  key : Key
  recipient : PathTree.Node String
  title : Option String
  body : Option String
  deriving DecidableEq

/-- The query both senders run over the children of `users`, whose order is left
out. An object's string contains a `[`, so no name of a door is equal to it. -/
def notify (users : Database) (doorname : String) (title body : Option String) : List Message :=
  (users.children.filter fun key => users.val [key, door] = .leaf doorname).map fun key =>
    { key := key, recipient := users.val [key, toekn], title := title, body := body }

/-- `send` of `sendnot.js`. -/
def send (Title Msg : String) (users : Database) (doorname : String) : List Message :=
  notify users doorname (some Title) (some Msg)

/-- `sendnotification.js`, with the words of its command line. -/
def sendnotification (argv : List String) (users : Database) (doorname : String) : List Message :=
  notify users doorname argv[2]? argv[3]?

/-! ## What the senders should do -/

/-- The door that `name` selected last. -/
def lastChoice (calls : List Call) (name : String) : Option String :=
  (calls.filter (·.name = name)).getLast?.map (·.door)

/-- What is stored at `users/<name>/toekn`. -/
def token (users : Database) (name : String) : PathTree.Node String :=
  match childPath name with
  | some path => users.val (path ++ [toekn])
  | none => .null

/-- After `calls` from `users`, every name is sent its one message for the door
it selected last, and none for any other. -/
def SendsExactly (sender : Database → String → List Message) (users : Database)
    (calls : List Call) : Prop :=
  ∀ doorname name, Accepted doorname →
    ((sender (chooseDoors users calls) doorname).filter (·.key.name = name)).map (·.recipient) =
      if lastChoice calls name = some doorname then [token users name] else []

/-- Only tokens are stored. -/
def OnlyTokens (users : Database) : Prop := ∀ l ∈ users.leaves, l.1.getLast? = some toekn

/-! ## One call -/

variable {users : Database} {calls : List Call} {call : Call} {name : String} {k : Key}

theorem door_ne_toekn : door ≠ toekn := by decide

theorem Key.ext {k k' : Key} (h : k.name = k'.name) : k = k' := by
  cases k
  cases k'
  cases h
  rfl

theorem Key.ofString?_name : Key.ofString? k.name = some k := by
  rw [ofString?, dif_pos ⟨k.accepted, k.one_piece⟩]

/-- A name without `/` is a key. -/
theorem childPath_name : childPath k.name = some [k] := by
  rw [childPath, if_pos k.accepted, List.splitOn_eq_singleton k.one_piece]
  simp [String.ofList_toList, Key.ofString?_name]

theorem token_name : token users k.name = users.val [k, toekn] := by
  simp [token, childPath_name]

theorem chooseDoor_name (h : call.name = k.name) :
    chooseDoor users call = users.set [k, door] call.door := by
  simp [chooseDoor, h, childPath_name]

theorem chooseDoor_toekn {k' : Key} (h : call.name = k'.name) :
    (chooseDoor users call).val [k, toekn] = users.val [k, toekn] := by
  rw [chooseDoor_name h]
  exact PathTree.val_set_of_apart (PathTree.apart_of_getElem? (i := 1) rfl rfl door_ne_toekn.symm)

theorem chooseDoor_door_self (h : call.name = k.name) :
    (chooseDoor users call).val [k, door] = .leaf call.door := by
  rw [chooseDoor_name h]
  exact PathTree.val_set_self

/-- A call with another name leaves the registration alone. -/
theorem chooseDoor_door_of_ne {k' : Key} (h : call.name = k'.name) (hne : k ≠ k') :
    (chooseDoor users call).val [k, door] = users.val [k, door] := by
  rw [chooseDoor_name h]
  exact PathTree.val_set_of_apart (PathTree.apart_of_getElem? (i := 0) rfl rfl hne)

/-! ## A sequence of calls -/

theorem chooseDoors_concat :
    chooseDoors users (calls ++ [call]) = chooseDoor (chooseDoors users calls) call := by
  simp [chooseDoors]

theorem lastChoice_concat :
    lastChoice (calls ++ [call]) name =
      if call.name = name then some call.door else lastChoice calls name := by
  unfold lastChoice
  split
  · next h => simp [h]
  · next h => simp [h]

theorem lastChoice_eq_none (h : ∀ call ∈ calls, call.name ≠ name) : lastChoice calls name = none := by
  have hfilter : calls.filter (·.name = name) = [] := by
    rw [List.filter_eq_nil_iff]
    intro call hmem
    simpa using h call hmem
  rw [lastChoice, hfilter]
  rfl

theorem exists_lastChoice (h : call ∈ calls) :
    ∃ call' ∈ calls, lastChoice calls call.name = some call'.door := by
  have hmem : call ∈ calls.filter (·.name = call.name) := by simp [h]
  obtain ⟨call', hlast⟩ := Option.isSome_iff_exists.mp
    (List.getLast?_isSome.mpr (List.ne_nil_of_mem hmem))
  exact ⟨call', (List.mem_filter.mp (List.mem_of_getLast? hlast)).1, by rw [lastChoice, hlast]; rfl⟩

/-- `now` holds the tokens of `users`, and under every key the door selected last. -/
structure Registered (users : Database) (calls : List Call) (now : Database) : Prop where
  toekn : ∀ k, now.val [k, toekn] = users.val [k, toekn]
  door : ∀ k d, now.val [k, door] = .leaf d ↔ lastChoice calls k.name = some d

theorem registered_nil (h : OnlyTokens users) : Registered users [] users where
  toekn _ := rfl
  door k d := by
    refine iff_of_false (fun hleaf => ?_) (by simp [lastChoice])
    have hlast := h _ (PathTree.mem_leaves_of_val hleaf)
    exact door_ne_toekn (by simpa using hlast)

theorem Registered.concat {now : Database} (h : Registered users calls now)
    (hk : call.name = k.name) : Registered users (calls ++ [call]) (chooseDoor now call) where
  toekn k' := (chooseDoor_toekn hk).trans (h.toekn k')
  door k' d := by
    rw [lastChoice_concat]
    by_cases hkk : k' = k
    · subst hkk
      rw [if_pos hk, chooseDoor_door_self hk]
      simp
    · have hne : call.name ≠ k'.name := fun h' => hkk (Key.ext (h'.symm.trans hk))
      rw [if_neg hne, chooseDoor_door_of_ne hk hkk]
      exact h.door k' d

theorem registered_of_calls (h : OnlyTokens users)
    (hcalls : ∀ call ∈ calls, ∃ k : Key, call.name = k.name) :
    Registered users calls (chooseDoors users calls) := by
  induction calls using List.reverseRecOn with
  | nil => exact registered_nil h
  | append_singleton calls call ih =>
      obtain ⟨k, hk⟩ := hcalls call (by simp)
      rw [chooseDoors_concat]
      exact (ih fun call' hmem => hcalls call' (by simp [hmem])).concat hk

/-! ## The messages -/

/-- The recipients among the children with the name `name`. -/
theorem notify_recipient (users : Database) (doorname name : String) (title body : Option String) :
    ((notify users doorname title body).filter (·.key.name = name)).map (·.recipient) =
      (users.children.filter fun k => k.name = name ∧ users.val [k, door] = .leaf doorname).map
        fun k => users.val [k, toekn] := by
  simp [notify, List.filter_map, List.filter_filter, Function.comp_def]

theorem filter_children_eq_singleton {doorname : String}
    (h : users.val [k, door] = .leaf doorname) :
    (users.children.filter fun k' => k'.name = k.name ∧ users.val [k', door] = .leaf doorname) =
      [k] := by
  have hcongr : (users.children.filter fun k' =>
      k'.name = k.name ∧ users.val [k', door] = .leaf doorname) =
        users.children.filter (· = k) := by
    apply List.filter_congr
    intro k' _
    by_cases hk : k' = k
    · subst hk
      simp [h]
    · have hne : k'.name ≠ k.name := fun h' => hk (Key.ext h')
      simp [hk, hne]
  rw [hcongr, List.filter_eq, List.count_eq_one_of_mem PathTree.nodup_children
    (PathTree.mem_children_of_val h)]
  rfl

theorem notify_recipient_of_registered {now : Database} (h : Registered users calls now) (k : Key)
    (doorname : String) (title body : Option String) :
    ((notify now doorname title body).filter (·.key.name = k.name)).map (·.recipient) =
      if lastChoice calls k.name = some doorname then [token users k.name] else [] := by
  rw [notify_recipient]
  split
  · next hlast =>
    rw [filter_children_eq_singleton ((h.door k doorname).mpr hlast)]
    simp [h.toekn, token_name]
  · next hlast =>
    rw [List.map_eq_nil_iff, List.filter_eq_nil_iff]
    intro k' _ hk'
    obtain ⟨hname, hleaf⟩ : k'.name = k.name ∧ now.val [k', door] = .leaf doorname := by
      simpa using hk'
    rw [Key.ext hname] at hleaf
    exact hlast ((h.door k doorname).mp hleaf)

/-- No message goes to a name that is not a key. -/
theorem notify_recipient_eq_nil (users : Database) (doorname : String) (title body : Option String)
    (h : ∀ k : Key, k.name ≠ name) :
    ((notify users doorname title body).filter (·.key.name = name)).map (·.recipient) = [] := by
  rw [List.map_eq_nil_iff, List.filter_eq_nil_iff]
  intro m _
  simpa using h m.key

/-! ## Sequences of calls with accepted names -/

/-- Under keys only, every sender of this form sends exactly what it should. -/
theorem sendsExactly_of_keys (h : OnlyTokens users)
    (hcalls : ∀ call ∈ calls, ∃ k : Key, call.name = k.name) (title body : Option String) :
    SendsExactly (fun now doorname => notify now doorname title body) users calls := by
  intro doorname name _
  by_cases hname : ∃ k : Key, k.name = name
  · obtain ⟨k, rfl⟩ := hname
    exact notify_recipient_of_registered (registered_of_calls h hcalls) k doorname title body
  · have hne : ∀ k : Key, k.name ≠ name := fun k hk => hname ⟨k, hk⟩
    have hnone : lastChoice calls name = none := by
      apply lastChoice_eq_none
      intro call hmem heq
      obtain ⟨k, hk⟩ := hcalls call hmem
      exact hne k (hk.symm.trans heq)
    rw [notify_recipient_eq_nil _ _ _ _ hne, hnone]
    rfl

/-- A name with a `/` is sent nothing for the door it selected last. -/
theorem not_sendsExactly_of_slash (haccepted : ∀ call ∈ calls, Accepted call.door)
    (hmem : call ∈ calls) (hslash : '/' ∈ call.name.toList) (title body : Option String) :
    ¬ SendsExactly (fun now doorname => notify now doorname title body) users calls := by
  intro hsends
  obtain ⟨call', hmem', hlast⟩ := exists_lastChoice hmem
  have hne : ∀ k : Key, k.name ≠ call.name := by
    intro k hk
    exact k.one_piece (hk ▸ hslash)
  have heq := hsends call'.door call.name (haccepted call' hmem')
  rw [notify_recipient_eq_nil _ _ _ _ hne, if_pos hlast] at heq
  cases heq

theorem notify_sendsExactly_iff (h : OnlyTokens users)
    (hcalls : ∀ call ∈ calls, Accepted call.name ∧ Accepted call.door)
    (title body : Option String) :
    SendsExactly (fun now doorname => notify now doorname title body) users calls ↔
      ∀ call ∈ calls, '/' ∉ call.name.toList := by
  constructor
  · intro hsends call hmem hslash
    exact not_sendsExactly_of_slash (fun call' h' => (hcalls call' h').2) hmem hslash title body
      hsends
  · intro hslash
    refine sendsExactly_of_keys h (fun call hmem => ?_) title body
    exact ⟨⟨call.name, (hcalls call hmem).1, hslash call hmem⟩, rfl⟩

/-- Both senders notify exactly the registered names after `calls` if and only if
none of the names has a `/` in it. -/
theorem sends_exactly_iff (users : Database) (calls : List Call) (h : OnlyTokens users)
    (hcalls : ∀ call ∈ calls, Accepted call.name ∧ Accepted call.door)
    (Title Msg : String) (argv : List String) :
    (SendsExactly (send Title Msg) users calls ↔ ∀ call ∈ calls, '/' ∉ call.name.toList) ∧
      (SendsExactly (sendnotification argv) users calls ↔
        ∀ call ∈ calls, '/' ∉ call.name.toList) :=
  ⟨notify_sendsExactly_iff h hcalls _ _, notify_sendsExactly_iff h hcalls _ _⟩

def dan : Key := ⟨"dan", by decide, by decide⟩

/-- The database with the token of `dan`. -/
def danOnly : Database where
  leaves := [([dan, toekn], "dan's token")]
  apart := List.pairwise_singleton _ _

/-- `dan` selects the front door, goes to the back door and returns. -/
theorem sends_exactly_dan :
    SendsExactly (send "Knock Knock" "some one knocked your door!") danOnly
        [⟨"dan", "front", true⟩, ⟨"dan", "back", false⟩, ⟨"dan", "front", false⟩] ∧
      SendsExactly (sendnotification ["node", "sendnotification.js"]) danOnly
        [⟨"dan", "front", true⟩, ⟨"dan", "back", false⟩, ⟨"dan", "front", false⟩] := by
  have hsends := sends_exactly_iff danOnly
    [⟨"dan", "front", true⟩, ⟨"dan", "back", false⟩, ⟨"dan", "front", false⟩]
    (by simp [OnlyTokens, danOnly]) (by simp [Accepted]) "Knock Knock" "some one knocked your door!"
    ["node", "sendnotification.js"]
  exact ⟨hsends.1.mpr (by simp), hsends.2.mpr (by simp)⟩

/-- After somebody has signed in as `dan/door`, `dan` is not notified any more. -/
theorem dan_not_notified :
    let calls : List Call := [⟨"dan", "front", true⟩, ⟨"dan/door", "back", true⟩]
    OnlyTokens danOnly ∧ (∀ call ∈ calls, Accepted call.name ∧ Accepted call.door) ∧
      lastChoice calls "dan" = some "front" ∧
      send "Knock Knock" "some one knocked your door!" (chooseDoors danOnly calls) "front" = [] ∧
      ¬ SendsExactly (send "Knock Knock" "some one knocked your door!") danOnly calls := by
  intro calls
  have hnone : send "Knock Knock" "some one knocked your door!" (chooseDoors danOnly calls)
      "front" = [] := by decide
  have hlast : lastChoice calls "dan" = some "front" := by simp [calls, lastChoice]
  refine ⟨by simp [OnlyTokens, danOnly], by simp [calls, Accepted], hlast, hnone, fun hsends => ?_⟩
  have heq := hsends "front" "dan" (by decide)
  rw [hnone, if_pos hlast] at heq
  cases heq

end SmartDoor.Users
