-- SUMMARY: The page's top component: what its constructor starts with, and what a choice of a door leaves in the cookies.
import SmartDoor.Users.Register
import SmartDoor.Web.Cookies
import SmartDoor.Web.Query

/-!
# The component App

The constructor of `WebInterface/src/App.js` takes the last choice from three
cookies. If the query string says `applogin=true` it takes the door and the name
from there instead, parsing the query string again for each of the two; whatever a
parse has put into the prototype is still there in the next one. `chooseDoor`
writes the cookies.
-/

namespace SmartDoor.Web

open Script

/-! ## The component -/

/-- `this.state`. Where a parameter was absent, or came more than once, `door` and
`name` are not texts. -/
structure App where
  doorselected : Text
  door : Option Value
  name : Option Value
  curpage : Option Text
  app : Bool

/-- `value === s`. -/
def isText (s : Text) : Option Value → Bool
  | some (.text t) => t = s
  | _ => false

section

variable (lower : Text → Text) (cookie : Text)

/-- The state from the cookies. -/
def App.fromCookies : App where
  doorselected := getCookie cookie "doorselected".toList
  door := some (.text (getCookie cookie "door".toList))
  name := some (.text (getCookie cookie "name".toList))
  curpage := some "main".toList
  app := false

/-- `constructor()`. -/
def App.construct (prototype : Prototype) (search : Text) : Except Error App := do
  let params ← getAllUrlParams lower prototype search
  if isText "true".toList (params.get "applogin".toList) then
    let doorParams ← getAllUrlParams lower params.prototype search
    let nameParams ← getAllUrlParams lower doorParams.prototype search
    return {
      doorselected := "true".toList
      door := doorParams.get "doorname".toList
      name := nameParams.get "name".toList
      curpage := none
      app := true }
  else return App.fromCookies cookie

end

/-! ### What is rendered -/

/-- The `door` of the `Main` that `render` shows. -/
def App.mainDoor (app : App) : Option Value :=
  if app.doorselected = "true".toList ∧
      app.curpage ∉ ["help", "settings", "logs"].map fun page => some page.toList then
    app.door
  else none

def doors : Users.Key := ⟨"doors", by decide, by decide⟩

/-- `child('doors').child(door)`, unless `child` throws. -/
def doorRef (door : Text) : Option (List Users.Key) :=
  (Users.childPath (String.ofList door)).map (doors :: ·)

/-- `statusref` of `Main`, to which it subscribes. -/
def statusref : Option Value → Option (List Users.Key)
  | some (.text door) => doorRef door
  | _ => none

/-! ## Choosing a door -/

/-- The arguments of `chooseDoor`, with the date `setCookie` computes for each cookie. -/
structure Choice extends Users.Call where
  expires : Text → Text

/-- `chooseDoor(name, door, remember)`: the cookies. -/
def chooseDoor (jar : Jar) (choice : Choice) : Jar :=
  let set cname cvalue := setCookie cname cvalue (choice.expires cname)
  if choice.remember then
    set "doorselected".toList "true".toList
      (set "door".toList choice.door.toList (set "name".toList choice.name.toList jar))
  else set "door".toList [] (set "doorselected".toList "false".toList jar)

/-- `chooseDoor` called for each of `choices`. -/
def chooseDoors (jar : Jar) (choices : List Choice) : Jar := choices.foldl chooseDoor jar

end SmartDoor.Web
