import DeskScript.Json

/-!
Events: a name and data, raised by a script or by the host.
-/

namespace DeskScript

structure Event where
  name : String
  payload : Json
  /-- The number of the script that raised it; none for the host. -/
  source : Option Nat

namespace Event

/-- The fields of an event in data, in order: one without a source leaves that field out. -/
def fieldNames (e : Event) : List String :=
  if e.source.isSome then ["id", "name", "payload", "source", "timestamp"]
  else ["id", "name", "payload", "timestamp"]

end Event

end DeskScript
