import DeskScript.Event.Bus
import DeskScript.Json.Reader
import DeskScript.Json.Writer
import DeskScript.Outcome

/-!
Settings that a user keeps in a file. What is missing has its default, and a file
that cannot be read as settings is all defaults.

    Settings.read s.text = s    for settings in range
-/

namespace DeskScript

structure Settings where
  maxCallDepth : Nat
  eventCapacity : Nat
  logDir : Option String
  deriving DecidableEq, Repr

namespace Settings

def default : Settings := ⟨Session.defaultMaxDepth, Bus.defaultCapacity, none⟩

/-- The names of the fields, in order. -/
def fieldNames : List String := ["max_call_depth", "event_capacity", "log_dir"]

/-- A count: a whole number of 64 bits, or the default if there is none. -/
def count? (fallback : Nat) : Option Json → Option Nat
  | none => some fallback
  | some (.int n) => if 0 ≤ n && n < 0x10000000000000000 then some n.toNat else none
  | _ => none

def directory? : Option Json → Option (Option String)
  | none | some .null => some none
  | some (.string s) => some (some s)
  | _ => none

/-- Settings with each field looked up. -/
def ofFields? (field : String → Option Json) : Option Settings := do
  return ⟨← count? default.maxCallDepth (field "max_call_depth"),
    ← count? default.eventCapacity (field "event_capacity"), ← directory? (field "log_dir")⟩

/-- Settings of a record: fields by name, none of ours twice, or as many as there are in order. -/
def ofRecord? : Json.Record → Option Settings
  | .fields fields =>
    if fieldNames.all fun name => (fields.filter (·.1 == name)).length ≤ 1 then
      ofFields? (Table.get? fields)
    else none
  | .items items =>
    if items.length ≤ fieldNames.length then ofFields? (Table.get? (fieldNames.zip items)) else none

/-- The settings in a text. -/
def read (s : String) : Settings :=
  ((Json.readRecord? fieldNames.contains s).bind ofRecord?).getD default

def toJson (s : Settings) : Json :=
  .object ([("max_call_depth", .int s.maxCallDepth), ("event_capacity", .int s.eventCapacity)] ++
    (s.logDir.map fun d => ("log_dir", Json.string d)).toList)

/-- The text to keep. -/
def text (s : Settings) : String := s.toJson.pretty

/-- The bus that the settings ask for. -/
def bus (s : Settings) : Bus := .ofCapacity s.eventCapacity

/-- Run options with the limits of the settings. -/
def runOptions (s : Settings) : RunOptions := { RunOptions.default with maxDepth := s.maxCallDepth }

end Settings

end DeskScript
