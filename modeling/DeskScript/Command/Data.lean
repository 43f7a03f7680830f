import DeskScript.Command
import DeskScript.Json.Reader

/-!
Commands as data: an object whose field `type` names the command and whose other
fields are its parts.
-/

namespace DeskScript

/-- The name of a verb's commands in data. -/
def Verb.tag (verb : Verb) : String := verb.name.capitalize

/-- The names of the parts of a verb's commands, in order. -/
def Verb.parts : Verb → List String
  | launch | close | focus | minimize | maximize => ["target"]
  | wait => ["seconds"]
  | write => ["path", "content"]
  | read | mkdir | delete | video => ["path"]
  | alert | confirm => ["message"]
  | prompt => ["message", "default"]
  | notify => ["message", "title"]
  | play | stop => ["sound"]

def Verb.ofTag? (tag : String) : Option Verb := Verb.all.find? (·.tag == tag)

namespace Command

def optionalJson : Option String → Json
  | some s => .string s
  | none => .null

/-- The parts of a command, in order. -/
def values : Command → List Json
  | launch s | close s | focus s | minimize s | maximize s | read s | mkdir s | delete s | alert s
  | confirm s | play s | video s => [.string s]
  | wait n => [.float n]
  | write path content => [.string path, .string content]
  | prompt message default => [.string message, optionalJson default]
  | notify message title => [.string message, optionalJson title]
  | stop sound => [optionalJson sound]

def toJson (c : Command) : Json :=
  .object (("type", .string c.verb.tag) :: c.verb.parts.zip c.values)

/-! ## Reading -/

def textPart? : Option Json → Option String
  | some (.string s) => some s
  | _ => none

/-- A part that may be missing or null. -/
def optionalPart? : Option Json → Option (Option String)
  | none | some .null => some none
  | some (.string s) => some (some s)
  | _ => none

def numberPart? : Option Json → Option Float
  | some (.int n) => some (Float.ofInt n)
  | some (.float x) => some x
  | _ => none

/-- The command of a verb with named parts. -/
def ofParts? (verb : Verb) (parts : List (String × Json)) : Option Command :=
  let part (name : String) := Table.get? parts name
  let text (name : String) := textPart? (part name)
  match verb with
  | .launch => (text "target").map launch
  | .close => (text "target").map close
  | .focus => (text "target").map focus
  | .minimize => (text "target").map minimize
  | .maximize => (text "target").map maximize
  | .wait => (numberPart? (part "seconds")).map wait
  | .write => do return write (← text "path") (← text "content")
  | .read => (text "path").map read
  | .mkdir => (text "path").map mkdir
  | .delete => (text "path").map delete
  | .alert => (text "message").map alert
  | .confirm => (text "message").map confirm
  | .prompt => do return prompt (← text "message") (← optionalPart? (part "default"))
  | .notify => do return notify (← text "message") (← optionalPart? (part "title"))
  | .play => (text "sound").map play
  | .stop => (optionalPart? (part "sound")).map stop
  | .video => (text "path").map video

/-- Is none of the names written twice? -/
def writtenOnce (names : List String) (fields : List (String × Json)) : Bool :=
  names.all fun name => (fields.filter (·.1 == name)).length ≤ 1

/-- The command of a record: named fields with a `type`, or the type and then every part. -/
def ofRecord? : Json.Record → Option Command
  | .fields fields => do
    let verb ← Verb.ofTag? (← textPart? (Table.get? fields "type"))
    if writtenOnce ("type" :: verb.parts) fields then ofParts? verb fields else none
  | .items (.string tag :: items) => do
    let verb ← Verb.ofTag? tag
    if items.length = verb.parts.length then ofParts? verb (verb.parts.zip items) else none
  | .items _ => none

/-- The command written by a text. -/
def read? (s : String) : Option Command := do ofRecord? (← Json.readRecord? (fun _ => true) s)

end Command

end DeskScript
