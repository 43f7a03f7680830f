/-!
The verbs of host statements. Each takes a range of argument counts, and three
of them hand an answer back to the script.
-/

namespace DeskScript

inductive Verb where
  | launch | close | focus | minimize | maximize | wait | write | read | mkdir | delete
  | alert | confirm | prompt | notify | play | stop | video
  deriving DecidableEq, Repr

namespace Verb

def name : Verb → String
  | launch => "launch"
  | close => "close"
  | focus => "focus"
  | minimize => "minimize"
  | maximize => "maximize"
  | wait => "wait"
  | write => "write"
  | read => "read"
  | mkdir => "mkdir"
  | delete => "delete"
  | alert => "alert"
  | confirm => "confirm"
  | prompt => "prompt"
  | notify => "notify"
  | play => "play"
  | stop => "stop"
  | video => "video"

/-- The least and the greatest number of arguments. -/
def arity : Verb → Nat × Nat
  | write => (2, 2)
  | prompt | notify => (1, 2)
  | stop => (0, 1)
  | _ => (1, 1)

/-- Does the host answer with a value? -/
def answers : Verb → Bool
  | read | confirm | prompt => true
  | _ => false

def all : List Verb :=
  [launch, close, focus, minimize, maximize, wait, write, read, mkdir, delete,
   alert, confirm, prompt, notify, play, stop, video]

def ofName? (s : String) : Option Verb := all.find? (·.name == s)

end Verb

end DeskScript
