import DeskScript.Command
import DeskScript.Number.Binary

/-!
Hosts that need no world. The quiet host takes its time over `wait` and gives
every other command its default answer. The recording host keeps a log, fails
where it is told to, and answers from queues, one per verb:

    an answer depends only on what happened before under the same name
-/

namespace DeskScript

/-- What a host says to a command: a value, or why it failed. -/
abbrev Reply := Except String Value

/-! ## Time -/

/-- Milliseconds of virtual time. -/
abbrev Millis := Nat

/-- The nearest integer to a quotient, a half to the even neighbour. -/
def roundedQuotient (n d : Nat) : Nat :=
  let q := n / d
  let r := n % d
  if 2 * r < d then q else if d < 2 * r then q + 1 else q + q % 2

/-- Seconds in whole nanoseconds. -/
def nanoseconds (seconds : Float) : Nat :=
  let m := Number.mantissa seconds * 1000000000
  let e := Number.exponent seconds
  if 0 ≤ e then m <<< e.toNat else roundedQuotient m (Number.pow2 (-e).toNat)

/-- The longest wait: thirty years. -/
def maxWait : Millis := 946080000000

/-- The duration of a wait: a part of a millisecond counts as a whole one, and no wait takes longer
than the longest. -/
def waitTime (seconds : Float) : Millis := min ((nanoseconds seconds + 999999) / 1000000) maxWait

/-- How long the quiet host takes over a command. -/
def Command.delay : Command → Millis
  | wait seconds => waitTime seconds
  | _ => 0

/-! ## The recording host -/

/-- A command and the reason why it failed, if it did. -/
structure LogEntry where
  command : Command
  failure : Option String

structure Recording where
  /-- The commands so far, the first one first. -/
  log : Array LogEntry
  /-- Answers not yet given, by verb name, the oldest first. -/
  answers : Table (List Value)
  failures : Table String

namespace Recording

def empty : Recording := ⟨#[], [], []⟩

/-- Queues an answer for commands of this name. -/
def respond (r : Recording) (name : String) (v : Value) : Recording :=
  { r with answers := Table.put r.answers name ((Table.get? r.answers name).getD [] ++ [v]) }

/-- Makes all commands of this name fail. -/
def failOn (r : Recording) (name message : String) : Recording :=
  { r with failures := Table.put r.failures name message }

def execute (r : Recording) (c : Command) : Reply × Recording :=
  let name := c.verb.name
  match Table.get? r.failures name with
  | some message => (.error message, { r with log := r.log.push ⟨c, some message⟩ })
  | none =>
    let r' := { r with log := r.log.push ⟨c, none⟩ }
    match (Table.get? r.answers name).getD [] with
    | v :: rest => (.ok v, { r' with answers := Table.put r.answers name rest })
    | [] => (.ok c.defaultAnswer, r')

end Recording

/-! ## Hosts -/

inductive Host where
  | quiet
  | recording (r : Recording)

namespace Host

/-- The reply to a command, how long it takes, and the host afterwards. -/
def execute : Host → Command → Reply × Millis × Host
  | quiet, c => (.ok c.defaultAnswer, c.delay, quiet)
  | recording r, c =>
    let (reply, r) := r.execute c
    (reply, 0, recording r)

/-- The commands so far, if the host keeps them. -/
def log? : Host → Option (Array LogEntry)
  | quiet => none
  | recording r => some r.log

end Host

end DeskScript
