import DeskScript.Event.Bus
import DeskScript.Outcome

/-!
Several scripts on one clock. At the start every script runs, in order, until it
waits; after that the clock moves to the earliest end of a wait, and that script
runs until it waits again.
-/

namespace DeskScript

/-- What a script among others is doing. -/
inductive LaneState where
  | waiting (until_ : Millis) (reply : Reply) (bus : Bus) (c : Context) (call : Call)
  | over (o : Outcome)

structure Lane where
  host : Host
  state : LaneState

namespace Lane

/-- The lines printed so far. -/
def output (l : Lane) : List String :=
  match l.state with
  | .waiting _ _ _ c _ => c.session.output.toList
  | .over o => o.output

/-- The end of the wait that a script is in. -/
def wake? (l : Lane) : Option Millis :=
  match l.state with
  | .waiting t _ _ _ _ => some t
  | .over _ => none

/-- Runs a script at one moment, until it waits or is over. -/
def advance (now : Millis) : Nat → Host → Call.Rest Bus → Lane
  | 0, host, .asks _ bus c _ => ⟨host, .over (.ofEnding (.unfinished bus c))⟩
  | n + 1, host, .asks command bus c call =>
    match host.execute command with
    | (reply, 0, host) => advance now n host (Call.run n bus c (call.answer c reply))
    | (reply, delay, host) => ⟨host, .waiting (now + delay) reply bus c call⟩
  | _, host, .idle bus c call => ⟨host, .over (.ofEnding (.cutOff bus c call))⟩
  | _, host, .ended bus c r => ⟨host, .over (.ofEnding (.ended bus c r))⟩
  | _, host, .unfinished bus c _ => ⟨host, .over (.ofEnding (.unfinished bus c))⟩

/-- Starts a script. -/
def start (n : Nat) (o : RunOptions) (host : Host) (source : String) : Lane :=
  match readProgram source with
  | .error e => ⟨host, .over (.failed e o.globals)⟩
  | .ok program => advance 0 n host ((startProgram o 0 none program).run n)

/-- Goes on after a wait. -/
def wakeUp (n : Nat) (l : Lane) : Lane :=
  match l.state with
  | .waiting now reply bus c call => advance now n l.host (Call.run n bus c (call.answer c reply))
  | .over _ => l

end Lane

/-- A line, with the number of the script that printed it and the time. -/
structure PrintedLine where
  script : Nat
  time : Millis
  line : String

namespace Joint

/-- The lines of script `i` after the first `known` ones. -/
def freshLines (i : Nat) (time : Millis) (known : Nat) (l : Lane) : List PrintedLine :=
  (l.output.drop known).map fun line => ⟨i, time, line⟩

/-- The script whose wait ends first, the lower number on a tie. -/
def nextWake? (lanes : List Lane) : Option (Millis × Nat) :=
  (lanes.zipIdx.filterMap fun (l, i) => l.wake?.map fun t => (t, i)).foldl
    (fun best p => match best with
      | none => some p
      | some b => if p.1 < b.1 then some p else some b) none

/-- Runs all scripts to their ends: the lines in the order of printing, the scripts, the time. -/
def run : Nat → Millis → List Lane → List PrintedLine → List PrintedLine × List Lane × Millis
  | 0, now, lanes, lines => (lines, lanes, now)
  | n + 1, now, lanes, lines =>
    match nextWake? lanes with
    | none => (lines, lanes, now)
    | some (t, i) =>
      match lanes[i]? with
      | none => (lines, lanes, now)
      | some l =>
        let l' := l.wakeUp n
        run n t (lanes.set i l') (lines ++ freshLines i t l.output.length l')

/-- Starts all scripts and runs them to their ends. -/
def runAll (n : Nat) (scripts : List (RunOptions × Host × String)) :
    List PrintedLine × List Outcome × Millis :=
  let lanes := scripts.map fun (o, host, source) => Lane.start n o host source
  let lines := lanes.zipIdx.flatMap fun (l, i) => freshLines i 0 0 l
  let (lines, lanes, now) := run n 0 lanes lines
  (lines, lanes.filterMap fun l => match l.state with
    | .over o => some o
    | .waiting _ _ _ _ _ => none, now)

end Joint

end DeskScript
