import DeskScript.Context.Drive

/-!
Calls in virtual time. Time stands still while a script runs, and moves when it
waits for the host. A call may be cut off at a time, or its context cancelled; a
wait that ends by then goes on first.
-/

namespace DeskScript

/-- A host and the time on its clock. -/
structure Timeline where
  host : Host
  now : Millis

namespace Timeline

variable {B : Type} [Channel B]

def ofHost (host : Host) : Timeline := ⟨host, 0⟩

/-- Executes a command, unless that takes longer than `limit`. -/
def execute (limit : Option Millis) (c : Command) : StateM Timeline (Option Reply) := fun t =>
  let (reply, delay, host) := t.host.execute c
  let done := t.now + delay
  match limit with
  | some l => if l < done then (none, { t with now := l }) else (some reply, ⟨host, done⟩)
  | none => (some reply, ⟨host, done⟩)

/-- Nothing happens until `limit`. -/
def waitForEnd (limit : Option Millis) : StateM Timeline Unit :=
  modify fun t => { t with now := limit.getD t.now }

def surroundings (limit : Option Millis) : Surroundings (StateM Timeline) :=
  ⟨execute limit, waitForEnd limit, fun _ => return⟩

/-- Drives a call on a timeline, up to a time if one is given. -/
def drive (n : Nat) (limit : Option Millis) (t : Timeline) (stage : Call.Stage B) :
    Call.Ending B × Timeline :=
  (Call.drive (surroundings limit) n 0 (stage.run n)).run t

/-- Drives a call on a timeline, and cancels its context at a time. A call that waits then goes on
in a cancelled context. -/
def driveCancelled (n : Nat) (moment : Millis) (t : Timeline) (stage : Call.Stage B) :
    Call.Ending B × Timeline :=
  let (ending, t) := drive n (some moment) t stage
  let t : Timeline := { t with now := max t.now moment }
  match ending with
  | .ended bus c r => (.ended bus c.cancel r, t)
  | .cutOff bus c call => drive n none t (call.stage n bus c.cancel)
  | .unfinished bus c => (.unfinished bus c.cancel, t)

end Timeline

end DeskScript
