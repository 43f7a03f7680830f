import DeskScript.Event.Channel
import DeskScript.Machine.Task

/-!
A context is a script with its events. A call starts its program, hands it an
event, or lets it serve a bus; whatever the call does first, it then settles the
events that wait. One thing runs at a time: an event that arrives meanwhile waits
its turn.

    a call that ends well leaves no event waiting
-/

namespace DeskScript

structure Context where
  session : Session
  program : Block
  /-- Do emitted events go to the bus? Otherwise they wait in the session. -/
  onBus : Bool
  /-- The receiver of the context on the bus. -/
  receiver : Option Nat
  cancelled : Bool
  /-- The faults of handlers so far. -/
  handlerFaults : List Raised
  /-- All errors reported so far. -/
  reports : List ScriptError

variable {B : Type} [Channel B]

namespace Context

/-- A context outside of any bus. -/
def local_ (session : Session) (program : Block) : Context :=
  ⟨session, program, false, none, false, [], []⟩

/-- A context on a bus, which hears what is published from now on. -/
def attached (bus : B) (session : Session) (program : Block) : B × Context :=
  let (receiver, bus) := Channel.subscribe bus
  (bus, { local_ session program with onBus := true, receiver := some receiver })

/-- The bus without the receiver of the context. -/
def detach (c : Context) (bus : B) : B :=
  match c.receiver with
  | some r => Channel.unsubscribe bus r
  | none => bus

def cancel (c : Context) : Context := { c with cancelled := true }

/-- Sends off what the script emitted. -/
def flush (c : Context) (bus : B) : B × Context :=
  if c.onBus then
    (Channel.publishAll bus c.session.outbox, { c with session := { c.session with outbox := [] } })
  else (bus, c)

/-- Reports the faults of handlers. -/
def record (c : Context) (faults : List Raised) : Context :=
  { c with
    handlerFaults := c.handlerFaults ++ faults
    reports := c.reports ++ faults.map .raised }

end Context

/-! ## Calls -/

/-- What a call is doing. -/
inductive Phase where
  | main (t : Task)
  | handling (t : Task)
  | settling

structure Call where
  phase : Phase
  /-- The receiver of a call that serves a bus. -/
  serving : Option Nat

/-- The result of a call. -/
abbrev CallResult := Except ScriptError Unit

namespace Call

/-- Where a call comes to rest. -/
inductive Rest (B : Type) where
  | asks (command : Command) (bus : B) (c : Context) (call : Call)
  /-- Serving, with nothing to do until an event is published. -/
  | idle (bus : B) (c : Context) (call : Call)
  | ended (bus : B) (c : Context) (r : CallResult)
  | unfinished (bus : B) (c : Context) (call : Call)

/-- What one stage of a call leads to. -/
inductive Stage (B : Type) where
  | next (bus : B) (c : Context) (call : Call)
  | rest (r : Rest B)

/-- Gives up a call: a receiver it serves leaves the bus. -/
def release (call : Call) (bus : B) : B :=
  match call.serving with
  | some r => Channel.unsubscribe bus r
  | none => bus

def endWith (bus : B) (c : Context) (call : Call) (r : CallResult) : Stage B :=
  .rest (.ended (call.release bus) c r)

/-- Hands an event to its handlers, unless the context is cancelled. -/
def handle (bus : B) (c : Context) (call : Call) (e : Event) : Stage B :=
  if c.cancelled then endWith bus c call (.error .cancelled)
  else
    match Task.ofEvent c.session e with
    | (session, .busy t) => .next bus { c with session } { call with phase := .handling t }
    | (session, .over faults) =>
      .next bus ({ c with session }.record faults) { call with phase := .settling }

/-- The next event on the bus that `receiver` hears; `quiet` says what happens without one. -/
def hear (bus : B) (c : Context) (call : Call) (receiver : Nat) (quiet : B → Stage B) : Stage B :=
  match Channel.receive bus receiver with
  | (.event e, bus) => handle bus c call e
  | (.lagged _, bus) => .next bus c call
  | (.empty, bus) => quiet bus

/-- No event waits: a call that serves goes on, any other ends. -/
def settled (bus : B) (c : Context) (call : Call) : Stage B :=
  match call.serving with
  | none => endWith bus c call (.ok ())
  | some receiver =>
    if c.cancelled then endWith bus c call (.error .cancelled)
    else hear bus c call receiver fun bus => .rest (.idle bus c call)

/-- Takes the next waiting event: first those of the script itself, then those of the bus. -/
def settle (bus : B) (c : Context) (call : Call) : Stage B :=
  match c.session.nextEmitted? with
  | some (e, session) => handle bus { c with session } call e
  | none =>
    match c.receiver with
    | some receiver => hear bus c call receiver fun bus => settled bus c call
    | none => settled bus c call

/-- After the main program: a fault ends the call, and no event is handled. -/
def afterMain (bus : B) (c : Context) (call : Call) : List Raised → Stage B
  | [] => .next bus c { call with phase := .settling }
  | r :: _ =>
    endWith bus { c with reports := c.reports ++ [.raised r] } call (.error (.raised r))

/-- Runs a task of the call. A call that waits for the host is woken up when its context is
cancelled, and it looks for that first: then the task goes no further, whatever the reply. -/
def perform (n : Nat) (bus : B) (c : Context) (call : Call) (t : Task) (phase : Task → Phase)
    (after : B → Context → List Raised → Stage B) : Stage B :=
  if c.cancelled then endWith bus c call (.error .cancelled)
  else
    match Task.run n c.session t with
    | .asks command session t =>
      let (bus, c) := { c with session }.flush bus
      .rest (.asks command bus c { call with phase := phase t })
    | .over session faults =>
      let (bus, c) := { c with session }.flush bus
      after bus c faults
    | .unfinished session t =>
      .rest (.unfinished bus { c with session } { call with phase := phase t })

/-- One stage of a call. -/
def stage (n : Nat) (bus : B) (c : Context) (call : Call) : Stage B :=
  match call.phase with
  | .main t => perform n bus c call t .main fun bus c faults => afterMain bus c call faults
  | .handling t =>
    perform n bus c call t .handling fun bus c faults =>
      .next bus (c.record faults) { call with phase := .settling }
  | .settling => settle bus c call

/-- Runs a call until it rests. -/
def run : Nat → B → Context → Call → Rest B
  | 0, bus, c, call => .unfinished bus c call
  | n + 1, bus, c, call =>
    match stage n bus c call with
    | .next bus c call => run n bus c call
    | .rest r => r

/-- Hands a waiting call the reply of the host. -/
def answer (c : Context) (call : Call) (reply : Reply) : Call :=
  match call.phase with
  | .main t => { call with phase := .main (t.answer c.session reply) }
  | .handling t => { call with phase := .handling (t.answer c.session reply) }
  | .settling => call

/-! ## Starting a call -/

/-- Runs the main program, then what waits. -/
def start (bus : B) (c : Context) : Stage B :=
  let call : Call := ⟨.main (Task.ofProgram c.program), none⟩
  if c.cancelled then endWith bus c call (.error .cancelled) else .next bus c call

/-- Handles an event of the host, then what waits. -/
def dispatch (bus : B) (c : Context) (e : Event) : Stage B := handle bus c ⟨.settling, none⟩ e

/-- Handles events of the bus as they come. The context no longer listens afterwards. -/
def serve (bus : B) (c : Context) : Stage B :=
  match c.receiver with
  | none => endWith bus c ⟨.settling, none⟩ (.ok ())
  | some receiver =>
    let c := { c with receiver := none }
    let call : Call := ⟨.settling, some receiver⟩
    if c.cancelled then endWith bus c call (.error .cancelled) else settled bus c call

/-- Runs on from a stage. -/
def Stage.run (n : Nat) : Stage B → Rest B
  | .next bus c call => Call.run n bus c call
  | .rest r => r

end Call

end DeskScript
