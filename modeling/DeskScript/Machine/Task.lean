import DeskScript.Machine.Step

/-!
Tasks of a session: to run the main program, or to run the handlers of an event.
The handlers are those registered when the task begins, in order, each in a new
scope where `event` is the payload. A fault in one does not stop the others, and
the task ends with the list of faults.
-/

namespace DeskScript

inductive Job where
  | main
  /-- A handler that runs in `inner`, those after it, and the faults of those before it. -/
  | handler (inner : ScopeId) (payload : Value) (rest : List Handler) (faults : List Raised)

structure Task where
  machine : Machine
  job : Job

/-- A task that is going on, or the faults of one that is over. -/
inductive Progress where
  | busy (t : Task)
  | over (faults : List Raised)

namespace Task

def ofProgram (program : Block) : Task := ⟨.ofBlock program Arena.root, .main⟩

/-- Goes on to the next handler. -/
def nextHandler (s : Session) (payload : Value) (faults : List Raised) :
    List Handler → Session × Progress
  | [] => (s, .over faults)
  | h :: rest =>
    let (inner, s) := s.openScope h.scope [("event", payload)]
    (s, .busy ⟨.ofBlock h.body inner, .handler inner payload rest faults⟩)

/-- Starts the handlers of an event. -/
def ofEvent (s : Session) (e : Event) : Session × Progress :=
  nextHandler s e.payload.toValue [] (s.handlersOf e)

/-- The functions that the result of a run holds. -/
def heldBy : Except Raised Flow → List ScopeId
  | .ok f => f.held
  | .error _ => []

/-- The fault of a run, if it has one. -/
def faultOf : Except Raised Flow → List Raised
  | .error r => [r]
  | .ok f =>
    match f.outside with
    | .ok _ => []
    | .error r => [r]

/-- After a run: the main program ends with a collection, a handler with its scope. -/
def afterRun (s : Session) (r : Except Raised Flow) : Job → Session × Progress
  | .main => (s.collect (heldBy r), .over (faultOf r))
  | .handler inner payload rest faults =>
    nextHandler (s.closeScope (fun _ => heldBy r) inner) payload (faults ++ faultOf r) rest

/-- Hands a waiting task the reply of the host. -/
def answer (s : Session) (t : Task) (reply : Reply) : Task :=
  { t with machine := t.machine.answer (reply.map (Value.rename s.handles)) }

/-- Where a task comes to rest. -/
inductive Rest where
  | asks (command : Command) (s : Session) (t : Task)
  | over (s : Session) (faults : List Raised)
  | unfinished (s : Session) (t : Task)

/-- Runs a task until the host is needed or the task is over. -/
def run : Nat → Session → Task → Rest
  | 0, s, t => .unfinished s t
  | n + 1, s, t =>
    match Machine.run n s t.machine with
    | .asks command s m => .asks command s { t with machine := m }
    | .unfinished s m => .unfinished s { t with machine := m }
    | .done s r =>
      match afterRun s r t.job with
      | (s, .busy t) => run n s t
      | (s, .over faults) => .over s faults

/-- Performs a task on a host whose replies are awaited at once. -/
def perform : Nat → Host → Session → Progress → Host × Session × List Raised
  | 0, host, s, _ => (host, s, [])
  | _, host, s, .over faults => (host, s, faults)
  | n + 1, host, s, .busy t =>
    match run n s t with
    | .over s faults => (host, s, faults)
    | .unfinished s _ => (host, s, [])
    | .asks command s t =>
      let (reply, _, host) := host.execute command
      perform n host s (.busy (t.answer s reply))

end Task

end DeskScript
