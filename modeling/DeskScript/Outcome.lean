import DeskScript.Context.Timeline
import DeskScript.Program.Sentence

/-!
Running a source text once: read it, start it, settle its events, and say how it
went.

    o.success ↔ o.error = none
-/

namespace DeskScript

/-- The program of a source text. -/
def readProgram (source : String) : Except ScriptError Block :=
  match tokenize source with
  | .error e => .error (.lex e)
  | .ok ts =>
    match parse ts with
    | .error e => .error (.parse e)
    | .ok b => .ok b

/-- More steps than any script takes in practice. -/
def ampleSteps : Nat := 1000000000000000000

/-- What a run is given besides its source. -/
structure RunOptions where
  globals : Table Value
  natives : Natives
  maxDepth : Nat

namespace RunOptions

def default : RunOptions := ⟨[], Native.standard, Session.defaultMaxDepth⟩

/-- A session with the variables defined. -/
def session (o : RunOptions) (id : Nat) : Session :=
  o.globals.foldl (fun s (x, v) => s.defineGlobal x v) (.initial id o.natives o.maxDepth)

/-- Nothing but the variables tells the session from a new one. -/
theorem session_eq (o : RunOptions) (id : Nat) :
    let s := Session.initial id o.natives o.maxDepth
    o.session id = { s with
      scopes := o.globals.foldl (fun a p => a.define Arena.root p.1 (p.2.rename s.handles))
        .initial } := by
  have hdefine : ∀ (t : Table Value) (s : Session),
      t.foldl (fun s p => s.defineGlobal p.1 p.2) s = { s with
        scopes := t.foldl (fun a p => a.define Arena.root p.1 (p.2.rename s.handles))
          s.scopes } := by
    intro t
    induction t with
    | nil => exact fun _ => rfl
    | cons p t ih => exact fun s => ih (s.defineGlobal p.1 p.2)
  exact hdefine o.globals _

end RunOptions

structure Outcome where
  globals : Table Value
  error : Option ScriptError
  output : List String
  /-- All errors, in the order they were reported. -/
  reports : List ScriptError

namespace Outcome

def success (o : Outcome) : Bool := o.error.isNone

/-- A run that never started. -/
def failed (e : ScriptError) (globals : Table Value) : Outcome := ⟨globals, some e, [], [e]⟩

/-- The outcome of a started context: the error of the call, else the first fault of a handler. -/
def ofCall (c : Context) (r : CallResult) : Outcome :=
  let error := match r with
    | .error e => some e
    | .ok () => c.handlerFaults.head?.map .raised
  ⟨c.session.globals, error, c.session.output.toList, c.reports⟩

/-- The outcome of a driven call; one that was dropped counts as cancelled. -/
def ofEnding {B : Type} : Call.Ending B → Outcome
  | .ended _ c r => ofCall c r
  | .cutOff _ c _ | .unfinished _ c => ofCall c (.error .cancelled)

def errorJson (e : ScriptError) : Json :=
  .object [("message", .string e.text), ("kind", .string e.kindName),
    ("line", e.line?.elim .null fun n => .int n)]

def toJson (o : Outcome) : Json :=
  .object [("success", .bool o.success), ("output", .array (o.output.map .string)),
    ("variables", .object (o.globals.map fun (x, v) => (x, v.toJson))),
    ("error", o.error.elim .null errorJson)]

end Outcome

variable {B : Type} [Channel B]

/-- Starts a program as context `id`, on a bus if there is one. -/
def startProgram (o : RunOptions) (id : Nat) (bus : Option B) (program : Block) : Call.Stage B :=
  match bus with
  | some bus =>
    let (bus, c) := Context.attached bus (o.session id) program
    Call.start bus c
  | none => Call.start (Channel.ofCapacity 1) (.local_ (o.session id) program)

/-- Runs a source text, with commands executed by the surroundings. -/
def runSource {m : Type → Type} [Monad m] (around : Surroundings m) (n : Nat) (o : RunOptions)
    (bus : Option B) (source : String) : m Outcome := do
  match readProgram source with
  | .error e => return .failed e o.globals
  | .ok program => return .ofEnding (← Call.drive around n 0 ((startProgram o 0 bus program).run n))

end DeskScript
