import DeskScript.Console.Args
import DeskScript.Console.Terminal
import DeskScript.Settings

/-!
The program on the command line: run, check or list the tokens of a script. It
ends with 0 when all is well, 1 when a file cannot be read, 2 for an error in the
script's text and 3 for a fault while it runs.
-/

namespace DeskScript

namespace Console

/-- Why the program did not succeed. -/
inductive Failure where
  | unreadable (name : String) (f : FileFailure)
  | script (e : ScriptError)
  /-- The error is in the result that was written. -/
  | reported (e : ScriptError)

def Failure.exitCode : Failure → Nat
  | unreadable _ _ => 1
  | script e | reported e => e.exitCode

def Failure.message? : Failure → Option String
  | unreadable name f => some s!"I/O error: {name}: {f.text}"
  | script e => some e.text
  | reported _ => none

/-- The record of a command. -/
def recordOf (entry : LogEntry) : Json :=
  let result : Json := match entry.failure with
    | none => .string "Success"
    | some message => .object [("Failure", .string message)]
  .object [("command", entry.command.toJson), ("result", result)]

variable {m : Type → Type} [Monad m]

/-- The text of a script. -/
def readSource (t : Terminal m) (script : Option String) : m (Except Failure String) := do
  match script with
  | none | some "-" => return .ok (← t.readAll)
  | some path => return (← t.readFile path).mapError (.unreadable path)

/-- Runs a script on a host that only records, and writes what it recorded. -/
def dryRun (t : Terminal m) (n : Nat) (o : RunOptions) (shown : Bool) (source : String) :
    m Outcome := do
  let run := runSource (Timeline.surroundings none) n o (none : Option Bus) source
  let (outcome, line) := run.run (.ofHost (.recording .empty))
  if shown then t.write (String.join (outcome.output.map (· ++ "\n")))
  (line.host.log?.getD #[]).forM fun entry => t.record (recordOf entry)
  return outcome

def runScript (t : Terminal m) (n : Nat) (o : RunOptions) (format : OutputFormat) (dry : Bool)
    (source : String) : m (Except Failure Unit) := do
  let shown := format == .text
  let outcome ← if dry then dryRun t n o shown source
    else runSource (t.surroundings shown) n o (none : Option Bus) source
  if !shown then t.write (outcome.toJson.pretty ++ "\n")
  match outcome.error with
  | none => return .ok ()
  | some e => return .error (if shown then .script e else .reported e)

def checkScript (t : Terminal m) (source : String) : m (Except Failure Unit) := do
  match readProgram source with
  | .error e => return .error (.script e)
  | .ok _ =>
    t.write "ok\n"
    return .ok ()

def listTokens (t : Terminal m) (source : String) : m (Except Failure Unit) := do
  match tokenize source with
  | .error e => return .error (.script (.lex e))
  | .ok ts =>
    t.write (String.join (ts.map fun token => token.describe ++ "\n"))
    return .ok ()

/-- Run options of an action, with the limit of the settings unless another one is given. -/
def runOptions (settings : Settings) (vars : List (String × Json)) (depth : Option Nat) :
    RunOptions :=
  { settings.runOptions with
    globals := Table.ofPairs (vars.map fun (x, j) => (x, j.toValue))
    maxDepth := depth.getD settings.maxCallDepth }

def perform (t : Terminal m) (n : Nat) (settings : Settings) (action : Action) :
    m (Except Failure Unit) := do
  let script := match action with
    | .run script _ _ _ _ | .check script | .tokens script => script
  match ← readSource t script with
  | .error f => return .error f
  | .ok source =>
    match action with
    | .run _ vars format dry depth =>
      runScript t n (runOptions settings vars depth) format dry source
    | .check _ => checkScript t source
    | .tokens _ => listTokens t source

def versionText : String := "retroscript 0.2.2\n"

def usageText : String :=
  "Usage: retroscript [--log-dir DIR] run [SCRIPT] [--var NAME=VALUE]... [--format text|json]\n" ++
  "                   [--dry-run] [--max-call-depth N]\n" ++
  "       retroscript [--log-dir DIR] check [SCRIPT]\n" ++
  "       retroscript [--log-dir DIR] tokens [SCRIPT]\n"

/-- The file that logs go to. -/
def logFile : String := "retroscript.log"

/-- Does what a command line asks for, and gives the exit code. -/
def execute (t : Terminal m) (n : Nat) (settings : Settings) (i : Invocation) : m Nat := do
  match i.logDir.orElse fun _ => settings.logDir with
  | some dir => t.touch dir logFile
  | none => pure ()
  match ← perform t n settings i.action with
  | .ok () => return 0
  | .error f =>
    match f.message? with
    | some message => t.complain s!"Error: {message}\n"
    | none => pure ()
    return f.exitCode

end Console

end DeskScript
