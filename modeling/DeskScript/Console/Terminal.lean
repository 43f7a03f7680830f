import DeskScript.Command.Data
import DeskScript.Context.Drive
import DeskScript.Text.LetterCase

/-!
The console as a host. File commands go to the file system and dialogs to the
terminal; there is nothing to drive for windows, sound and video, and those
commands are passed over.
-/

namespace DeskScript

/-- Why a file could not be used. -/
inductive FileFailure where
  | notFound | exists_ | notDirectory | isDirectory | badName
  | other (message : String)
  deriving DecidableEq, Repr

def FileFailure.text : FileFailure → String
  | notFound => "No such file or directory (os error 2)"
  | exists_ => "File exists (os error 17)"
  | notDirectory => "Not a directory (os error 20)"
  | isDirectory => "Is a directory (os error 21)"
  | badName => "file name contained an unexpected NUL byte"
  | other message => message

/-- A terminal and a file system, with effects in `m`. -/
structure Terminal (m : Type → Type) where
  /-- All of standard input. -/
  readAll : m String
  /-- The next line of standard input, without its end; none at the end of input. -/
  readLine : m (Option String)
  /-- Writes to standard output. -/
  write : String → m Unit
  /-- Writes to standard error. -/
  complain : String → m Unit
  /-- Writes a record of a command to standard error, on a line of its own. -/
  record : Json → m Unit
  readFile : String → m (Except FileFailure String)
  writeFile : String → String → m (Except FileFailure Unit)
  makeDirs : String → m (Except FileFailure Unit)
  delete : String → m (Except FileFailure Unit)
  /-- Makes sure that a file to append to is there. -/
  touch : String → String → m Unit
  sleep : Millis → m Unit

namespace Terminal

variable {m : Type → Type} [Monad m]

/-- Does an answer mean yes? -/
def isYes (answer : Option String) : Bool :=
  match answer with
  | none => false
  | some a =>
    let word := String.ofList ((trimBlank a.toList).map Char.toLower)
    word == "y" || word == "yes"

/-- Asks a question on standard error and reads one line, less the carriage returns at its end. -/
def ask (t : Terminal m) (question : String) : m (Option String) := do
  t.complain question
  let line ← t.readLine
  return line.map fun s => String.ofList (s.toList.reverse.dropWhile (· == '\r')).reverse

/-- What a question with a default looks like. -/
def promptText (message : String) : Option String → String
  | some default => s!"{message} [{default}] "
  | none => s!"{message} "

def notice (message : String) : Option String → String
  | some title => s!"[{title}] {message}\n"
  | none => s!"[notice] {message}\n"

/-- The reply to a file command. -/
def fileReply : Except FileFailure Value → Reply
  | .ok v => .ok v
  | .error f => .error s!"I/O error: {f.text}"

def done : Except FileFailure Unit → Reply
  | .ok () => .ok .null
  | .error f => fileReply (.error f)

/-- Uses a file, unless no file can have this name. -/
def withName {α : Type} (path : String) (act : m (Except FileFailure α)) :
    m (Except FileFailure α) :=
  if path.contains '\x00' then return .error .badName else act

def execute (t : Terminal m) (c : Command) : m Reply := do
  match c with
  | .wait seconds =>
    t.sleep (waitTime seconds)
    return .ok .null
  | .write path content => return done (← withName path (t.writeFile path content))
  | .read path => return fileReply ((← withName path (t.readFile path)).map .string)
  | .mkdir path => return done (← withName path (t.makeDirs path))
  | .delete path => return done (← withName path (t.delete path))
  | .alert message =>
    t.complain s!"[alert] {message}\n"
    return .ok .null
  | .notify message title =>
    t.complain (notice message title)
    return .ok .null
  | .confirm message => return .ok (.bool (isYes (← t.ask s!"{message} [y/N] ")))
  | .prompt message default =>
    let answer := (← t.ask (promptText message default)).filter (!·.isEmpty)
    return .ok (.string ((answer.orElse fun _ => default).getD ""))
  | c => return .ok c.defaultAnswer

/-- The surroundings of a script on the console. Its lines are written if `shown`. -/
def surroundings (t : Terminal m) (shown : Bool) : Surroundings m where
  execute c := do return some (← t.execute c)
  waitForEnd := return
  hear lines := if shown then t.write (String.join (lines.map (· ++ "\n"))) else return

end Terminal

end DeskScript
