import DeskScript.Console.Program

/-!
The command line program: the console on the real terminal and file system.
-/

namespace DeskScript

namespace Console

/-- The failure behind an error of the system. -/
def failureOf : IO.Error → FileFailure
  | .noFileOrDirectory _ _ _ => .notFound
  | .alreadyExists _ _ _ => .exists_
  | .inappropriateType _ code _ => if code = 21 then .isDirectory else .notDirectory
  | e => .other (toString e)

/-- An action on files with its failure caught. -/
def caught {α : Type} (act : IO α) : IO (Except FileFailure α) := do
  try return .ok (← act)
  catch e => return .error (failureOf e)

/-- Deletes a file, or a directory with all that is in it. -/
def deletePath (path : String) : IO Unit := do
  try IO.FS.removeFile path
  catch e => if failureOf e = .isDirectory then IO.FS.removeDirAll path else throw e

partial def readRest (input : IO.FS.Stream) (read : String) : IO String := do
  let line ← input.getLine
  if line.isEmpty then return read else readRest input (read ++ line)

/-- A line without its end. -/
def withoutEnd (line : String) : String :=
  match line.toList.reverse with
  | '\n' :: '\r' :: cs | '\n' :: cs => String.ofList cs.reverse
  | _ => line

def systemTerminal : Terminal IO where
  readAll := do readRest (← IO.getStdin) ""
  readLine := do
    let line ← (← IO.getStdin).getLine
    return if line.isEmpty then none else some (withoutEnd line)
  write s := do
    IO.print s
    (← IO.getStdout).flush
  complain s := IO.eprint s
  record j := IO.eprintln j.compact
  readFile path := caught (IO.FS.readFile path)
  writeFile path content := caught (IO.FS.writeFile path content)
  makeDirs path := caught (if path.isEmpty then return else IO.FS.createDirAll path)
  delete path := caught (deletePath path)
  touch dir name := do
    IO.FS.createDirAll dir
    IO.FS.withFile (dir ++ "/" ++ name) .append fun _ => return
  sleep time := IO.sleep (UInt32.ofNat (min time 4294967295))

/-- The settings in the user's home directory. -/
def loadSettings : IO Settings := do
  match ← IO.getEnv "HOME" with
  | none => return .default
  | some home =>
    match ← caught (IO.FS.readFile (home ++ "/.retroscript/config.json")) with
    | .ok text => return .read text
    | .error _ => return .default

def environment : IO Args.Env := do
  let names := ["RETROSCRIPT_LOG_DIR", "RETROSCRIPT_FORMAT", "RETROSCRIPT_MAX_CALL_DEPTH"]
  let found ← names.mapM fun name => return (← IO.getEnv name).map fun v => (name, v)
  return found.filterMap id

end Console

end DeskScript

open DeskScript in
def main (args : List String) : IO UInt32 := do
  match Args.read (← Console.environment) args with
  | .error .version =>
    IO.print Console.versionText
    return 0
  | .error .help =>
    IO.print Console.usageText
    return 0
  | .error .usage =>
    IO.eprint Console.usageText
    return 2
  | .ok invocation =>
    let settings ← Console.loadSettings
    return UInt32.ofNat (← Console.execute Console.systemTerminal ampleSteps settings invocation)
