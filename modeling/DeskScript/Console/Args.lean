import DeskScript.Json.Reader
import DeskScript.Text.Blank

/-!
The command line. Options may stand before or after the script, a value may be
joined to its option, and `--` makes everything after it a script. An option that
is not given may come from the environment.
-/

namespace DeskScript

inductive OutputFormat where
  | text | json
  deriving DecidableEq, Repr

/-- What to do. A script is a path; none, or `-`, is standard input. -/
inductive Action where
  | run (script : Option String) (vars : List (String × Json)) (format : OutputFormat)
      (dryRun : Bool) (maxCallDepth : Option Nat)
  | check (script : Option String)
  | tokens (script : Option String)

structure Invocation where
  logDir : Option String
  action : Action

/-- Why a command line asks for nothing to be done. -/
inductive ArgsEnd where
  | usage | version | help
  deriving DecidableEq, Repr

namespace Args

/-- Environment variables. -/
abbrev Env := List (String × String)

/-! ## Values -/

def path (s : String) : Except ArgsEnd String := if s.isEmpty then .error .usage else .ok s

def format : String → Except ArgsEnd OutputFormat
  | "text" => .ok .text
  | "json" => .ok .json
  | _ => .error .usage

/-- A whole number of 64 bits, with an optional plus sign. -/
def depth (s : String) : Except ArgsEnd Nat :=
  let ds := match s.toList with
    | '+' :: ds => ds
    | ds => ds
  let n := Number.digitsValue ds
  if ds.isEmpty || !ds.all Number.isDigit || 0x10000000000000000 ≤ n then .error .usage else .ok n

/-- A variable as `NAME=VALUE`. The value is JSON if it reads as such, else a string. -/
def variable_ (s : String) : Except ArgsEnd (String × Json) :=
  let cs := s.toList
  match cs.dropWhile (· != '=') with
  | [] => .error .usage
  | _ :: value =>
    let name := (trimBlank (cs.takeWhile (· != '='))).dropWhile (· == '$')
    let value := String.ofList value
    if name.isEmpty then .error .usage
    else .ok (String.ofList name, (Json.read? value).getD (.string value))

/-! ## Words -/

/-- What a word of the command line looks like. -/
inductive Word where
  | escape
  | long (name : String) (value : Option String)
  | short (c : Char) (rest : String)
  | plain (s : String)

def word (s : String) : Word :=
  match s.toList with
  | ['-', '-'] => .escape
  | '-' :: '-' :: cs =>
    match cs.dropWhile (· != '=') with
    | [] => .long (String.ofList cs) none
    | _ :: value => .long (String.ofList (cs.takeWhile (· != '='))) (some (String.ofList value))
  | '-' :: c :: cs => .short c (String.ofList cs)
  | _ => .plain s

/-- The value of an option: joined to it, or the next word if that looks like no option. -/
def value (joined : Option String) (rest : List String) : Except ArgsEnd (String × List String) :=
  match joined, rest with
  | some v, rest => .ok (v, rest)
  | none, w :: rest =>
    match word w with
    | .plain v => .ok (v, rest)
    | _ => .error .usage
  | none, [] => .error .usage

/-- The value joined to a short option: all after it, less one equals sign. -/
def shortValue (rest : String) : Option String :=
  match rest.toList with
  | [] => none
  | '=' :: cs => some (String.ofList cs)
  | cs => some (String.ofList cs)

/-- Gives an option its value, unless it has one. -/
def once {α : Type} (old : Option α) (new : α) : Except ArgsEnd (Option α) :=
  if old.isSome then .error .usage else .ok (some new)

/-- An option, or else the value that the environment has for it. -/
def orEnv {α : Type} (given : Option α) (env : Env) (name : String)
    (read : String → Except ArgsEnd α) : Except ArgsEnd (Option α) :=
  match given, env.lookup name with
  | none, some s => (read s).map some
  | given, _ => .ok given

/-! ## Actions -/

/-- What was read of an action so far. -/
structure Draft where
  script : Option String := none
  vars : List (String × Json) := []
  format : Option OutputFormat := none
  dryRun : Option Unit := none
  depth : Option Nat := none

def addScript (p : Draft) (s : String) : Except ArgsEnd Draft := do
  return { p with script := ← once p.script (← path s) }

/-- Words after `--`. -/
def scripts (p : Draft) : List String → Except ArgsEnd Draft
  | [] => .ok p
  | w :: rest => do scripts (← addScript p w) rest

/-- The words of an action; `takesOptions` tells `run` from the others. The number exceeds the
number of words. -/
def words (takesOptions : Bool) : Nat → Draft → List String → Except ArgsEnd Draft
  | 0, _, _ => .error .usage
  | _, p, [] => .ok p
  | n + 1, p, w :: rest =>
    match word w, takesOptions with
    | .escape, _ => scripts p rest
    | .plain s, _ => do words takesOptions n (← addScript p s) rest
    | .long "help" none, _ => .error .help
    | .short 'h' _, _ => .error .help
    | .long "var" joined, true => do
      let (v, rest) ← value joined rest
      words takesOptions n { p with vars := p.vars ++ [← variable_ v] } rest
    | .long "format" joined, true => do
      let (v, rest) ← value joined rest
      words takesOptions n { p with format := ← once p.format (← format v) } rest
    | .short 'f' joined, true => do
      let (v, rest) ← value (shortValue joined) rest
      words takesOptions n { p with format := ← once p.format (← format v) } rest
    | .long "max-call-depth" joined, true => do
      let (v, rest) ← value joined rest
      words takesOptions n { p with depth := ← once p.depth (← depth v) } rest
    | .long "dry-run" none, true => do
      words takesOptions n { p with dryRun := ← once p.dryRun () } rest
    | _, _ => .error .usage

def action (env : Env) (name : String) (rest : List String) : Except ArgsEnd Action := do
  let read (takesOptions : Bool) := words takesOptions (rest.length + 1) {} rest
  match name with
  | "run" =>
    let p ← read true
    let format ← orEnv p.format env "RETROSCRIPT_FORMAT" format
    let depth ← orEnv p.depth env "RETROSCRIPT_MAX_CALL_DEPTH" depth
    return .run p.script p.vars (format.getD .text) p.dryRun.isSome depth
  | "check" => return .check (← read false).script
  | "tokens" => return .tokens (← read false).script
  | "help" => .error .help
  | _ => .error .usage

/-- The words before the action. The number exceeds the number of words. -/
def invocation (env : Env) : Nat → Option String → List String → Except ArgsEnd Invocation
  | 0, _, _ => .error .usage
  | _, _, [] => .error .usage
  | n + 1, logDir, w :: rest =>
    match word w with
    | .plain name => do
      let act ← action env name rest
      return ⟨← orEnv logDir env "RETROSCRIPT_LOG_DIR" path, act⟩
    | .long "log-dir" joined => do
      let (v, rest) ← value joined rest
      invocation env n (← once logDir (← path v)) rest
    | .long "help" none | .short 'h' _ => .error .help
    | .long "version" none | .short 'V' _ => .error .version
    | _ => .error .usage

/-- What a command line asks for. -/
def read (env : Env) (args : List String) : Except ArgsEnd Invocation :=
  invocation env (args.length + 1) none args

end Args

end DeskScript
