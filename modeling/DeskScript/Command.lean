import DeskScript.Fault

/-!
Commands: what a script asks of the host it runs on, with all arguments
computed. A command belongs to the verb that asked for it:

    ofArgs verb args = .ok c → c.verb = verb                       (Command.verb_of_ofArgs)
-/

namespace DeskScript

inductive Command where
  | launch (target : String)
  | close (target : String)
  | focus (target : String)
  | minimize (target : String)
  | maximize (target : String)
  | wait (seconds : Float)
  | write (path content : String)
  | read (path : String)
  | mkdir (path : String)
  | delete (path : String)
  | alert (message : String)
  | confirm (message : String)
  | prompt (message : String) (default : Option String)
  | notify (message : String) (title : Option String)
  | play (sound : String)
  | stop (sound : Option String)
  | video (path : String)

namespace Command

def verb : Command → Verb
  | launch _ => .launch
  | close _ => .close
  | focus _ => .focus
  | minimize _ => .minimize
  | maximize _ => .maximize
  | wait _ => .wait
  | write _ _ => .write
  | read _ => .read
  | mkdir _ => .mkdir
  | delete _ => .delete
  | alert _ => .alert
  | confirm _ => .confirm
  | prompt _ _ => .prompt
  | notify _ _ => .notify
  | play _ => .play
  | stop _ => .stop
  | video _ => .video

/-- The seconds to wait: a finite number, at least zero. -/
def seconds (arg : Value) : Except Fault Float :=
  match arg.number?.filter (·.isFinite) with
  | some n => .ok (if 0 < n then n else 0)
  | none => .error (.mismatch (.seconds arg.text))

/-- The command of a verb with its arguments. -/
def ofArgs (verb : Verb) (args : List Value) : Except Fault Command :=
  let optional (i : Nat) : Option String := args[i]?.map Value.text
  let text (i : Nat) : String := (optional i).getD ""
  match verb with
  | .launch => .ok (launch (text 0))
  | .close => .ok (close (text 0))
  | .focus => .ok (focus (text 0))
  | .minimize => .ok (minimize (text 0))
  | .maximize => .ok (maximize (text 0))
  | .wait => (seconds (args[0]?.getD .null)).map wait
  | .write => .ok (write (text 0) (text 1))
  | .read => .ok (read (text 0))
  | .mkdir => .ok (mkdir (text 0))
  | .delete => .ok (delete (text 0))
  | .alert => .ok (alert (text 0))
  | .confirm => .ok (confirm (text 0))
  | .prompt => .ok (prompt (text 0) (optional 1))
  | .notify => .ok (notify (text 0) (optional 1))
  | .play => .ok (play (text 0))
  | .stop => .ok (stop (optional 0))
  | .video => .ok (video (text 0))

/-- The answer of a host that does nothing. -/
def defaultAnswer : Command → Value
  | read _ => .string ""
  | confirm _ => .bool false
  | prompt _ default => .string (default.getD "")
  | _ => .null

theorem verb_of_ofArgs {verb : Verb} {args : List Value} {c : Command}
    (h : ofArgs verb args = .ok c) : c.verb = verb := by
  cases verb <;> simp only [ofArgs, Except.ok.injEq] at h <;> try (subst h; rfl)
  cases hs : seconds (args[0]?.getD .null) with
  | error e => simp [hs, Except.map] at h
  | ok n =>
    simp only [hs, Except.map, Except.ok.injEq] at h
    subst h
    rfl

end Command

end DeskScript
