import DeskScript.Context

/-!
Driving a call to its end. The surroundings of a call execute its commands; they
may also cut it off while it waits. To drop it then is to drop whatever it was
doing: its scopes stay open and its calls stay counted.
-/

namespace DeskScript

/-- What a call is driven by, with effects in `m`. -/
structure Surroundings (m : Type → Type) where
  /-- Executes a command; `none` if the call is cut off meanwhile. -/
  execute : Command → m (Option Reply)
  /-- Waits until the call is cut off. -/
  waitForEnd : m Unit
  /-- Hears the lines printed since the last time. -/
  hear : List String → m Unit

namespace Call

/-- How a driven call ends. -/
inductive Ending (B : Type) where
  | ended (bus : B) (c : Context) (r : CallResult)
  /-- The call still waits. -/
  | cutOff (bus : B) (c : Context) (call : Call)
  | unfinished (bus : B) (c : Context)

variable {B : Type} [Channel B] {m : Type → Type} [Monad m]

/-- Hands over the lines after the first `known` ones. -/
def tell (around : Surroundings m) (known : Nat) (c : Context) : m Unit :=
  around.hear (c.session.output.extract known c.session.output.size).toList

/-- Drives a call from where it rests, with `known` lines handed over. The first number bounds the
commands and the steps between them. -/
def drive (around : Surroundings m) : Nat → Nat → Rest B → m (Ending B)
  | 0, _, .asks _ bus c _ | 0, _, .idle bus c _ => return .unfinished bus c
  | _, _, .unfinished bus c _ => return .unfinished bus c
  | _, known, .ended bus c r => do
    tell around known c
    return .ended bus c r
  | n + 1, known, .asks command bus c call => do
    tell around known c
    match ← around.execute command with
    | some reply => drive around n c.session.output.size (run n bus c (call.answer c reply))
    | none => return .cutOff bus c call
  | _ + 1, _, .idle bus c call => do
    around.waitForEnd
    return .cutOff bus c call

end Call

end DeskScript
