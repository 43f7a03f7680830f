import DeskScript.Value
import DeskScript.Program.Cursor
import DeskScript.Token.Lexer

/-!
What can go wrong with a script. A fault is a cause; `message` has its wording
and `kind` the class that scripts see. A raised fault keeps the place where it
arose, however far it travels.
-/

namespace DeskScript

/-! ## Faults of running scripts -/

/-- What a native function wanted as an argument. -/
inductive Argument where
  | number | numbers | string | array | object | sized
  deriving DecidableEq, Repr

def Argument.text : Argument → String
  | number => "a number"
  | numbers => "numbers"
  | string => "a string"
  | array => "an array"
  | object => "an object"
  | sized => "a string, array or object"

/-- A value of the wrong type for its use. -/
inductive Mismatch where
  | operands (op : BinaryOp) (left right : ValueType)
  | negated (type : ValueType)
  | iterated (type : ValueType)
  | called (name : String) (type : ValueType)
  | propertyOf (name : String) (type : ValueType)
  | indexedBy (type : ValueType)
  | keyedBy (type : ValueType)
  | indexed (type : ValueType)
  | throughMissing (key : String)
  | arrayKey
  | objectKey
  | propertyOn (name : String) (type : ValueType)
  | argument (function : String) (wanted : Argument) (type : ValueType)
  | unconvertible (text : String)
  | noArgument
  | searched (type : ValueType)
  | seconds (text : String)

def Mismatch.message : Mismatch → String
  | operands op l r => s!"Cannot apply '{op.symbol}' to {l.name} and {r.name}"
  | negated t => s!"Cannot negate a {t.name}"
  | iterated t => s!"Cannot iterate over {t.name}"
  | called x t => s!"'{x}' is a {t.name}, not a function"
  | propertyOf x t => s!"Cannot read property '{x}' of {t.name}"
  | indexedBy t => s!"Index must be a number, got {t.name}"
  | keyedBy t => s!"Object key must be a string, got {t.name}"
  | indexed t => s!"Cannot index into {t.name}"
  | throughMissing k => s!"Cannot assign through missing key '{k}'"
  | arrayKey => "Array index must be a number"
  | objectKey => "Object key must be a string"
  | propertyOn x t => s!"Cannot set property '{x}' on {t.name}"
  | argument f wanted t => s!"{f}() expects {wanted.text}, got {t.name}"
  | unconvertible s => s!"num() cannot convert {quoteText s}"
  | noArgument => "num() expects an argument"
  | searched t => s!"contains() cannot search a {t.name}"
  | seconds s => s!"wait expects a finite number of seconds, got {s}"

inductive Fault where
  | mismatch (m : Mismatch)
  | undefinedVariable (name : String)
  | undefinedFunction (name : String)
  | divisionByZero
  | indexOutOfRange (index : Float) (length : Nat)
  | rangeTooLarge (count : Float)
  | strayBreak
  | strayContinue
  | hostFailed (verb : Verb) (reason : String)
  | custom (message : String)
  | tooManyCalls (limit : Nat) (name : String)

/-- The classes of faults, by the names scripts see. -/
inductive FaultKind where
  | typeMismatch | undefinedVariable | undefinedFunction | divisionByZero | indexOutOfRange
  | breakOutsideLoop | continueOutsideLoop | hostOperationFailed | custom | recursionLimit
  deriving DecidableEq, Repr

def FaultKind.name : FaultKind → String
  | typeMismatch => "TypeMismatch"
  | undefinedVariable => "UndefinedVariable"
  | undefinedFunction => "UndefinedFunction"
  | divisionByZero => "DivisionByZero"
  | indexOutOfRange => "IndexOutOfRange"
  | breakOutsideLoop => "BreakOutsideLoop"
  | continueOutsideLoop => "ContinueOutsideLoop"
  | hostOperationFailed => "HostOperationFailed"
  | custom => "Custom"
  | recursionLimit => "RecursionLimit"

namespace Fault

def kind : Fault → FaultKind
  | mismatch _ => .typeMismatch
  | undefinedVariable _ => .undefinedVariable
  | undefinedFunction _ => .undefinedFunction
  | divisionByZero => .divisionByZero
  | indexOutOfRange _ _ | rangeTooLarge _ => .indexOutOfRange
  | strayBreak => .breakOutsideLoop
  | strayContinue => .continueOutsideLoop
  | hostFailed _ _ => .hostOperationFailed
  | custom _ => .custom
  | tooManyCalls _ _ => .recursionLimit

def message : Fault → String
  | mismatch m => m.message
  | undefinedVariable x => s!"Undefined variable: ${x}"
  | undefinedFunction f => s!"Undefined function: {f}"
  | divisionByZero => "Division by zero"
  | indexOutOfRange i n => s!"Index {Number.display i} out of range for length {n}"
  | rangeTooLarge n => s!"range() of {Number.text n} elements is too large"
  | strayBreak => "'break' used outside of a loop"
  | strayContinue => "'continue' used outside of a loop"
  | hostFailed verb reason => s!"{verb.name} failed: {reason}"
  | custom message => message
  | tooManyCalls limit name => s!"Maximum call depth of {limit} exceeded in {name}"

end Fault

/-- A fault and the place where it arose. -/
structure Raised where
  fault : Fault
  pos : Position

namespace Raised

def text (r : Raised) : String :=
  s!"{r.fault.kind.name} at line {r.pos.line}, column {r.pos.column}: {r.fault.message}"

/-- The object that a `catch` binds. -/
def toValue (r : Raised) : Value :=
  .object [("message", .string r.fault.message), ("kind", .string r.fault.kind.name),
    ("line", .ofNat r.pos.line), ("column", .ofNat r.pos.column)]

end Raised

/-! ## All errors -/

def LexError.text (e : LexError) : String :=
  s!"Lex error at line {e.pos.line}, column {e.pos.column}: {e.cause.message}"

def ParseError.text (e : ParseError) : String :=
  s!"Parse error at line {e.pos.line}, column {e.pos.column}: {e.cause.message}"

/-- Why a script did not complete. -/
inductive ScriptError where
  | lex (e : LexError)
  | parse (e : ParseError)
  | raised (e : Raised)
  | cancelled

namespace ScriptError

def text : ScriptError → String
  | lex e => e.text
  | parse e => e.text
  | raised e => e.text
  | cancelled => "Script cancelled"

def kindName : ScriptError → String
  | lex _ => "LexError"
  | parse _ => "ParseError"
  | raised e => e.fault.kind.name
  | cancelled => "Cancelled"

def line? : ScriptError → Option Nat
  | lex e => some e.pos.line
  | parse e => some e.pos.line
  | raised e => some e.pos.line
  | cancelled => none

def exitCode : ScriptError → Nat
  | lex _ | parse _ => 2
  | raised _ => 3
  | cancelled => 130

end ScriptError

end DeskScript
