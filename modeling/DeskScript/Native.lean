import DeskScript.Fault
import DeskScript.Text.LetterCase
import DeskScript.Text.Split

/-!
Functions that scripts can call without defining them. A native function takes
any number of arguments and looks only at those it knows.

    join [split [s, sep], sep] = s    for every separator but null
-/

namespace DeskScript

/-- A function on argument lists. `none` is a call that never ends. -/
abbrev Native := List Value → Option (Except Fault Value)

/-- Native functions by name. -/
abbrev Natives := Table Native

namespace Native

/-- A function whose calls all end. -/
def total (f : List Value → Except Fault Value) : Native := fun args => some (f args)

/-- The complaint about an argument, a missing one counting as null. -/
def unfit (function : String) (wanted : Argument) (arg : Option Value) : Fault :=
  .mismatch (.argument function wanted ((arg.map Value.type).getD .null))

def numberArg (function : String) : Option Value → Except Fault Float
  | some (.number n) => .ok n
  | arg => .error (unfit function .number arg)

def stringArg (function : String) : Option Value → Except Fault String
  | some (.string s) => .ok s
  | arg => .error (unfit function .string arg)

def arrayArg (function : String) : Option Value → Except Fault (List Value)
  | some (.array items) => .ok items
  | arg => .error (unfit function .array arg)

def objectArg (function : String) : Option Value → Except Fault (List (String × Value))
  | some (.object fields) => .ok fields
  | arg => .error (unfit function .object arg)

/-- The text of an argument, a missing one being empty. -/
def textArg (arg : Option Value) : String := (arg.map Value.text).getD ""

/-! ## Numbers -/

/-- A function of one number. -/
def ofNumber (function : String) (f : Float → Float) (args : List Value) : Except Fault Value := do
  return .number (f (← numberArg function args.head?))

def num (args : List Value) : Except Fault Value :=
  match args.head? with
  | some (.bool b) => .ok (.number (if b then 1 else 0))
  | some v =>
    match v.number? with
    | some n => .ok (.number n)
    | none => .error (.mismatch (.unconvertible v.text))
  | none => .error (.mismatch .noArgument)

/-- What a function of many numbers looks at: its arguments, or the items of a single array. -/
def spread : List Value → List Value
  | [.array items] => items
  | args => args

/-- The better of the best number so far and a value, which must be a number. -/
def better (function : String) (pick : Float → Float → Float) (best : Option Float) :
    Value → Except Fault (Option Float)
  | .number n => .ok (some (best.elim n (pick · n)))
  | v => .error (unfit function .numbers (some v))

/-- The best of some numbers, or of those in one array. -/
def extreme (function : String) (pick : Float → Float → Float) (args : List Value) :
    Except Fault Value := do
  let best ← (spread args).foldlM (better function pick) none
  return best.elim .null .number

/-- The greatest number of elements of a range. -/
def maxRange : Nat := 1000000

/-- Counts up by one while below `stop`. `read` holds the numbers so far, the last one first. A
count that has not arrived after the greatest number of steps has met a number that adding one does
not change, and never arrives. -/
def countUp (stop : Float) : Nat → Float → List Value → Option (List Value)
  | 0, n, read => if n < stop then none else some read.reverse
  | steps + 1, n, read =>
    if n < stop then countUp stop steps (n + 1) (.number n :: read) else some read.reverse

/-- Whole numbers from the first argument, or zero, up to the last, which is not among them. -/
def range (args : List Value) : Option (Except Fault Value) :=
  let bounds : Except Fault (Float × Float) := match args with
    | first :: second :: _ => do
      return (← numberArg "range" (some first), ← numberArg "range" (some second))
    | _ => do return (0, ← numberArg "range" args.head?)
  match bounds with
  | .error e => some (.error e)
  | .ok (start, stop) =>
    let start := Number.trunc start
    let stop := Number.trunc stop
    if stop - start > Float.ofNat maxRange then some (.error (.rangeTooLarge (stop - start)))
    else (countUp stop maxRange start []).map fun items => .ok (.array items)

/-! ## Strings -/

def ofString (function : String) (f : String → String) (args : List Value) : Except Fault Value := do
  return .string (f (← stringArg function args.head?))

def trim (s : String) : String := String.ofList (trimBlank s.toList)

/-- The pieces of a string between separators; its words without one, its characters with an empty
one. -/
def pieces (s : String) : Option Value → List Value
  | none | some .null => (blankWords s.toList).map fun w => .string (String.ofList w)
  | some sep =>
    let sep := sep.text
    if sep.isEmpty then Value.characters s
    else (splitAt sep.toList s.toList).map fun w => .string (String.ofList w)

def split (args : List Value) : Except Fault Value := do
  let s ← stringArg "split" args.head?
  return .array (pieces s args[1]?)

def join (args : List Value) : Except Fault Value := do
  let items ← arrayArg "join" args.head?
  return .string (String.intercalate (textArg args[1]?) (items.map Value.text))

/-! ## Collections -/

def len (args : List Value) : Except Fault Value :=
  match args.head? with
  | some (.string s) => .ok (.ofNat s.length)
  | some (.array items) => .ok (.ofNat items.length)
  | some (.object fields) => .ok (.ofNat fields.length)
  | arg => .error (unfit "len" .sized arg)

/-- Is the second argument an element, a part or a key of the first? -/
def contains (args : List Value) : Except Fault Value :=
  match args.head? with
  | some (.array items) => .ok (.bool (args[1]?.any fun needle => items.any (·.same needle)))
  | some (.string s) => .ok (.bool (hasPart (textArg args[1]?).toList s.toList))
  | some (.object fields) => .ok (.bool (Table.has fields (textArg args[1]?)))
  | arg => .error (.mismatch (.searched ((arg.map Value.type).getD .null)))

def keys (args : List Value) : Except Fault Value := do
  return .array ((Table.names (← objectArg "keys" args.head?)).map .string)

def values (args : List Value) : Except Fault Value := do
  return .array ((← objectArg "values" args.head?).map (·.2))

/-- A new array with the further arguments at its end. -/
def push (args : List Value) : Except Fault Value := do
  return .array ((← arrayArg "push" args.head?) ++ args.drop 1)

/-! ## The standard functions -/

def typeOf (args : List Value) : Except Fault Value :=
  .ok (.string ((args.head?.map Value.type).getD .null).name)

def str (args : List Value) : Except Fault Value := .ok (.string (textArg args.head?))

def standard : Natives :=
  [("abs", total (ofNumber "abs" Float.abs)),
   ("ceil", total (ofNumber "ceil" Number.ceil)),
   ("contains", total contains),
   ("floor", total (ofNumber "floor" Number.floor)),
   ("int", total (ofNumber "int" Number.trunc)),
   ("join", total join),
   ("keys", total keys),
   ("len", total len),
   ("lower", total (ofString "lower" lowerText)),
   ("max", total (extreme "max" Number.greater)),
   ("min", total (extreme "min" Number.lesser)),
   ("num", total num),
   ("push", total push),
   ("range", range),
   ("round", total (ofNumber "round" Number.round)),
   ("split", total split),
   ("str", total str),
   ("trim", total (ofString "trim" trim)),
   ("type", total typeOf),
   ("upper", total (ofString "upper" upperText)),
   ("values", total values)]

/-- The names of native functions in alphabetical order. -/
def sortedNames (natives : Natives) : List String := (Table.names natives).mergeSort (· ≤ ·)

end Native

end DeskScript
