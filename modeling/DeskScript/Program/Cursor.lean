import DeskScript.Program

/-!
A place in a list of tokens, and readers that move it.

The list behind a cursor ends with an end-of-input token, and moving on from
that token stays there. A reader either fails at a place or gives a result and
the cursor after it.
-/

namespace DeskScript

/-! ## Errors -/

/-- What a reader wanted when it met another token. -/
inductive Wanted where
  | mark (m : Mark)
  | word (k : Keyword)
  | statementEnd | setVariable | property | foreachVariable | functionName | parameter
  | eventName | intoVariable | callee | flushParen | objectKey
  deriving DecidableEq, Repr

/-- Where a token was out of place. -/
inductive Place where
  | statementStart
  | expression
  | wanting (w : Wanted)
  deriving DecidableEq, Repr

/-- The token that was out of place. -/
inductive Found where
  | endOfInput
  | endOfLine
  | token (lexeme : String)
  deriving DecidableEq, Repr

inductive Nest where
  | block | expression
  deriving DecidableEq, Repr

inductive ParseCause where
  | unexpected (found : Found) (place : Place)
  | tooDeep (what : Nest)
  | unclosedBlock
  | noAnswer (verb : Verb)
  | wrongCount (verb : Verb) (count : Nat)
  | exhausted
  deriving DecidableEq, Repr

structure ParseError where
  cause : ParseCause
  pos : Position
  deriving DecidableEq, Repr

def Mark.text : Mark → String
  | openParen => "("
  | closeParen => ")"
  | openBrace => "\x7b"
  | closeBrace => "\x7d"
  | openBracket => "["
  | closeBracket => "]"
  | comma => ","
  | dot => "."
  | colon => ":"
  | plus => "+"
  | minus => "-"
  | star => "*"
  | slash => "/"
  | percent => "%"
  | bang => "!"
  | equals => "="
  | doubleEquals => "=="
  | notEquals => "!="
  | less => "<"
  | greater => ">"
  | lessEquals => "<="
  | greaterEquals => ">="
  | andAnd => "&&"
  | orOr => "||"

/-- The first spelling of a reserved word. -/
def Keyword.text (k : Keyword) : String :=
  ((spellings.find? (·.2 == k)).map (·.1)).getD ""

def Wanted.text : Wanted → String
  | mark m => s!"'{m.text}'"
  | word k => s!"'{k.text}'"
  | statementEnd => "end of statement"
  | setVariable => "variable after 'set'"
  | property => "property name"
  | foreachVariable => "variable after 'foreach'"
  | functionName => "function name"
  | parameter => "parameter name"
  | eventName => "event name"
  | intoVariable => "variable after 'into'"
  | callee => "function name after 'call'"
  | flushParen => "'(' directly after function name"
  | objectKey => "object key"

def Place.text : Place → String
  | statementStart => "at start of statement"
  | expression => "in expression"
  | wanting w => s!"(expected {w.text})"

def Found.text : Found → String
  | endOfInput => "Unexpected end of input"
  | endOfLine => "Unexpected end of line"
  | token lexeme => s!"Unexpected token '{lexeme}'"

def Nest.text : Nest → String
  | block => "Block"
  | expression => "Expression"

def ParseCause.message : ParseCause → String
  | unexpected found place => s!"{found.text} {place.text}"
  | tooDeep what => s!"{what.text} nested too deeply"
  | unclosedBlock => "Unclosed block, expected '\x7d'"
  | noAnswer verb => s!"'{verb.name}' does not produce a value"
  | wrongCount verb count =>
    let (least, most) := verb.arity
    let expected := if least = most then s!"{least}" else s!"{least} to {most}"
    s!"'{verb.name}' expects {expected} argument(s), got {count}"
  | exhausted => "Program too long"

/-! ## Cursors -/

structure Cursor where
  /-- The token before this one, if any. -/
  before : Option Token
  here : Token
  ahead : List Token
  /-- How many bare names were read as variables so far. -/
  bare : Nat

namespace Cursor

/-- The end-of-input token that a list without one is given. -/
def ending (ts : List Token) : Token :=
  match ts.getLast? with
  | some t => ⟨.eof, "", ⟨t.pos.line, t.endColumn⟩⟩
  | none => ⟨.eof, "", .start⟩

/-- The list with an end-of-input token at its end. -/
def ended (ts : List Token) : List Token :=
  if ts.getLast?.any (·.kind = .eof) then ts else ts ++ [ending ts]

/-- The cursor at the first token. -/
def ofTokens (ts : List Token) : Cursor :=
  match ended ts with
  | t :: rest => ⟨none, t, rest, 0⟩
  | [] => ⟨none, ending [], [], 0⟩

/-- The next token; at the end of input nothing moves. -/
def next (c : Cursor) : Cursor :=
  match c.ahead with
  | [] => c
  | t :: rest => { c with before := some c.here, here := t, ahead := rest }

/-- The token after this one, or this one at the end. -/
def following (c : Cursor) : Token := c.ahead.headD c.here

/-- Does this token start where the one before it ends? -/
def adjacent (c : Cursor) : Bool := c.before.any (·.flush c.here)

/-- A `-` with a gap before it and none after it: `f 2 -3`. -/
def atPrefixMinus (c : Cursor) : Bool :=
  c.here.kind == .mark .minus && !c.adjacent && c.here.flush c.following

def atStatementEnd (c : Cursor) : Bool :=
  match c.here.kind with
  | .newline | .eof | .mark .closeBrace => true
  | _ => false

def found (c : Cursor) : Found :=
  match c.here.kind with
  | .eof => .endOfInput
  | .newline => .endOfLine
  | _ => .token c.here.lexeme

/-- Moves on while the token here satisfies `p`, as far as the end of input. -/
def skipWhile (p : Token → Bool) (c : Cursor) : Cursor := go c.ahead c
where
  go : List Token → Cursor → Cursor
    | [], c => c
    | _ :: rest, c => if p c.here then go rest c.next else c

end Cursor

/-! ## Readers -/

/-- A reader of something from a cursor on. -/
abbrev Reader := StateT Cursor (Except ParseError)

namespace Reader

variable {α : Type}

/-- The greatest nesting of blocks, `else if` chains and inner expressions. -/
def maxNesting : Nat := 256

def failAt (cause : ParseCause) (pos : Position) : Reader α := throw ⟨cause, pos⟩

def fail (cause : ParseCause) : Reader α := do failAt cause (← get).here.pos

def unexpected (place : Place) : Reader α := do
  let c ← get
  failAt (.unexpected c.found place) c.here.pos

def want (w : Wanted) : Reader α := unexpected (.wanting w)

def peek : Reader Token := return (← get).here

def advance : Reader Token := do
  let c ← get
  set c.next
  return c.here

def isAt (kind : TokenKind) : Reader Bool := return (← get).here.kind == kind

def isAtMark (m : Mark) : Reader Bool := isAt (.mark m)

def isAtWord (k : Keyword) : Reader Bool := isAt (.keyword k)

def expect (m : Mark) : Reader Token := do
  if ← isAtMark m then advance else want (.mark m)

def expectWord (k : Keyword) : Reader Token := do
  if ← isAtWord k then advance else want (.word k)

/-- Moves past a mark if it stands here. -/
def accept (m : Mark) : Reader Bool := do
  if ← isAtMark m then
    let _ ← advance
    return true
  else return false

def skipNewlines : Reader Unit := modify fun c => c.skipWhile (·.kind == .newline)

def atStatementEnd : Reader Bool := return (← get).atStatementEnd

/-- Reads one level further in, unless that is too deep. -/
def nested (what : Nest) (depth : Nat) (inner : Nat → Reader α) : Reader α :=
  if maxNesting ≤ depth then fail (.tooDeep what) else inner (depth + 1)

/-- The name of a variable, with or without its `$`. -/
def variableName? : Reader (Option String) := do
  match (← peek).kind with
  | .variable name | .ident name =>
    let _ ← advance
    return some name
  | _ => return none

/-- The name of a variable, or an error. -/
def variableName (w : Wanted) : Reader String := do
  match ← variableName? with
  | some name => return name
  | none => want w

/-- A property name: any word, as it is written. -/
def propertyName : Reader String := do
  match (← peek).kind with
  | .ident _ | .keyword _ => return (← advance).lexeme
  | _ => want .property

end Reader

end DeskScript
