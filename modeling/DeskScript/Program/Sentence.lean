import DeskScript.Program.Phrase

/-!
Reading statements and programs.

A statement starts with a reserved word, a variable to set, a call or a block,
and ends at a newline, a closing brace, the end of input, or right after a
block. What follows `print` is an expression if it reads as one, and otherwise
plain text: words and variables joined by single spaces.
-/

namespace DeskScript

/-! ## Verbs -/

/-- The verb that a reserved word is. -/
def Keyword.verb? : Keyword → Option Verb
  | .launch => some .launch
  | .close => some .close
  | .focus => some .focus
  | .minimize => some .minimize
  | .maximize => some .maximize
  | .wait => some .wait
  | .write => some .write
  | .read => some .read
  | .mkdir => some .mkdir
  | .delete => some .delete
  | .alert => some .alert
  | .confirm => some .confirm
  | .prompt => some .prompt
  | .notify => some .notify
  | .play => some .play
  | .stop => some .stop
  | .video => some .video
  | _ => none

/-! ## Plain text -/

/-- What a token adds to a plain text. -/
def Token.pieces (t : Token) : List TextPart :=
  match t.kind with
  | .variable name => [.var name]
  | .string s => [.text s]
  | .template parts => parts
  | _ => [.text t.lexeme]

/-- Joins pieces by single spaces, with none between two variables. `seg` is the text since the
last variable, and `afterVar` says that a variable stands right before it. -/
def TextPart.spaced (seg : String) (afterVar : Bool) : List TextPart → List TextPart
  | [] => if seg.isEmpty then [] else [.text seg]
  | .text t :: ps =>
    let gap := if !seg.isEmpty || afterVar then " " else ""
    spaced (seg ++ gap ++ t) false ps
  | .var x :: ps =>
    let rest := .var x :: spaced "" true ps
    if seg.isEmpty then rest else .text (seg ++ " ") :: rest

namespace Reader

/-- Everything up to the end of the statement as a text. -/
def plainText (pos : Position) : Reader Expr := do
  let c ← get
  let inside (t : Token) : Bool := !{ c with here := t }.atStatementEnd
  set (c.skipWhile inside)
  let pieces := ((c.here :: c.ahead).takeWhile inside).flatMap Token.pieces
  return .template pos (TextPart.spaced "" false pieces)

/-! ## Print -/

/-- Tokens after which `print` takes an expression. -/
def startsQuoted : TokenKind → Bool
  | .string _ | .template _ | .number _ => true
  | .keyword .true | .keyword .false | .keyword .null => true
  | .mark .openParen | .mark .openBracket | .mark .openBrace => true
  | _ => false

/-- Tokens after which an expression is worth a try. -/
def mayStartExpression (c : Cursor) : Bool :=
  match c.here.kind with
  | .variable _ | .keyword .call => true
  | .ident _ => c.following.kind == .mark .openParen
  | _ => false

/-- An expression that takes the whole statement and has no bare names; if there is none, nothing
is read. -/
def wholeExpression? (expr : Reader Expr) : Reader (Option Expr) := fun c =>
  match expr c with
  | .ok (e, c') =>
    if c'.atStatementEnd && c'.bare == c.bare then .ok (some e, c') else .ok (none, c)
  | .error _ => .ok (none, c)

/-- What follows `print`. -/
def printed (expr : Reader Expr) (pos : Position) : Reader Expr := do
  let c ← get
  if c.atStatementEnd then return .literal pos (.string "")
  else if startsQuoted c.here.kind then expr
  else if mayStartExpression c then
    match ← wholeExpression? expr with
    | some e => return e
    | none => plainText pos
  else plainText pos

/-! ## Assignments -/

/-- The steps between the variable and `=`. -/
def accessors (expr : Reader Expr) : Nat → List Accessor → Reader (List Accessor)
  | 0, _ => fail .exhausted
  | n + 1, read => do
    if ← accept .dot then
      accessors expr n (.member (← propertyName) :: read)
    else if ← accept .openBracket then
      let key ← expr
      let _ ← expect .closeBracket
      accessors expr n (.index key :: read)
    else return read.reverse

def assignment (n : Nat) (expr : Reader Expr) (pos : Position) : Reader Stmt := do
  let name ← variableName .setVariable
  let path ← accessors expr n []
  let _ ← expect .equals
  return .set pos name path (← expr)

/-! ## Functions -/

def parameter : Reader String := variableName .parameter

/-- Parameters in parentheses, with commas between them. -/
def parenParameters : Nat → List String → Reader (List String)
  | 0, _ => fail .exhausted
  | n + 1, read => do
    if ← isAtMark .closeParen then return read.reverse
    let x ← parameter
    if ← accept .comma then parenParameters n (x :: read) else return (x :: read).reverse

/-- Parameters without parentheses; commas between them are optional. -/
def bareParameters : Nat → List String → Reader (List String)
  | 0, _ => fail .exhausted
  | n + 1, read => do
    match ← variableName? with
    | some x =>
      let _ ← accept .comma
      bareParameters n (x :: read)
    | none => return read.reverse

def parameters (n : Nat) : Reader (List String) := do
  if ← accept .openParen then
    let xs ← parenParameters n []
    let _ ← expect .closeParen
    return xs
  else bareParameters n []

def functionName : Reader String := do
  match (← peek).kind with
  | .ident name =>
    let _ ← advance
    return name
  | _ => want .functionName

/-! ## Host statements -/

/-- Arguments up to the end of the statement or `into`; commas between them are optional. -/
def hostArgs (expr : Reader Expr) : Nat → List Expr → Reader (List Expr)
  | 0, _ => fail .exhausted
  | n + 1, read => do
    if (← atStatementEnd) || (← isAtWord .into) then return read.reverse
    let arg ← expr
    let _ ← accept .comma
    hostArgs expr n (arg :: read)

/-- The variable that takes the answer of a verb: the one after `into`, or `result`. -/
def answerVariable (verb : Verb) : Reader (Option String) := do
  if ← isAtWord .into then
    if !verb.answers then fail (.noAnswer verb)
    let _ ← advance
    return some (← variableName .intoVariable)
  else return if verb.answers then some "result" else none

def hostStatement (n : Nat) (expr : Reader Expr) (verb : Verb) (pos : Position) : Reader Stmt := do
  let args ← hostArgs expr n []
  let into ← answerVariable verb
  let (least, most) := verb.arity
  if args.length < least || most < args.length then failAt (.wrongCount verb args.length) pos
  return .host pos verb args into

/-! ## Statements -/

/-- How a statement reads the expressions and blocks inside it, at a nesting depth. -/
structure Body where
  inner : Inner
  block : Nat → Reader Block
  branch : Nat → Reader Stmt

/-- The name of an event: a word as written, or a string. -/
def eventName : Reader String := do
  match (← peek).kind with
  | .ident _ | .keyword _ => return (← advance).lexeme
  | .string s =>
    let _ ← advance
    return s
  | _ => want .eventName

/-- An expression unless the statement ends here. -/
def optionalExpression (expr : Reader Expr) : Reader (Option Expr) := do
  if ← atStatementEnd then return none else return some (← expr)

/-- The `else` of a branch, perhaps after newlines; if there is none, nothing is read. -/
def elseBlock (body : Body) (depth : Nat) : Reader (Option Block) := do
  let c ← get
  skipNewlines
  if ← isAtWord .else_ then
    let pos := (← advance).pos
    if ← isAtWord .if_ then
      let nestedIf ← nested .block depth body.branch
      return some (.mk pos [nestedIf])
    else return some (← body.block depth)
  else
    set c
    return none

/-- A branch from its `if` on. -/
def branchWith (body : Body) (depth : Nat) : Reader Stmt := do
  let pos := (← expectWord .if_).pos
  let condition ← body.inner.expression depth
  if ← isAtWord .then_ then
    let _ ← advance
  let yes ← body.block depth
  let no ← elseBlock body depth
  return .branch pos condition yes no

def foreachStatement (body : Body) (depth : Nat) (pos : Position) : Reader Stmt := do
  let name ← variableName .foreachVariable
  let _ ← expectWord .in_
  let collection ← body.inner.expression depth
  return .foreach pos name collection (← body.block depth)

def functionStatement (n : Nat) (body : Body) (depth : Nat) (pos : Position) : Reader Stmt := do
  let name ← functionName
  let params ← parameters n
  return .define pos name params (← body.block depth)

def attemptStatement (body : Body) (depth : Nat) (pos : Position) : Reader Stmt := do
  let tried ← body.block depth
  skipNewlines
  let _ ← expectWord .catch_
  let name ← variableName?
  return .attempt pos tried (name.getD "error") (← body.block depth)

/-- A statement that starts with a reserved word. -/
def wordStatement (n : Nat) (body : Body) (depth : Nat) (pos : Position) (k : Keyword) :
    Reader Stmt := do
  let expr := body.inner.expression depth
  match k with
  | .set => let _ ← advance; assignment n expr pos
  | .print => let _ ← advance; return .print pos (← printed expr pos)
  | .if_ => branchWith body depth
  | .loop =>
    let _ ← advance
    let count ← expr
    return .loop pos count (← body.block depth)
  | .while_ =>
    let _ ← advance
    let condition ← expr
    return .while_ pos condition (← body.block depth)
  | .foreach => let _ ← advance; foreachStatement body depth pos
  | .break_ => let _ ← advance; return .break_ pos
  | .continue_ => let _ ← advance; return .continue_ pos
  | .return_ => let _ ← advance; return .return_ pos (← optionalExpression expr)
  | .func => let _ ← advance; functionStatement n body depth pos
  | .call =>
    let _ ← advance
    let (name, args) ← callTail n body.inner depth
    return .call pos name args
  | .try_ => let _ ← advance; attemptStatement body depth pos
  | .throw => let _ ← advance; return .throw pos (← expr)
  | .on =>
    let _ ← advance
    let event ← eventName
    return .on pos event (← body.block depth)
  | .emit =>
    let _ ← advance
    let event ← eventName
    return .emit pos event (← optionalExpression expr)
  | k =>
    match k.verb? with
    | some verb => let _ ← advance; hostStatement n expr verb pos
    | none => unexpected .statementStart

/-- A statement that is a call `name(args)`. -/
def callStatement (n : Nat) (expr : Reader Expr) (pos : Position) (name : String) : Reader Stmt := do
  let _ ← advance
  if !(← get).adjacent then want .flushParen
  return .call pos name (← parenArgs n expr)

def statement (n : Nat) (body : Body) (depth : Nat) : Reader Stmt := do
  let c ← get
  let pos := c.here.pos
  match c.here.kind with
  | .keyword k => wordStatement n body depth pos k
  | .variable _ => assignment n (body.inner.expression depth) pos
  | .ident name =>
    if c.following.kind == .mark .openParen then callStatement n (body.inner.expression depth) pos name
    else unexpected .statementStart
  | .mark .openBrace => return .block pos (← body.block depth)
  | _ => unexpected .statementStart

/-- What may follow a statement: newlines, which are read, the end of the block or of the input,
or anything right after a block. -/
def endStatement : Reader Unit := do
  let c ← get
  match c.here.kind with
  | .newline => skipNewlines
  | .mark .closeBrace | .eof => return ()
  | _ => if c.before.any (·.kind = .mark .closeBrace) then return () else want .statementEnd

/-- Statements until `stop` says so. -/
def statementsUntil (stop : Reader Bool) (stmt : Reader Stmt) :
    Nat → List Stmt → Reader (List Stmt)
  | 0, _ => fail .exhausted
  | n + 1, read => do
    if ← stop then return read.reverse
    let s ← stmt
    endStatement
    statementsUntil stop stmt n (s :: read)

/-- At the closing brace of the block opened at `opened`; the input must not end before it. -/
def atBlockEnd (opened : Position) : Reader Bool := do
  if ← isAtMark .closeBrace then return true
  else if ← isAt .eof then failAt .unclosedBlock opened
  else return false

/-- A block in braces. -/
def blockWith (n : Nat) (body : Body) (depth : Nat) : Reader Block := do
  skipNewlines
  let pos := (← expect .openBrace).pos
  skipNewlines
  let stmts ← statementsUntil (atBlockEnd pos) (statement n body depth) n []
  let _ ← advance
  return .mk pos stmts

/-! ## The grammar -/

mutual

/-- A block, one level further in. -/
def block : Nat → Nat → Reader Block
  | 0, _ => fail .exhausted
  | n + 1, depth => nested .block depth fun d =>
    blockWith n ⟨⟨expression n, unary n⟩, block n, branch n⟩ d

/-- A branch at the same level. -/
def branch : Nat → Nat → Reader Stmt
  | 0, _ => fail .exhausted
  | n + 1, depth => branchWith ⟨⟨expression n, unary n⟩, block n, branch n⟩ depth

end

/-- How a program reads what is inside its statements, with a bound. -/
def body (n : Nat) : Body := ⟨⟨expression n, unary n⟩, block n, branch n⟩

def program (n : Nat) : Reader Block := do
  let pos := (← peek).pos
  skipNewlines
  let stmts ← statementsUntil (isAt .eof) (statement n (body n) 0) n []
  return .mk pos stmts

end Reader

/-- The program written by a list of tokens. -/
def parse (ts : List Token) : Except ParseError Block :=
  let c := Cursor.ofTokens ts
  (Reader.program (c.ahead.length + 2) c).map (·.1)

end DeskScript
