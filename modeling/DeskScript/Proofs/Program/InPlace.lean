import DeskScript.Program.Sentence

/-!
# The grammar in place

The grammar once more, as a parser that moves an index over one list of tokens. The index, the
nesting depth and the count of bare names are variables. A failure leaves them as they are, and
nothing bounds loops and recursion: a production that never ends has no result.

    ts.statement.outcome σ = some (.ok s, σ')       it read `s`, and left the variables as in `σ'`
    ts.statement.outcome σ = some (.error e, σ')    it failed, and left them as in `σ'`
    ts.statement.outcome σ = none                   it does not end

Besides, the list of all indices so far is kept.
-/

namespace DeskScript

/-- The variables of a parser. -/
structure Spot where
  /-- The index of the token here. -/
  pos : Nat
  depth : Nat
  bare : Nat
  /-- All indices so far, the latest first. -/
  trail : List Nat

namespace Spot

def start : Spot := ⟨0, 0, 0, [0]⟩

/-- What there is to see from an index. -/
def cursor (ts : List Token) (σ : Spot) : Cursor where
  before := if σ.pos = 0 then none else ts[σ.pos - 1]?
  here := ts.getD (min σ.pos (ts.length - 1)) (Cursor.ending [])
  ahead := ts.drop (σ.pos + 1)
  bare := σ.bare

end Spot

/-- The tokens that an index moves over. -/
abbrev Tape := List Token

abbrev InPlace := ExceptT ParseError (StateT Spot Option)

namespace InPlace

variable {α : Type}

/-- The result of a parser and the variables after it, if it ends. -/
def outcome (p : InPlace α) (σ : Spot) : Option (Except ParseError α × Spot) := p.run.run σ

/-- The result as a value, be it a failure. -/
@[reducible] def held (p : InPlace α) : InPlace (Except ParseError α) :=
  (Except.ok <$> p.run : StateT Spot Option (Except ParseError (Except ParseError α)))

def failAt (cause : ParseCause) (pos : Position) : InPlace α := throw ⟨cause, pos⟩

def moveTo (pos : Nat) : InPlace Unit := modify fun σ => { σ with pos, trail := pos :: σ.trail }

end InPlace

namespace Tape

open InPlace

variable {α : Type} (ts : Tape)

def look : InPlace Cursor := return (← get).cursor ts

def fail (cause : ParseCause) : InPlace α := do failAt cause (← ts.look).here.pos

def unexpected (place : Place) : InPlace α := do
  let c ← ts.look
  failAt (.unexpected c.found place) c.here.pos

def want (w : Wanted) : InPlace α := ts.unexpected (.wanting w)

def advance : InPlace Token := do
  let σ ← get
  if σ.pos < ts.length - 1 then moveTo (σ.pos + 1)
  return (σ.cursor ts).here

def expect (m : Mark) : InPlace Token := do
  if (← ts.look).here.kind == .mark m then ts.advance else ts.want (.mark m)

def expectWord (k : Keyword) : InPlace Token := do
  if (← ts.look).here.kind == .keyword k then ts.advance else ts.want (.word k)

def accept (m : Mark) : InPlace Bool := do
  if (← ts.look).here.kind == .mark m then
    let _ ← ts.advance
    return true
  else return false

def skipNewlines (ts : Tape) : InPlace Unit := do
  if (← ts.look).here.kind == .newline then
    let _ ← ts.advance
    ts |>.skipNewlines
partial_fixpoint

/-- Goes one level further in, unless that is too deep, and comes back whatever the result is. -/
@[reducible] def nested (what : Nest) (inner : InPlace α) : InPlace α := do
  if Reader.maxNesting ≤ (← get).depth then ts.fail (.tooDeep what)
  else
    modify fun σ => { σ with depth := σ.depth + 1 }
    let r ← held inner
    modify fun σ => { σ with depth := σ.depth - 1 }
    match r with
    | .ok a => return a
    | .error e => throw e

/-! ## Words -/

def variableName? : InPlace (Option String) := do
  match (← ts.look).here.kind with
  | .variable name | .ident name =>
    let _ ← ts.advance
    return some name
  | _ => return none

def variableName (w : Wanted) : InPlace String := do
  match ← ts.variableName? with
  | some name => return name
  | none => ts.want w

def propertyName : InPlace String := do
  match (← ts.look).here.kind with
  | .ident _ | .keyword _ => return (← ts.advance).lexeme
  | _ => ts.want .property

def objectKey : InPlace String := do
  match (← ts.look).here.kind with
  | .ident _ | .keyword _ | .number _ => return (← ts.advance).lexeme
  | .string s =>
    let _ ← ts.advance
    return s
  | _ => ts.want .objectKey

def functionName : InPlace String := do
  match (← ts.look).here.kind with
  | .ident name =>
    let _ ← ts.advance
    return name
  | _ => ts.want .functionName

def eventName : InPlace String := do
  match (← ts.look).here.kind with
  | .ident _ | .keyword _ => return (← ts.advance).lexeme
  | .string s =>
    let _ ← ts.advance
    return s
  | _ => ts.want .eventName

/-! ## Expressions -/

/-- Items and the closing mark after them. -/
@[reducible] def bracketed (close : Mark) (items : InPlace α) : InPlace α := do
  ts.skipNewlines
  let xs ← items
  let _ ← ts.expect close
  return xs

/-- A key and the value that follows it. -/
@[reducible] def objectField (value : InPlace Expr) : InPlace (String × Expr) := do
  let key ← ts.objectKey
  let _ ← ts.expect .colon
  ts.skipNewlines
  return (key, ← value)

def atFlushParen : InPlace Bool := do
  let c ← ts.look
  return c.here.kind == .mark .openParen && c.adjacent

mutual

def expression (ts : Tape) : InPlace Expr :=
  ts.nested .expression (ts |>.chains Reader.operatorLevels)
partial_fixpoint

def chains (ts : Tape) (levels : List (TokenKind → Option BinaryOp)) : InPlace Expr := do
  match levels with
  | [] => ts |>.unary
  | op? :: tighter =>
    let left ← ts |>.chains tighter
    ts |>.chainRest op? tighter left
partial_fixpoint

def chainRest (ts : Tape) (op? : TokenKind → Option BinaryOp)
    (tighter : List (TokenKind → Option BinaryOp)) (left : Expr) : InPlace Expr := do
  match op? (← ts.look).here.kind with
  | none => return left
  | some op =>
    let _ ← ts.advance
    let right ← ts |>.chains tighter
    ts |>.chainRest op? tighter (.binary left.pos op left right)
partial_fixpoint

def unary (ts : Tape) : InPlace Expr := do
  let t := (← ts.look).here
  match Reader.prefixOp? t.kind with
  | some op =>
    let _ ← ts.advance
    let operand ← ts.nested .expression (ts |>.unary)
    return .unary t.pos op operand
  | none =>
    let e ← ts |>.primary
    ts |>.suffixes e
partial_fixpoint

def suffixes (ts : Tape) (e : Expr) : InPlace Expr := do
  let c ← ts.look
  if c.here.kind == .mark .dot && c.adjacent then
    let _ ← ts.advance
    let property ← ts.propertyName
    ts |>.suffixes (.member e.pos e property)
  else if c.here.kind == .mark .openBracket && c.adjacent then
    let _ ← ts.advance
    ts.skipNewlines
    let index ← ts |>.expression
    ts.skipNewlines
    let _ ← ts.expect .closeBracket
    ts |>.suffixes (.index e.pos e index)
  else return e
partial_fixpoint

def primary (ts : Tape) : InPlace Expr := do
  let t := (← ts.look).here
  match t.kind with
  | .number x => let _ ← ts.advance; return .literal t.pos (.number x)
  | .string s => let _ ← ts.advance; return .literal t.pos (.string s)
  | .template parts => let _ ← ts.advance; return .template t.pos parts
  | .keyword .true => let _ ← ts.advance; return .literal t.pos (.bool true)
  | .keyword .false => let _ ← ts.advance; return .literal t.pos (.bool false)
  | .keyword .null => let _ ← ts.advance; return .literal t.pos .null
  | .keyword .call =>
    let _ ← ts.advance
    let (name, args) ← ts |>.callTail
    return .call t.pos name args
  | .variable name => let _ ← ts.advance; return .var t.pos name
  | .ident name =>
    let _ ← ts.advance
    if ← ts.atFlushParen then return .call t.pos name (← ts |>.parenArgs)
    else
      modify fun σ => { σ with bare := σ.bare + 1 }
      return .var t.pos name
  | .mark .openParen =>
    let _ ← ts.advance
    ts.skipNewlines
    let e ← ts |>.expression
    ts.skipNewlines
    let _ ← ts.expect .closeParen
    return .group t.pos e
  | .mark .openBracket =>
    let _ ← ts.advance
    return .array t.pos (← ts.bracketed .closeBracket (ts |>.items .closeBracket []))
  | .mark .openBrace =>
    let _ ← ts.advance
    return .object t.pos (← ts.bracketed .closeBrace (ts |>.fields []))
  | _ => ts.unexpected .expression
partial_fixpoint

def callTail (ts : Tape) : InPlace (String × List Expr) := do
  let name ← ts.variableName .callee
  if ← ts.atFlushParen then return (name, ← ts |>.parenArgs)
  else return (name, ← ts |>.bareArgs [])
partial_fixpoint

def parenArgs (ts : Tape) : InPlace (List Expr) := do
  let _ ← ts.expect .openParen
  ts.bracketed .closeParen (ts |>.items .closeParen [])
partial_fixpoint

def bareArgs (ts : Tape) (read : List Expr) : InPlace (List Expr) := do
  if Reader.startsArgument (← ts.look) then
    let arg ← ts |>.unary
    let _ ← ts.accept .comma
    ts |>.bareArgs (arg :: read)
  else return read.reverse
partial_fixpoint

def items (ts : Tape) (close : Mark) (read : List Expr) : InPlace (List Expr) := do
  if (← ts.look).here.kind == .mark close then return read.reverse
  let x ← ts |>.expression
  ts.skipNewlines
  if ← ts.accept .comma then
    ts.skipNewlines
    ts |>.items close (x :: read)
  else return (x :: read).reverse
partial_fixpoint

def fields (ts : Tape) (read : List (String × Expr)) : InPlace (List (String × Expr)) := do
  if (← ts.look).here.kind == .mark .closeBrace then return read.reverse
  let x ← ts.objectField (ts |>.expression)
  ts.skipNewlines
  if ← ts.accept .comma then
    ts.skipNewlines
    ts |>.fields (x :: read)
  else return (x :: read).reverse
partial_fixpoint

end

/-! ## Print -/

/-- The pieces of a plain text. -/
def textPieces (ts : Tape) (read : List TextPart) : InPlace (List TextPart) := do
  if (← ts.look).atStatementEnd then return read
  let t ← ts.advance
  ts |>.textPieces (read ++ t.pieces)
partial_fixpoint

def plainText (pos : Position) : InPlace Expr := do
  return .template pos (TextPart.spaced "" false (← ts.textPieces []))

/-- An expression that takes the whole statement and has no bare names. If there is none, the index
goes back, and nothing else does. -/
def wholeExpression? : InPlace (Option Expr) := do
  let σ ← get
  match ← held ts.expression with
  | .ok e =>
    let c ← ts.look
    if c.atStatementEnd && c.bare == σ.bare then return some e
    else
      moveTo σ.pos
      return none
  | .error _ =>
    moveTo σ.pos
    return none

def printed (pos : Position) : InPlace Expr := do
  let c ← ts.look
  if c.atStatementEnd then return .literal pos (.string "")
  else if Reader.startsQuoted c.here.kind then ts.expression
  else if Reader.mayStartExpression c then
    match ← ts.wholeExpression? with
    | some e => return e
    | none => ts.plainText pos
  else ts.plainText pos

/-! ## Parts of statements -/

def accessors (ts : Tape) (read : List Accessor) : InPlace (List Accessor) := do
  if ← ts.accept .dot then ts |>.accessors (.member (← ts.propertyName) :: read)
  else if ← ts.accept .openBracket then
    let key ← ts.expression
    let _ ← ts.expect .closeBracket
    ts |>.accessors (.index key :: read)
  else return read.reverse
partial_fixpoint

def assignment (pos : Position) : InPlace Stmt := do
  let name ← ts.variableName .setVariable
  let path ← ts.accessors []
  let _ ← ts.expect .equals
  return .set pos name path (← ts.expression)

def parenParameters (ts : Tape) (read : List String) : InPlace (List String) := do
  if (← ts.look).here.kind == .mark .closeParen then return read.reverse
  let x ← ts.variableName .parameter
  if ← ts.accept .comma then ts |>.parenParameters (x :: read) else return (x :: read).reverse
partial_fixpoint

def bareParameters (ts : Tape) (read : List String) : InPlace (List String) := do
  match ← ts.variableName? with
  | some x =>
    let _ ← ts.accept .comma
    ts |>.bareParameters (x :: read)
  | none => return read.reverse
partial_fixpoint

def parameters : InPlace (List String) := do
  if ← ts.accept .openParen then
    let xs ← ts.parenParameters []
    let _ ← ts.expect .closeParen
    return xs
  else ts.bareParameters []

def hostArgs (ts : Tape) (read : List Expr) : InPlace (List Expr) := do
  let c ← ts.look
  if c.atStatementEnd || c.here.kind == .keyword .into then return read.reverse
  let arg ← ts.expression
  let _ ← ts.accept .comma
  ts |>.hostArgs (arg :: read)
partial_fixpoint

def answerVariable (verb : Verb) : InPlace (Option String) := do
  if (← ts.look).here.kind == .keyword .into then
    if !verb.answers then ts.fail (.noAnswer verb)
    let _ ← ts.advance
    return some (← ts.variableName .intoVariable)
  else return if verb.answers then some "result" else none

def hostStatement (verb : Verb) (pos : Position) : InPlace Stmt := do
  let args ← ts.hostArgs []
  let into ← ts.answerVariable verb
  let (least, most) := verb.arity
  if args.length < least || most < args.length then failAt (.wrongCount verb args.length) pos
  return .host pos verb args into

def verbStatement (pos : Position) (k : Keyword) : InPlace Stmt := do
  match k.verb? with
  | some verb => let _ ← ts.advance; ts.hostStatement verb pos
  | none => ts.unexpected .statementStart

def callStatement (pos : Position) (name : String) : InPlace Stmt := do
  let _ ← ts.advance
  if !(← ts.look).adjacent then ts.want .flushParen
  return .call pos name (← ts.parenArgs)

def optionalExpression : InPlace (Option Expr) := do
  if (← ts.look).atStatementEnd then return none else return some (← ts.expression)

/-- A statement that starts with a reserved word and has no block inside. -/
def plainStatement (pos : Position) (k : Keyword) : InPlace Stmt := do
  match k with
  | .set => let _ ← ts.advance; ts.assignment pos
  | .print => let _ ← ts.advance; return .print pos (← ts.printed pos)
  | .break_ => let _ ← ts.advance; return .break_ pos
  | .continue_ => let _ ← ts.advance; return .continue_ pos
  | .return_ => let _ ← ts.advance; return .return_ pos (← ts.optionalExpression)
  | .call =>
    let _ ← ts.advance
    let (name, args) ← ts.callTail
    return .call pos name args
  | .throw => let _ ← ts.advance; return .throw pos (← ts.expression)
  | .emit =>
    let _ ← ts.advance
    let event ← ts.eventName
    return .emit pos event (← ts.optionalExpression)
  | k => ts.verbStatement pos k

def endStatement : InPlace Unit := do
  let c ← ts.look
  match c.here.kind with
  | .newline => ts.skipNewlines
  | .mark .closeBrace | .eof => return ()
  | _ => if c.before.any (·.kind = .mark .closeBrace) then return () else ts.want .statementEnd

/-- At the end of the block opened at a place, or of the program. -/
def atEnd : Option Position → InPlace Bool
  | none => return (← ts.look).here.kind == .eof
  | some opened => do
    let t := (← ts.look).here
    if t.kind == .mark .closeBrace then return true
    else if t.kind == .eof then failAt .unclosedBlock opened
    else return false

/-! ## Statements -/

mutual

def statement (ts : Tape) : InPlace Stmt := do
  let c ← ts.look
  let pos := c.here.pos
  match c.here.kind with
  | .mark .openBrace => return .block pos (← ts |>.block)
  | .keyword k => ts |>.wordStatement pos k
  | .variable _ => ts.assignment pos
  | .ident name =>
    if c.following.kind == .mark .openParen then ts.callStatement pos name
    else ts.unexpected .statementStart
  | _ => ts.unexpected .statementStart
partial_fixpoint

def wordStatement (ts : Tape) (pos : Position) (k : Keyword) : InPlace Stmt := do
  match k with
  | .if_ => ts |>.branch
  | .loop =>
    let _ ← ts.advance
    let count ← ts.expression
    return .loop pos count (← ts |>.block)
  | .while_ =>
    let _ ← ts.advance
    let condition ← ts.expression
    return .while_ pos condition (← ts |>.block)
  | .foreach =>
    let _ ← ts.advance
    let name ← ts.variableName .foreachVariable
    let _ ← ts.expectWord .in_
    let collection ← ts.expression
    return .foreach pos name collection (← ts |>.block)
  | .func =>
    let _ ← ts.advance
    let name ← ts.functionName
    let params ← ts.parameters
    return .define pos name params (← ts |>.block)
  | .try_ =>
    let _ ← ts.advance
    let tried ← ts |>.block
    ts.skipNewlines
    let _ ← ts.expectWord .catch_
    let name ← ts.variableName?
    return .attempt pos tried (name.getD "error") (← ts |>.block)
  | .on =>
    let _ ← ts.advance
    let event ← ts.eventName
    return .on pos event (← ts |>.block)
  | k => ts.plainStatement pos k
partial_fixpoint

def branch (ts : Tape) : InPlace Stmt := do
  let pos := (← ts.expectWord .if_).pos
  let condition ← ts.expression
  if (← ts.look).here.kind == .keyword .then_ then
    let _ ← ts.advance
  let yes ← ts |>.block
  let no ← ts |>.elseBlock
  return .branch pos condition yes no
partial_fixpoint

/-- The `else` of a branch, perhaps after newlines; if there is none, the index goes back. -/
def elseBlock (ts : Tape) : InPlace (Option Block) := do
  let σ ← get
  ts.skipNewlines
  if (← ts.look).here.kind == .keyword .else_ then
    let pos := (← ts.advance).pos
    if (← ts.look).here.kind == .keyword .if_ then
      let nestedIf ← ts.nested .block (ts |>.branch)
      return some (.mk pos [nestedIf])
    else return some (← ts |>.block)
  else
    moveTo σ.pos
    return none
partial_fixpoint

def block (ts : Tape) : InPlace Block := ts.nested .block (ts |>.blockBody)
partial_fixpoint

def blockBody (ts : Tape) : InPlace Block := do
  ts.skipNewlines
  let pos := (← ts.expect .openBrace).pos
  ts.skipNewlines
  let stmts ← ts |>.statements (some pos) []
  let _ ← ts.advance
  return .mk pos stmts
partial_fixpoint

def statements (ts : Tape) (opened : Option Position) (read : List Stmt) : InPlace (List Stmt) := do
  if ← ts.atEnd opened then return read.reverse
  let s ← ts |>.statement
  ts.endStatement
  ts |>.statements opened (s :: read)
partial_fixpoint

end

def program : InPlace Block := do
  let pos := (← ts.look).here.pos
  ts.skipNewlines
  let stmts ← ts.statements none []
  return .mk pos stmts

end Tape

end DeskScript
