import DeskScript.Program.Cursor

/-!
Reading expressions.

From loosest to tightest: `or`, `and`, equality, comparison, `+ -`, `* / %`,
the prefixes, then `.name` and `[index]`. The last two, and the `(` of a call,
count only when they stand flush with the token before them.

A production takes a bound that exceeds the number of tokens left, and every
inner expression is read with a smaller one; the bound is no part of the
grammar.
-/

namespace DeskScript

namespace Reader

/-- How a production reads the expressions inside it, at a nesting depth. -/
structure Inner where
  expression : Nat → Reader Expr
  unary : Nat → Reader Expr

/-! ## Binary operators -/

def orOp? : TokenKind → Option BinaryOp
  | .mark .orOr | .keyword .or => some .or
  | _ => none

def andOp? : TokenKind → Option BinaryOp
  | .mark .andAnd | .keyword .and => some .and
  | _ => none

def equalityOp? : TokenKind → Option BinaryOp
  | .mark .doubleEquals => some .eq
  | .mark .notEquals => some .ne
  | _ => none

def comparisonOp? : TokenKind → Option BinaryOp
  | .mark .less => some .lt
  | .mark .greater => some .gt
  | .mark .lessEquals => some .le
  | .mark .greaterEquals => some .ge
  | _ => none

def termOp? : TokenKind → Option BinaryOp
  | .mark .plus => some .add
  | .mark .minus => some .sub
  | _ => none

def factorOp? : TokenKind → Option BinaryOp
  | .mark .star => some .mul
  | .mark .slash => some .div
  | .mark .percent => some .mod
  | _ => none

/-- The operators by level, the loosest first. -/
def operatorLevels : List (TokenKind → Option BinaryOp) :=
  [orOp?, andOp?, equalityOp?, comparisonOp?, termOp?, factorOp?]

/-- The rest of a chain of operators of one level, grouped to the left. -/
def chainRest (op? : TokenKind → Option BinaryOp) (operand : Reader Expr) :
    Nat → Expr → Reader Expr
  | 0, _ => fail .exhausted
  | n + 1, left => do
    match op? (← peek).kind with
    | none => return left
    | some op =>
      let _ ← advance
      let right ← operand
      chainRest op? operand n (.binary left.pos op left right)

/-- Chains of operators, a chain of each level made of chains of the next. -/
def chains (n : Nat) (operand : Reader Expr) : List (TokenKind → Option BinaryOp) → Reader Expr
  | [] => operand
  | op? :: tighter => do
    let left ← chains n operand tighter
    chainRest op? (chains n operand tighter) n left

/-! ## Lists of expressions -/

/-- Items up to a closing mark, with commas between them and free line breaks. The last item
may have a comma after it. -/
def itemsUntil (close : Mark) {α : Type} (item : Reader α) : Nat → List α → Reader (List α)
  | 0, _ => fail .exhausted
  | n + 1, read => do
    if ← isAtMark close then return read.reverse
    let x ← item
    skipNewlines
    if ← accept .comma then
      skipNewlines
      itemsUntil close item n (x :: read)
    else return (x :: read).reverse

/-- A bracketed list whose opening mark has been read. -/
def bracketed (n : Nat) (close : Mark) {α : Type} (item : Reader α) : Reader (List α) := do
  skipNewlines
  let items ← itemsUntil close item n []
  let _ ← expect close
  return items

/-- The key of an object field: a word or number as written, or a string. -/
def objectKey : Reader String := do
  match (← peek).kind with
  | .ident _ | .keyword _ | .number _ => return (← advance).lexeme
  | .string s =>
    let _ ← advance
    return s
  | _ => want .objectKey

def objectField (expression : Reader Expr) : Reader (String × Expr) := do
  let key ← objectKey
  let _ ← expect .colon
  skipNewlines
  return (key, ← expression)

/-! ## Calls -/

def parenArgs (n : Nat) (expression : Reader Expr) : Reader (List Expr) := do
  let _ ← expect .openParen
  bracketed n .closeParen expression

/-- Can the token here start an argument of a call without parentheses? -/
def startsArgument (c : Cursor) : Bool :=
  match c.here.kind with
  | .number _ | .string _ | .template _ | .variable _ | .ident _ => true
  | .mark .openParen | .mark .openBracket | .mark .bang => true
  | .mark .minus => c.atPrefixMinus
  | .keyword .true | .keyword .false | .keyword .null | .keyword .not | .keyword .call => true
  | _ => false

/-- Arguments without parentheses; commas between them are optional. -/
def bareArgs (unary : Reader Expr) : Nat → List Expr → Reader (List Expr)
  | 0, _ => fail .exhausted
  | n + 1, read => do
    if startsArgument (← get) then
      let arg ← unary
      let _ ← accept .comma
      bareArgs unary n (arg :: read)
    else return read.reverse

/-- Is this the flush `(` of a call? -/
def atFlushParen : Reader Bool := do
  let c ← get
  return c.here.kind == .mark .openParen && c.adjacent

/-- What follows the word `call`: a name and its arguments. -/
def callTail (n : Nat) (inner : Inner) (depth : Nat) : Reader (String × List Expr) := do
  let name ← variableName .callee
  if ← atFlushParen then
    return (name, ← parenArgs n (inner.expression depth))
  else
    return (name, ← bareArgs (inner.unary depth) n [])

/-! ## Operands -/

/-- A name that is not a reserved word: a call if `(` is flush with it, otherwise a variable
written without its `$`. -/
def bareName (n : Nat) (inner : Inner) (depth : Nat) (pos : Position) (name : String) :
    Reader Expr := do
  if ← atFlushParen then
    return .call pos name (← parenArgs n (inner.expression depth))
  else
    modify fun c => { c with bare := c.bare + 1 }
    return .var pos name

/-- An operand without prefix and without what may follow it. -/
def primary (n : Nat) (inner : Inner) (depth : Nat) : Reader Expr := do
  let t ← peek
  match t.kind with
  | .number x => let _ ← advance; return .literal t.pos (.number x)
  | .string s => let _ ← advance; return .literal t.pos (.string s)
  | .template parts => let _ ← advance; return .template t.pos parts
  | .keyword .true => let _ ← advance; return .literal t.pos (.bool true)
  | .keyword .false => let _ ← advance; return .literal t.pos (.bool false)
  | .keyword .null => let _ ← advance; return .literal t.pos .null
  | .keyword .call =>
    let _ ← advance
    let (name, args) ← callTail n inner depth
    return .call t.pos name args
  | .variable name => let _ ← advance; return .var t.pos name
  | .ident name => let _ ← advance; bareName n inner depth t.pos name
  | .mark .openParen =>
    let _ ← advance
    skipNewlines
    let e ← inner.expression depth
    skipNewlines
    let _ ← expect .closeParen
    return .group t.pos e
  | .mark .openBracket =>
    let _ ← advance
    return .array t.pos (← bracketed n .closeBracket (inner.expression depth))
  | .mark .openBrace =>
    let _ ← advance
    return .object t.pos (← bracketed n .closeBrace (objectField (inner.expression depth)))
  | _ => unexpected .expression

/-- Members and indices flush after an operand. -/
def suffixes (expression : Reader Expr) : Nat → Expr → Reader Expr
  | 0, _ => fail .exhausted
  | n + 1, e => do
    let c ← get
    if c.here.kind == .mark .dot && c.adjacent then
      let _ ← advance
      let property ← propertyName
      suffixes expression n (.member e.pos e property)
    else if c.here.kind == .mark .openBracket && c.adjacent then
      let _ ← advance
      skipNewlines
      let index ← expression
      skipNewlines
      let _ ← expect .closeBracket
      suffixes expression n (.index e.pos e index)
    else return e

def prefixOp? : TokenKind → Option UnaryOp
  | .mark .bang | .keyword .not => some .not
  | .mark .minus => some .neg
  | _ => none

/-- An operand with its prefixes. -/
def unaryWith (n : Nat) (inner : Inner) (depth : Nat) : Reader Expr := do
  let t ← peek
  match prefixOp? t.kind with
  | some op =>
    let _ ← advance
    let operand ← nested .expression depth inner.unary
    return .unary t.pos op operand
  | none =>
    let e ← primary n inner depth
    suffixes (inner.expression depth) n e

/-! ## The grammar -/

mutual

/-- An expression, one level further in. -/
def expression : Nat → Nat → Reader Expr
  | 0, _ => fail .exhausted
  | n + 1, depth => nested .expression depth fun d =>
    chains n (unaryWith n ⟨expression n, unary n⟩ d) operatorLevels

/-- An operand at the same level. -/
def unary : Nat → Nat → Reader Expr
  | 0, _ => fail .exhausted
  | n + 1, depth => unaryWith n ⟨expression n, unary n⟩ depth

end

end Reader

end DeskScript
