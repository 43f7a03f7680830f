import DeskScript.Token
import DeskScript.Number.Decimal

/-!
Reading a text into tokens.

`scan` looks at the start of a text and says what stands there and how many
characters it takes: something to skip, a separator, or a token. `tokenize`
repeats it, so the lexemes and what is skipped between them make up the source,

    c :: cs = (c :: cs.take n) ++ cs.drop n

Runs of separators give one newline token, and none before the first token.
-/

namespace DeskScript

inductive LexCause where
  | unexpected (c : Char)
  | nameMissing
  | unterminated
  deriving DecidableEq, Repr

structure LexError where
  cause : LexCause
  pos : Position
  deriving DecidableEq, Repr

def LexCause.message : LexCause → String
  | .unexpected c => s!"Unexpected character: '{c}'"
  | .nameMissing => "Expected variable name after '$'"
  | .unterminated => "Unterminated string"

namespace Lexer

def isNameStart (c : Char) : Bool := c.isAlpha || c == '_'

def isNameChar (c : Char) : Bool := c.isAlphanum || c == '_'

/-! ## Quoted strings -/

/-- What a string holds up to its closing quote, escapes included; `none` if it is never closed. -/
def untilQuote (quote : Char) : List Char → Option (List Char)
  | [] => none
  | '\\' :: c :: cs => (untilQuote quote cs).map fun body => '\\' :: c :: body
  | c :: cs =>
    if c == quote then some []
    else if c == '\\' then none
    else (untilQuote quote cs).map (c :: ·)

/-- What an escaped character stands for. An unknown escape keeps its backslash. -/
def unescape : Char → List Char
  | 'n' => ['\n']
  | 't' => ['\t']
  | 'r' => ['\r']
  | '0' => ['\x00']
  | '\\' => ['\\']
  | '$' => ['$']
  | '"' => ['"']
  | '\'' => ['\'']
  | c => ['\\', c]

/-- An element of a string's contents. -/
inductive Element where
  | char (c : Char)
  | var (name : String)
  deriving DecidableEq, Repr

/-- The contents of a string body. With `interpolate`, a `$` in front of a letter or `_` starts a
variable reference; any other `$` is itself. -/
def elements (interpolate : Bool) : List Char → List Element
  | [] => []
  | '\\' :: c :: cs => (unescape c).map .char ++ elements interpolate cs
  | c :: cs =>
    if interpolate && c == '$' && cs.head?.any isNameStart then
      .var (String.ofList (cs.takeWhile isNameChar)) :: elements interpolate (cs.dropWhile isNameChar)
    else .char c :: elements interpolate cs
termination_by cs => cs.length
decreasing_by
  all_goals
    have := (List.dropWhile_suffix (l := cs) isNameChar).length_le
    simp only [List.length_cons]
    omega

/-- Joins neighbouring characters; `seg` holds those read so far, the last one first. -/
def joinElements (seg : List Char) : List Element → List TextPart
  | [] => if seg.isEmpty then [] else [.text (String.ofList seg.reverse)]
  | .char c :: es => joinElements (c :: seg) es
  | .var name :: es =>
    let rest := .var name :: joinElements [] es
    if seg.isEmpty then rest else .text (String.ofList seg.reverse) :: rest

/-- A string without references is plain, any other is a template. -/
def stringKind (interpolate : Bool) (body : List Char) : TokenKind :=
  match joinElements [] (elements interpolate body) with
  | [] => .string ""
  | [.text s] => .string s
  | parts => .template parts

/-! ## Scanning -/

/-- What stands at the start of a text. -/
inductive Piece where
  | skip
  | separator
  | token (kind : TokenKind)

/-- Digits, and a point with digits when a digit follows the point. -/
def numberText (cs : List Char) : List Char :=
  let whole := cs.takeWhile Number.isDigit
  match cs.dropWhile Number.isDigit with
  | '.' :: d :: ds =>
    if Number.isDigit d then whole ++ '.' :: (d :: ds).takeWhile Number.isDigit else whole
  | _ => whole

def wordKind (word : String) : TokenKind :=
  match Keyword.ofWord? word with
  | some k => .keyword k
  | none => .ident word

/-- A mark of two characters if `second` follows, otherwise the mark of one. -/
def either (cs : List Char) (second : Char) (double single : Mark) : Piece × Nat :=
  if cs.head? == some second then (.token (.mark double), 1) else (.token (.mark single), 0)

/-- A mark that exists only doubled. -/
def doubled (c : Char) (cs : List Char) (m : Mark) : Except LexCause (Piece × Nat) :=
  if cs.head? == some c then .ok (.token (.mark m), 1) else .error (.unexpected c)

def single (m : Mark) : Except LexCause (Piece × Nat) := .ok (.token (.mark m), 0)

def quoted (quote : Char) (cs : List Char) : Except LexCause (Piece × Nat) :=
  match untilQuote quote cs with
  | some body => .ok (.token (stringKind (quote == '"') body), body.length + 1)
  | none => .error .unterminated

def reference (cs : List Char) : Except LexCause (Piece × Nat) :=
  let name := cs.takeWhile isNameChar
  if name.isEmpty then .error .nameMissing
  else .ok (.token (.variable (String.ofList name)), name.length)

/-- A number or a word, or nothing that starts a token. -/
def wordlike (c : Char) (cs : List Char) : Except LexCause (Piece × Nat) :=
  if Number.isDigit c then
    let digits := numberText (c :: cs)
    .ok (.token (.number ((Number.readDecimal? digits).getD 0)), digits.length - 1)
  else if isNameStart c then
    let word := c :: cs.takeWhile isNameChar
    .ok (.token (wordKind (String.ofList word)), word.length - 1)
  else .error (.unexpected c)

/-- What the text `c :: cs` starts with, and how many characters of `cs` it takes. -/
def scan (c : Char) (cs : List Char) : Except LexCause (Piece × Nat) :=
  match c with
  | ' ' | '\t' | '\r' => .ok (.skip, 0)
  | '#' => .ok (.skip, (cs.takeWhile (· != '\n')).length)
  | '\n' | ';' => .ok (.separator, 0)
  | '(' => single .openParen
  | ')' => single .closeParen
  | '{' => single .openBrace
  | '}' => single .closeBrace
  | '[' => single .openBracket
  | ']' => single .closeBracket
  | ',' => single .comma
  | '.' => single .dot
  | ':' => single .colon
  | '+' => single .plus
  | '-' => single .minus
  | '*' => single .star
  | '/' => single .slash
  | '%' => single .percent
  | '=' => .ok (either cs '=' .doubleEquals .equals)
  | '!' => .ok (either cs '=' .notEquals .bang)
  | '<' => .ok (either cs '=' .lessEquals .less)
  | '>' => .ok (either cs '=' .greaterEquals .greater)
  | '&' => doubled '&' cs .andAnd
  | '|' => doubled '|' cs .orOr
  | '"' => quoted '"' cs
  | '\'' => quoted '\'' cs
  | '$' => reference cs
  | c => wordlike c cs

/-- The tokens read so far, the last one first, after one more piece. -/
def record (read : List Token) (piece : Piece) (lexeme : List Char) (pos : Position) : List Token :=
  match piece with
  | .skip => read
  | .separator =>
    match read with
    | [] => []
    | t :: ts =>
      if t.kind = .newline then t :: ts else ⟨.newline, String.ofList lexeme, pos⟩ :: t :: ts
  | .token kind => ⟨kind, String.ofList lexeme, pos⟩ :: read

/-- Reads on from `pos`; `read` holds the tokens so far, the last one first. -/
def tokensFrom (read : List Token) (pos : Position) : List Char → Except LexError (List Token)
  | [] => .ok (⟨.eof, "", pos⟩ :: read).reverse
  | c :: cs =>
    match scan c cs with
    | .error cause => .error ⟨cause, pos⟩
    | .ok (piece, n) =>
      let lexeme := c :: cs.take n
      tokensFrom (record read piece lexeme pos) (pos.past lexeme) (cs.drop n)
termination_by cs => cs.length
decreasing_by
  simp only [List.length_drop, List.length_cons]
  omega

end Lexer

/-- The tokens of a source text, ended by one end-of-input token. -/
def tokenize (source : String) : Except LexError (List Token) :=
  Lexer.tokensFrom [] .start source.toList

end DeskScript
