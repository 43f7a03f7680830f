import DeskScript.Position

/-!
Tokens. A token keeps what it means (`kind`), the text it was read from
(`lexeme`) and the place of its first character (`pos`). Two tokens are flush
when the second starts in the column where the first ends:

    a.flush b = (a.pos.line == b.pos.line && a.endColumn == b.pos.column)
-/

namespace DeskScript

/-- The reserved words. -/
inductive Keyword where
  | set | print | if_ | then_ | else_ | loop | while_ | foreach | in_ | break_ | continue_
  | return_ | func | call | try_ | catch_ | throw | on | emit | into
  | launch | close | focus | minimize | maximize | wait | write | read | mkdir | delete
  | alert | confirm | prompt | notify | play | stop | video
  | true | false | null | and | or | not
  deriving DecidableEq, Repr

/-- The spelling of each reserved word in lower case. `function` is a second spelling of `func`. -/
def Keyword.spellings : List (String × Keyword) :=
  [("set", .set), ("print", .print), ("if", .if_), ("then", .then_), ("else", .else_),
   ("loop", .loop), ("while", .while_), ("foreach", .foreach), ("in", .in_), ("break", .break_),
   ("continue", .continue_), ("return", .return_), ("func", .func), ("function", .func),
   ("call", .call), ("try", .try_), ("catch", .catch_), ("throw", .throw), ("on", .on),
   ("emit", .emit), ("into", .into), ("launch", .launch), ("close", .close), ("focus", .focus),
   ("minimize", .minimize), ("maximize", .maximize), ("wait", .wait), ("write", .write),
   ("read", .read), ("mkdir", .mkdir), ("delete", .delete), ("alert", .alert),
   ("confirm", .confirm), ("prompt", .prompt), ("notify", .notify), ("play", .play),
   ("stop", .stop), ("video", .video), ("true", .true), ("false", .false), ("null", .null),
   ("and", .and), ("or", .or), ("not", .not)]

/-- The reserved word spelled by `word`, in any mix of upper and lower case. -/
def Keyword.ofWord? (word : String) : Option Keyword :=
  spellings.lookup word.toLower

/-- A piece of a text with variable references: plain text or the name of a variable. -/
inductive TextPart where
  | text (s : String)
  | var (name : String)
  deriving DecidableEq, Repr

/-- The marks that stand for themselves. -/
inductive Mark where
  | openParen | closeParen | openBrace | closeBrace | openBracket | closeBracket
  | comma | dot | colon | plus | minus | star | slash | percent | bang
  | equals | doubleEquals | notEquals | less | greater | lessEquals | greaterEquals
  | andAnd | orOr
  deriving DecidableEq, Repr

inductive TokenKind where
  | number (n : Float)
  | string (s : String)
  | template (parts : List TextPart)
  | ident (name : String)
  | variable (name : String)
  | keyword (k : Keyword)
  | mark (m : Mark)
  | newline
  | eof
  deriving DecidableEq

structure Token where
  kind : TokenKind
  lexeme : String
  pos : Position
  deriving DecidableEq

namespace Token

/-- The column after the last character, counted as if the token stayed on its line. -/
def endColumn (t : Token) : Nat := t.pos.column + t.lexeme.length

/-- Does `b` start exactly where `a` ends? -/
def flush (a b : Token) : Bool := a.pos.line == b.pos.line && a.endColumn == b.pos.column

/-- One line about a token: its place, its class and its text. -/
def describe (t : Token) : String :=
  let labelled (label : String) := s!"{t.pos.text} {label} {t.lexeme}"
  match t.kind with
  | .number _ => labelled "number"
  | .string _ => labelled "string"
  | .template _ => labelled "template"
  | .ident _ => labelled "identifier"
  | .variable _ => labelled "variable"
  | .keyword _ => labelled "keyword"
  | .mark _ => labelled "punct"
  | .newline => s!"{t.pos.text} newline"
  | .eof => s!"{t.pos.text} end of input"

end Token

end DeskScript
