import DeskScript.Token
import DeskScript.Verb

/-!
Program trees. Every node carries the place it was read from. A program is a
block of statements.
-/

namespace DeskScript

inductive BinaryOp where
  | or | and | eq | ne | lt | gt | le | ge | add | sub | mul | div | mod
  deriving DecidableEq, Repr

/-- How tightly an operator binds; a larger level binds tighter. -/
def BinaryOp.level : BinaryOp → Nat
  | or => 0
  | and => 1
  | eq | ne => 2
  | lt | gt | le | ge => 3
  | add | sub => 4
  | mul | div | mod => 5

def BinaryOp.symbol : BinaryOp → String
  | or => "||"
  | and => "&&"
  | eq => "=="
  | ne => "!="
  | lt => "<"
  | gt => ">"
  | le => "<="
  | ge => ">="
  | add => "+"
  | sub => "-"
  | mul => "*"
  | div => "/"
  | mod => "%"

inductive UnaryOp where
  | not | neg
  deriving DecidableEq, Repr

inductive Literal where
  | null
  | bool (b : Bool)
  | number (n : Float)
  | string (s : String)
  deriving DecidableEq

inductive Expr where
  | literal (pos : Position) (value : Literal)
  | var (pos : Position) (name : String)
  | binary (pos : Position) (op : BinaryOp) (left right : Expr)
  | unary (pos : Position) (op : UnaryOp) (operand : Expr)
  | call (pos : Position) (name : String) (args : List Expr)
  | array (pos : Position) (items : List Expr)
  | object (pos : Position) (fields : List (String × Expr))
  | member (pos : Position) (object : Expr) (property : String)
  | index (pos : Position) (object index : Expr)
  | group (pos : Position) (inner : Expr)
  | template (pos : Position) (parts : List TextPart)

namespace Expr

def pos : Expr → Position
  | literal p _ | var p _ | binary p _ _ _ | unary p _ _ | call p _ _ | array p _ | object p _
  | member p _ _ | index p _ _ | group p _ | template p _ => p

end Expr

/-- One step of the path in front of `=`. -/
inductive Accessor where
  | member (name : String)
  | index (key : Expr)

mutual

inductive Stmt where
  | block (pos : Position) (body : Block)
  | set (pos : Position) (name : String) (path : List Accessor) (value : Expr)
  | print (pos : Position) (value : Expr)
  | branch (pos : Position) (condition : Expr) (yes : Block) (no : Option Block)
  | loop (pos : Position) (count : Expr) (body : Block)
  | while_ (pos : Position) (condition : Expr) (body : Block)
  | foreach (pos : Position) (name : String) (collection : Expr) (body : Block)
  | break_ (pos : Position)
  | continue_ (pos : Position)
  | return_ (pos : Position) (value : Option Expr)
  | define (pos : Position) (name : String) (params : List String) (body : Block)
  | call (pos : Position) (name : String) (args : List Expr)
  | attempt (pos : Position) (body : Block) (name : String) (handler : Block)
  | throw (pos : Position) (value : Expr)
  | on (pos : Position) (event : String) (body : Block)
  | emit (pos : Position) (event : String) (payload : Option Expr)
  | host (pos : Position) (verb : Verb) (args : List Expr) (into : Option String)

inductive Block where
  | mk (pos : Position) (body : List Stmt)

end

def Block.pos : Block → Position
  | mk p _ => p

def Block.body : Block → List Stmt
  | mk _ ss => ss

def Stmt.pos : Stmt → Position
  | block p _ | set p _ _ _ | print p _ | branch p _ _ _ | loop p _ _ | while_ p _ _
  | foreach p _ _ _ | break_ p | continue_ p | return_ p _ | define p _ _ _ | call p _ _
  | attempt p _ _ _ | throw p _ | on p _ _ | emit p _ _ | host p _ _ _ => p

end DeskScript
