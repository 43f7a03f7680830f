/-!
Places in a script. Lines and columns count from 1, and a column is a number of
characters. Reading a text moves a position past it:

    (p.past cs).past ds = p.past (cs ++ ds)                       (Position.past_append)
-/

namespace DeskScript

structure Position where
  line : Nat
  column : Nat
  deriving DecidableEq, Repr, Inhabited

namespace Position

def start : Position := ⟨1, 1⟩

/-- The place after one character: a line feed opens a line. -/
def next (p : Position) (c : Char) : Position :=
  if c = '\n' then ⟨p.line + 1, 1⟩ else ⟨p.line, p.column + 1⟩

/-- The place after a text. -/
def past (p : Position) (cs : List Char) : Position := cs.foldl next p

/-- The form `line:column`. -/
def text (p : Position) : String := s!"{p.line}:{p.column}"

@[simp] theorem past_nil (p : Position) : p.past [] = p := rfl

@[simp] theorem past_cons (p : Position) (c : Char) (cs : List Char) :
    p.past (c :: cs) = (p.next c).past cs := rfl

theorem past_append (p : Position) (cs ds : List Char) :
    p.past (cs ++ ds) = (p.past cs).past ds := by
  simp [past]

end Position

end DeskScript
