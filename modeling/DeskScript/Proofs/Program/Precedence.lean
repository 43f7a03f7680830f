import DeskScript.Proofs.Program.Formed

/-!
# Precedence

All expressions of a program read from tokens, at any depth of its blocks, are
shaped by the precedence of their operators, and the operator of a binary
expression stands between the tokens of its operands:

    parse ts = .ok b → e ∈ b.nodes → e.Shaped ∧ e.InOrder (Cursor.ended ts)
-/

namespace DeskScript

/-- In a program that was read, all expressions are shaped by precedence, and all operators stand
between the tokens of their operands. -/
theorem parse_shaped {ts : List Token} {b : Block} (h : parse ts = .ok b) {e : Expr}
    (he : e ∈ b.nodes) : e.Shaped ∧ e.InOrder (Cursor.ended ts) := by
  obtain ⟨x, hx, he⟩ := List.mem_flatMap.mp he
  obtain ⟨q, hq, hx⟩ := Block.exprs_site hx false
  exact ((formed_of_parse h false q hq).exprs x hx).nodes e he

/-- The tokens of `func f { print $a - $b * $c - $d }`, all at one place. -/
def differenceTokens : List Token :=
  [.keyword .func, .ident "f", .mark .openBrace, .keyword .print, .variable "a", .mark .minus,
    .variable "b", .mark .star, .variable "c", .mark .minus, .variable "d",
    .mark .closeBrace].map fun k => ⟨k, "", .start⟩

/-- `($a - ($b * $c)) - $d`. -/
def difference : Expr :=
  .binary .start .sub
    (.binary .start .sub (.var .start "a") (.binary .start .mul (.var .start "b") (.var .start "c")))
    (.var .start "d")

theorem parse_shaped_difference :
    let b : Block := .mk .start [.define .start "f" [] (.mk .start [.print .start difference])]
    parse differenceTokens = .ok b ∧ difference ∈ b.nodes ∧ difference.Shaped ∧
      difference.InOrder (Cursor.ended differenceTokens) := by
  intro b
  have hparse : parse differenceTokens = .ok b := by rfl
  have hmem : difference ∈ b.nodes := by
    refine List.mem_flatMap.mpr ⟨difference, ?_, Expr.mem_nodes.mpr (.inl rfl)⟩
    -- the printed expression of the only statement of the function's body
    have hbody : difference ∈ (Block.mk .start [.print .start difference]).exprs :=
      Block.mem_exprs.mpr ⟨_, List.mem_singleton_self _, .inl (List.mem_singleton_self _)⟩
    exact Block.mem_exprs.mpr ⟨_, List.mem_singleton_self _, .inr ⟨_, List.mem_singleton_self _, hbody⟩⟩
  exact ⟨hparse, hmem, parse_shaped hparse hmem⟩

end DeskScript
