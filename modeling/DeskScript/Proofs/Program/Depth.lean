import DeskScript.Proofs.Program.Shape

/-!
# Depth of programs

The depth of a tree is the greatest number of steps inwards on a way from its root:
into a block, an `else if`, the expression of a statement, or an inner expression.
Two kinds of steps are not counted by the readers, and `Uncounted` names them: into
the arguments of a call written without parentheses, and to a text after `print` that
is not quoted.

    e.depth u ≤ k ↔ ∀ p ∈ e.parts u, p.1 + p.2.depth u ≤ k                 (depth_le)
-/

namespace DeskScript

/-! ## Depth -/

/-- Steps that do not count: into the arguments of the calls at some places, and to the texts that
are printed at others. -/
structure Uncounted where
  calls : List Position
  texts : List Position

/-- All steps count. -/
def Uncounted.none : Uncounted := ⟨[], []⟩

/-- One step into an argument of the call at `pos`. -/
def Uncounted.call (u : Uncounted) (pos : Position) : Nat := if pos ∈ u.calls then 0 else 1

theorem Uncounted.call_le (u : Uncounted) (pos : Position) : u.call pos ≤ 1 := by
  unfold call
  split <;> omega

theorem Uncounted.call_none (pos : Position) : Uncounted.none.call pos = 1 := rfl

/-- The greatest number of a list. -/
def deepest (l : List Nat) : Nat := l.foldr max 0

theorem deepest_le {l : List Nat} {k : Nat} : deepest l ≤ k ↔ ∀ x ∈ l, x ≤ k := by
  induction l with
  | nil => simp [deepest]
  | cons x l ih =>
    have hcons : deepest (x :: l) = max x (deepest l) := rfl
    rw [hcons, Nat.max_le, ih, List.forall_mem_cons]

namespace Expr

/-- The expressions right inside an expression, with the number of steps to them. -/
def parts (u : Uncounted) : Expr → List (Nat × Expr)
  | binary _ _ l r => [(0, l), (0, r)]
  | unary _ _ e | group _ e => [(1, e)]
  | member _ e _ => [(0, e)]
  | index _ e i => [(0, e), (1, i)]
  | call pos _ args => args.map (u.call pos, ·)
  | array _ items => items.map (1, ·)
  | object _ fields => fields.map (1, ·.2)
  | literal _ _ | var _ _ | template _ _ => []

theorem mem_children_of_part {u : Uncounted} {e : Expr} {p : Nat × Expr} (h : p ∈ e.parts u) :
    p.2 ∈ e.children := by
  cases e <;>
    simp only [parts, children, List.mem_map, List.mem_cons, List.not_mem_nil, or_false] at h ⊢
  case call => obtain ⟨a, ha, rfl⟩ := h; exact ha
  case array => obtain ⟨a, ha, rfl⟩ := h; exact ha
  case object => obtain ⟨a, ha, rfl⟩ := h; exact ⟨a, ha, rfl⟩
  case binary => rcases h with rfl | rfl <;> simp
  case index => rcases h with rfl | rfl <;> simp
  all_goals rw [h]

/-- How deep expressions stand inside the expression. -/
def depth (u : Uncounted) (e : Expr) : Nat :=
  deepest ((e.parts u).attach.map fun p => p.1.1 + depth u p.1.2)
termination_by sizeOf e
decreasing_by exact sizeOf_child (mem_children_of_part p.2)

theorem depth_le {u : Uncounted} {e : Expr} {k : Nat} :
    e.depth u ≤ k ↔ ∀ p ∈ e.parts u, p.1 + p.2.depth u ≤ k := by
  rw [depth, deepest_le]
  simp only [List.mem_map, List.mem_attach, true_and, Subtype.exists]
  constructor
  · exact fun h p hp => h _ ⟨p, hp, rfl⟩
  · rintro h _ ⟨p, hp, rfl⟩
    exact h p hp

end Expr

namespace Stmt

/-- A text, as `print` takes it for what it cannot read otherwise. -/
def isText : Expr → Bool
  | .literal _ _ | .template _ _ => true
  | _ => false

/-- One step to what is printed at `pos`. -/
def printStep (u : Uncounted) (pos : Position) (e : Expr) : Nat :=
  if pos ∈ u.texts ∧ isText e = true then 0 else 1

/-- The expressions right inside a statement, with the number of steps to them. -/
def parts (u : Uncounted) : Stmt → List (Nat × Expr)
  | print pos e => [(printStep u pos e, e)]
  | call pos _ args => args.map (u.call pos, ·)
  | s => s.exprs.map (1, ·)

end Stmt

/-- How deep blocks and expressions stand inside the block. -/
def Block.depth (u : Uncounted) (b : Block) : Nat :=
  deepest (b.body.attach.map fun s =>
    max (deepest ((s.1.parts u).map fun p => p.1 + p.2.depth u))
      (deepest (s.1.blocks.attach.map fun b => 1 + depth u b.1)))
termination_by sizeOf b
decreasing_by
  have h1 := Block.sizeOf_stmt s.2
  have h2 := Stmt.sizeOf_block b.2
  omega

/-- How deep blocks and expressions stand inside the statement. -/
def Stmt.depth (u : Uncounted) (s : Stmt) : Nat :=
  max (deepest ((s.parts u).map fun p => p.1 + p.2.depth u))
    (deepest (s.blocks.map fun b => 1 + b.depth u))

theorem Block.depth_le {u : Uncounted} {b : Block} {k : Nat} :
    b.depth u ≤ k ↔ ∀ s ∈ b.body, s.depth u ≤ k := by
  have hstmt (s : Stmt) : s.depth u = max (deepest ((s.parts u).map fun p => p.1 + p.2.depth u))
      (deepest (s.blocks.attach.map fun b => 1 + depth u b.1)) := by
    rw [Stmt.depth, List.attach_map_val (f := fun b => 1 + depth u b)]
  rw [depth, deepest_le]
  simp only [← hstmt, List.forall_mem_map, List.mem_attach, forall_const, Subtype.forall]

theorem Stmt.depth_le {u : Uncounted} {s : Stmt} {k : Nat} :
    s.depth u ≤ k ↔
      (∀ p ∈ s.parts u, p.1 + p.2.depth u ≤ k) ∧ ∀ b ∈ s.blocks, 1 + b.depth u ≤ k := by
  rw [depth, Nat.max_le, deepest_le, deepest_le]
  simp only [List.forall_mem_map]

/-! ## What does not count -/

/-- The places of the tokens from which on the rest of the list is as `p` says. -/
def placesWhere (p : List Token → Bool) : List Token → List Position
  | [] => []
  | t :: ts => if p (t :: ts) then t.pos :: placesWhere p ts else placesWhere p ts

theorem mem_placesWhere {p : List Token → Bool} {ts rest : List Token} {t : Token}
    (hts : t :: rest <:+ ts) (hp : p (t :: rest) = true) : t.pos ∈ placesWhere p ts := by
  induction ts with
  | nil => simp at hts
  | cons x ts ih =>
    rw [placesWhere]
    rcases List.suffix_cons_iff.mp hts with heq | hts
    · rw [← heq, if_pos hp]
      obtain ⟨rfl, -⟩ := List.cons.inj heq
      exact List.mem_cons_self
    · split
      · exact List.mem_cons_of_mem _ (ih hts)
      · exact ih hts

/-- The word `call` with a name after it and no `(` flush with the name. -/
def bareCall : List Token → Bool
  | t :: f :: a :: _ =>
    t.kind = .keyword .call ∧ ¬ (a.kind = .mark .openParen ∧ f.flush a = true)
  | _ => false

/-- The word `print` with nothing after it that can only be an expression. -/
def freePrint : List Token → Bool
  | t :: a :: _ => t.kind = .keyword .print ∧ Reader.startsQuoted a.kind = false
  | _ => false

/-- The steps that do not count in a list of tokens. -/
def uncounted (ts : List Token) : Uncounted where
  calls := placesWhere bareCall ts
  texts := placesWhere freePrint ts

end DeskScript
