import DeskScript.Program.Sentence

/-!
# The shape of expressions

Every expression stands for itself, without what was needed to write it, so its
parts must fit into their places: an operand of an operator binds at least as
tightly, and the right one more tightly, since chains group to the left. `Shaped`
says so for one node, and `nodes` has all nodes at any depth, in expressions and
in blocks:

    e.nodes = e :: e.children.flatMap nodes                                (nodes_eq)
-/

namespace DeskScript

namespace Expr

/-! ## Parts -/

/-- The operator of a binary expression. -/
def binaryOp? : Expr → Option BinaryOp
  | binary _ op _ _ => some op
  | _ => none

/-- The operator of a unary expression. -/
def unaryOp? : Expr → Option UnaryOp
  | unary _ op _ => some op
  | _ => none

/-- The expressions right inside an expression. -/
def children : Expr → List Expr
  | binary _ _ l r => [l, r]
  | unary _ _ e | member _ e _ | group _ e => [e]
  | index _ e i => [e, i]
  | call _ _ args | array _ args => args
  | object _ fields => fields.map (·.2)
  | literal _ _ | var _ _ | template _ _ => []

theorem sizeOf_child {e x : Expr} (h : x ∈ e.children) : sizeOf x < sizeOf e := by
  cases e with
  | call pos name args =>
    have := List.sizeOf_lt_of_mem (show x ∈ args from h)
    simp only [call.sizeOf_spec]
    omega
  | array pos items =>
    have := List.sizeOf_lt_of_mem (show x ∈ items from h)
    simp only [array.sizeOf_spec]
    omega
  | object pos fields =>
    obtain ⟨p, hp, rfl⟩ := List.mem_map.mp h
    have := List.sizeOf_lt_of_mem hp
    have : sizeOf p = 1 + sizeOf p.1 + sizeOf p.2 := rfl
    simp only [object.sizeOf_spec]
    omega
  | _ =>
    simp only [children, List.mem_cons, List.not_mem_nil, or_false] at h
    try rcases h with rfl | rfl
    all_goals simp <;> omega

/-- Induction on an expression along the expressions right inside it. -/
theorem induction {P : Expr → Prop} (h : ∀ e, (∀ x ∈ e.children, P x) → P e) (e : Expr) : P e :=
  h e fun x _ => induction h x
termination_by sizeOf e
decreasing_by exact sizeOf_child ‹_›

/-- The expression and all expressions inside it. -/
def nodes (e : Expr) : List Expr := e :: e.children.attach.flatMap fun x => nodes x.1
termination_by sizeOf e
decreasing_by exact sizeOf_child x.2

theorem nodes_eq (e : Expr) : e.nodes = e :: e.children.flatMap nodes := by
  rw [nodes]
  congr 1
  exact List.flatMap_subtype (fun _ _ => rfl) |>.trans (by simp)

theorem mem_nodes {e n : Expr} : n ∈ e.nodes ↔ n = e ∨ ∃ x ∈ e.children, n ∈ x.nodes := by
  rw [nodes_eq, List.mem_cons, List.mem_flatMap]

/-! ## Shape -/

/-- The parts of an expression bind tightly enough for their places. -/
def Shaped : Expr → Prop
  | binary _ op l r =>
    (∀ o ∈ l.binaryOp?, op.level ≤ o.level) ∧ ∀ o ∈ r.binaryOp?, op.level < o.level
  | unary _ _ e => e.binaryOp? = none
  | member _ e _ | index _ e _ => e.binaryOp? = none ∧ e.unaryOp? = none
  | _ => True

instance : (e : Expr) → Decidable e.Shaped
  | binary _ _ _ _ => inferInstanceAs (Decidable (_ ∧ _))
  | unary _ _ _ => inferInstanceAs (Decidable (_ = _))
  | member _ _ _ | index _ _ _ => inferInstanceAs (Decidable (_ ∧ _))
  | literal _ _ | var _ _ | call _ _ _ | array _ _ | object _ _ | group _ _ | template _ _ =>
    inferInstanceAs (Decidable True)

/-- All nodes of an expression are shaped. -/
def WellShaped (e : Expr) : Prop := ∀ n ∈ e.nodes, n.Shaped

instance (e : Expr) : Decidable e.WellShaped :=
  inferInstanceAs (Decidable (∀ n ∈ e.nodes, n.Shaped))

theorem wellShaped_iff {e : Expr} :
    e.WellShaped ↔ e.Shaped ∧ ∀ x ∈ e.children, x.WellShaped := by
  unfold WellShaped
  rw [nodes_eq, List.forall_mem_cons]
  refine and_congr_right fun _ => ⟨fun h x hx n hn => ?_, fun h n hn => ?_⟩
  · exact h n (List.mem_flatMap.mpr ⟨x, hx, hn⟩)
  · obtain ⟨x, hx, hn⟩ := List.mem_flatMap.mp hn
    exact h x hx n hn

end Expr

/-! ## Expressions in statements -/

/-- The expression of one step of a path. -/
def Accessor.key? : Accessor → Option Expr
  | member _ => none
  | index e => some e

namespace Stmt

/-- The expressions right inside a statement. -/
def exprs : Stmt → List Expr
  | set _ _ path e => e :: path.filterMap Accessor.key?
  | print _ e | branch _ e _ _ | loop _ e _ | while_ _ e _ | foreach _ _ e _ | throw _ e => [e]
  | return_ _ e | emit _ _ e => e.toList
  | call _ _ args | host _ _ args _ => args
  | block _ _ | break_ _ | continue_ _ | define _ _ _ _ | attempt _ _ _ _ | on _ _ _ => []

/-- The blocks right inside a statement. -/
def blocks : Stmt → List Block
  | block _ b | loop _ _ b | while_ _ _ b | foreach _ _ _ b | define _ _ _ b | on _ _ b => [b]
  | branch _ _ yes no => yes :: no.toList
  | attempt _ b _ handler => [b, handler]
  | _ => []

theorem sizeOf_block {s : Stmt} {b : Block} (h : b ∈ s.blocks) : sizeOf b < sizeOf s := by
  cases s with
  | branch pos e yes no =>
    rcases List.mem_cons.mp h with rfl | h
    · simp
      omega
    · rw [Option.mem_toList.mp h]
      simp
      omega
  | _ =>
    simp only [blocks, List.mem_cons, List.not_mem_nil, or_false] at h
    try rcases h with rfl | rfl
    all_goals simp <;> omega

end Stmt

namespace Block

theorem sizeOf_stmt {b : Block} {s : Stmt} (h : s ∈ b.body) : sizeOf s < sizeOf b := by
  cases b with
  | mk pos body =>
    have := List.sizeOf_lt_of_mem (show s ∈ body from h)
    simp only [mk.sizeOf_spec]
    omega

/-- The expressions of the statements of a block, at any depth. -/
def exprs (b : Block) : List Expr :=
  b.body.attach.flatMap fun s => s.1.exprs ++ s.1.blocks.attach.flatMap fun b => exprs b.1
termination_by sizeOf b
decreasing_by
  have h1 := sizeOf_stmt s.2
  have h2 := Stmt.sizeOf_block b.2
  omega

theorem mem_exprs {b : Block} {e : Expr} :
    e ∈ b.exprs ↔ ∃ s ∈ b.body, e ∈ s.exprs ∨ ∃ c ∈ s.blocks, e ∈ c.exprs := by
  rw [exprs]
  simp only [List.mem_flatMap, List.mem_append, List.mem_attach, true_and, Subtype.exists]
  constructor
  · rintro ⟨s, hs, he | ⟨c, hc, he⟩⟩
    · exact ⟨s, hs, .inl he⟩
    · exact ⟨s, hs, .inr ⟨c, hc, he⟩⟩
  · rintro ⟨s, hs, he | ⟨c, hc, he⟩⟩
    · exact ⟨s, hs, .inl he⟩
    · exact ⟨s, hs, .inr ⟨c, hc, he⟩⟩

/-- All expression nodes of a block, at any depth. -/
def nodes (b : Block) : List Expr := b.exprs.flatMap Expr.nodes

end Block

end DeskScript
