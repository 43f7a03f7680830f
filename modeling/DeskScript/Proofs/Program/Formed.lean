import DeskScript.Proofs.Program.Bare
import DeskScript.Proofs.Program.Sites

/-!
# How programs are formed

What is read as a program is formed by its tokens. Every statement of it, at any depth of its
blocks, starts at a token. So do all nodes of its expressions, which are shaped by the precedence of
their operators, and an operator stands between the tokens of its operands. A host statement has as
many arguments as its verb takes, and a print statement was read from its word on (`Stmt.Own`):

    parse ts = .ok b → b.Formed (Cursor.ended ts)
    parse ts = .error e → e.pos ∈ starts (Cursor.ended ts)                      (parse_formed)

There is one lemma for each production.
-/

namespace DeskScript

/-! ## Expressions among the tokens -/

/-- The operator stands after all tokens of the left operand and before all tokens of the right
one. -/
def Expr.InOrder (ts : List Token) : Expr → Prop
  | .binary _ op l r =>
    ∃ ls t rs, ls ++ t :: rs <:+: ts ∧ Spells ls l ∧ t.kind.operator? = some op ∧ Spells rs r
  | _ => True

/-- All nodes are shaped and in order among `ts`, and start at tokens. -/
structure Expr.Formed (ts : List Token) (e : Expr) : Prop where
  nodes : ∀ n ∈ e.nodes, n.Shaped ∧ n.InOrder ts
  starts : e.StartsIn (starts ts)

theorem Spelled.formed {us ts : List Token} {k : Nat} {e : Expr} (h : Spelled us k e)
    (hus : us <:+: ts) : e.Formed ts where
  nodes n hn := by
    refine ⟨h.shaped n hn, ?_⟩
    obtain ⟨vs, j, hvs, hwritten⟩ := h.written.node hn
    cases hwritten with
    | binary hl ht hr => exact ⟨_, _, _, hvs.trans hus, ⟨_, hl⟩, ht, ⟨_, hr⟩⟩
    | _ => trivial
  starts n hn := by
    obtain ⟨vs, j, hvs, hwritten⟩ := h.written.node hn
    obtain ⟨t, ws, rfl, hpos⟩ := hwritten.head
    exact ⟨t, (hvs.trans hus).subset List.mem_cons_self, hpos⟩

theorem Expr.formed_template {ts : List Token} {pos : Position} (hpos : pos ∈ DeskScript.starts ts)
    (parts : List TextPart) : (Expr.template pos parts).Formed ts where
  nodes := by simp [nodes_eq, children, Shaped, InOrder]
  starts := startsIn_iff.mpr ⟨hpos, List.forall_mem_nil _⟩

theorem Expr.formed_literal {ts : List Token} {pos : Position} (hpos : pos ∈ DeskScript.starts ts)
    (v : Literal) : (Expr.literal pos v).Formed ts where
  nodes := by simp [nodes_eq, children, Shaped, InOrder]
  starts := startsIn_iff.mpr ⟨hpos, List.forall_mem_nil _⟩

/-! ## Statements among the tokens -/

/-- A host statement with as many arguments as its verb takes, and with a variable for the answer
exactly if there is one. -/
def Stmt.Complete : Stmt → Prop
  | host _ verb args into =>
    (verb.arity.1 ≤ args.length ∧ args.length ≤ verb.arity.2) ∧ into.isSome = verb.answers
  | _ => True

/-- What a print statement prints is what is read after its word. -/
def Stmt.Printed (ts : List Token) : Stmt → Prop
  | print pos e =>
    ∃ (n depth : Nat) (c c' : Cursor), c.Within ts ∧ c.here.kind = .keyword .print ∧
      c.here.pos = pos ∧ Reader.printed (Reader.expression n depth) pos c.next = .ok (e, c')
  | _ => True

/-- How a statement is formed, apart from its blocks. -/
structure Stmt.Own (ts : List Token) (s : Stmt) : Prop where
  pos : s.pos ∈ starts ts
  exprs : ∀ e ∈ s.exprs, e.Formed ts
  complete : s.Complete
  printed : s.Printed ts

/-- All statements of a block, at any depth, are formed by `ts`. -/
def Block.Formed (ts : List Token) (b : Block) : Prop :=
  ∀ looped, ∀ q ∈ b.sites looped, q.2.Own ts

structure Stmt.Formed (ts : List Token) (s : Stmt) : Prop extends s.Own ts where
  blocks : ∀ b ∈ s.blocks, b.Formed ts

theorem Stmt.Own.places {ts : List Token} {s : Stmt} (h : s.Own ts) :
    ∀ pos ∈ s.places, pos ∈ starts ts := by
  intro pos hpos
  rcases List.mem_cons.mp hpos with rfl | hpos
  · exact h.pos
  · obtain ⟨e, he, hpos⟩ := List.mem_flatMap.mp hpos
    obtain ⟨n, hn, rfl⟩ := List.mem_map.mp hpos
    exact (h.exprs e he).starts n hn

theorem Block.formed_mk {ts : List Token} {pos : Position} {ss : List Stmt}
    (h : ∀ s ∈ ss, s.Formed ts) : (Block.mk pos ss).Formed ts := by
  intro looped q hq
  obtain ⟨s, hs, rfl | ⟨p, hp, hq⟩⟩ := mem_sites.mp hq
  · exact (h s hs).toOwn
  · exact (h s hs).blocks p.2 (s.bodies_blocks looped ▸ List.mem_map_of_mem hp) p.1 q hq

namespace Reader

variable {ts : List Token}

/-! ## Names -/

theorem stays_variableName? : variableName?.Stays ts :=
  Yields.gives variableName?_yields fun _ _ _ _ _ => trivial

theorem stays_variableName (w : Wanted) : (variableName w).Stays ts :=
  Yields.gives (variableName_yields w) fun _ _ _ _ _ => trivial

theorem stays_propertyName : propertyName.Stays ts :=
  Yields.gives propertyName_yields fun _ _ _ _ _ => trivial

theorem stays_functionName : functionName.Stays ts := by
  refine gives_peek.bind fun t _ => ?_
  split
  · exact stays_advance.bind fun _ => gives_pure trivial
  · exact gives_want _

theorem stays_eventName : eventName.Stays ts := by
  refine gives_peek.bind fun t _ => ?_
  split
  · exact stays_advance.bind fun _ => gives_pure trivial
  · exact stays_advance.bind fun _ => gives_pure trivial
  · exact stays_advance.bind fun _ => gives_pure trivial
  · exact gives_want _

theorem stays_parenParameters (n : Nat) (read : List String) :
    (parenParameters n read).Stays ts := by
  induction n generalizing read with
  | zero => exact gives_fail _
  | succ n ih =>
    refine (stays_isAtMark _).bind fun _ => gives_ite (fun _ => gives_pure trivial) fun _ => ?_
    refine (stays_variableName _).bind fun x => (stays_accept _).bind fun _ => ?_
    exact gives_ite (fun _ => ih _) fun _ => gives_pure trivial

theorem stays_bareParameters (n : Nat) (read : List String) : (bareParameters n read).Stays ts := by
  induction n generalizing read with
  | zero => exact gives_fail _
  | succ n ih =>
    refine stays_variableName?.bind fun o => ?_
    cases o with
    | some x => exact (stays_accept _).bind fun _ => ih _
    | none => exact gives_pure trivial

theorem stays_parameters (n : Nat) : (parameters n).Stays ts := by
  refine (stays_accept _).bind fun _ => gives_ite (fun _ => ?_) fun _ => stays_bareParameters n []
  exact (stays_parenParameters n []).bind fun _ => (stays_expect _).bind fun _ => gives_pure trivial

/-- There is a variable for the answer exactly if there is an answer. -/
theorem answerVariable_gives (verb : Verb) :
    (answerVariable verb).Gives ts (·.isSome = verb.answers) := by
  unfold answerVariable
  cases hanswers : verb.answers with
  | true =>
    refine (stays_isAtWord _).bind fun _ => gives_ite (fun _ => ?_) fun _ => gives_pure (by simp)
    exact stays_advance.bind fun _ => (stays_variableName _).bind fun _ => gives_pure rfl
  | false =>
    refine (stays_isAtWord _).bind fun _ => gives_ite (fun _ => ?_) fun _ => gives_pure (by simp)
    exact Gives.bind (gives_fail _) fun _ (h : False) => h.elim

theorem stays_endStatement : endStatement.Stays ts := by
  refine gives_get.bind fun c _ => ?_
  split
  · exact stays_skipNewlines
  · exact gives_pure trivial
  · exact gives_pure trivial
  · exact gives_ite (fun _ => gives_pure trivial) fun _ => gives_want _

theorem stays_atBlockEnd {opened : Position} (hopened : opened ∈ starts ts) :
    (atBlockEnd opened).Stays ts :=
  (stays_isAtMark _).bind fun _ => gives_ite (fun _ => gives_pure trivial) fun _ =>
    (stays_isAt _).bind fun _ => gives_ite (fun _ => gives_failAt _ hopened) fun _ =>
      gives_pure trivial

/-! ## Expressions in statements -/

theorem parenArgs_gives (n : Nat) {expr : Reader Expr} (h : ∀ c, expr.Yields ts c Spelled) :
    (parenArgs n expr).Gives ts fun args => ∀ e ∈ args, e.Formed ts := by
  refine Yields.gives (parenArgs_yields h n) ?_
  rintro _ k args hts ⟨a, us, b, rfl, -, -, hlisted⟩ e he
  obtain ⟨vs, j, hvs, hspelled⟩ := hlisted.mem he
  exact hspelled.formed ((hvs.trans ⟨[a], [b], by simp⟩).trans hts)

theorem callTail_gives (n depth : Nat) {inner : Inner} (hinner : inner.Yields ts) :
    (callTail n inner depth).Gives ts fun p => ∀ e ∈ p.2, e.Formed ts := by
  refine Yields.gives (callTail_yields (hinner.expression depth) (hinner.operand depth) n) ?_
  rintro _ k p hts ⟨f, us, rfl, -, ⟨a, vs, b, rfl, -, -, hlisted⟩ | hlisted⟩ e he
  · obtain ⟨ws, j, hws, hspelled⟩ := hlisted.mem he
    exact hspelled.formed ((hws.trans ⟨[f, a], [b], by simp⟩).trans hts)
  · obtain ⟨ws, j, hws, hspelled⟩ := hlisted.mem he
    exact hspelled.formed ((hws.trans (List.suffix_cons _ _).isInfix).trans hts)

theorem expression_gives (n depth : Nat) : (expression n depth).Gives ts (Expr.Formed ts) :=
  Yields.gives (expression_yields n depth) fun _ _ _ hus h => h.formed hus

section
variable {expr : Reader Expr} (hexpr : expr.Gives ts (Expr.Formed ts)) {pos : Position}
  (hpos : pos ∈ starts ts)

include hpos in
theorem plainText_gives : (plainText pos).Gives ts (Expr.Formed ts) :=
  gives_get.bind fun _ hc => (stays_set (Cursor.skipWhile_within hc _)).bind fun _ =>
    gives_pure (Expr.formed_template hpos _)

include hexpr

theorem wholeExpression?_gives :
    (wholeExpression? expr).Gives ts fun o => ∀ e ∈ o, e.Formed ts := by
  intro c hc
  unfold GivesAt
  rcases wholeExpression?_cases expr c with hnone | ⟨e, c', hrun, -, -, hsome⟩
  · rw [hnone]
    exact ⟨hc, by simp⟩
  · rw [hsome]
    obtain ⟨hc', hformed⟩ := (hexpr c hc).ok hrun
    exact ⟨hc', by simpa using hformed⟩

include hpos in
theorem printed_gives : (printed expr pos).Gives ts (Expr.Formed ts) := by
  refine gives_get.bind fun c _ => gives_ite (fun _ => ?_) fun _ =>
    gives_ite (fun _ => hexpr) fun _ => gives_ite (fun _ => ?_) fun _ => plainText_gives hpos
  · exact gives_pure (Expr.formed_literal hpos _)
  · refine (wholeExpression?_gives hexpr).bind fun o ho => ?_
    cases o with
    | some e => exact gives_pure (ho e rfl)
    | none => exact plainText_gives hpos

theorem accessors_gives (n : Nat) {read : List Accessor}
    (hread : ∀ e ∈ read.filterMap Accessor.key?, e.Formed ts) :
    (accessors expr n read).Gives ts fun path =>
      ∀ e ∈ path.filterMap Accessor.key?, e.Formed ts := by
  induction n generalizing read with
  | zero => exact gives_fail _
  | succ n ih =>
    refine (stays_accept _).bind fun _ => gives_ite (fun _ => ?_) fun _ => ?_
    · exact stays_propertyName.bind fun x => ih hread
    · refine (stays_accept _).bind fun _ => gives_ite (fun _ => ?_) fun _ => ?_
      · refine hexpr.bind fun e he => (stays_expect _).bind fun _ => ih ?_
        exact List.forall_mem_cons.mpr ⟨he, hread⟩
      · exact gives_pure (by simpa using hread)

theorem hostArgs_gives (n : Nat) {read : List Expr} (hread : ∀ e ∈ read, e.Formed ts) :
    (hostArgs expr n read).Gives ts fun args => ∀ e ∈ args, e.Formed ts := by
  induction n generalizing read with
  | zero => exact gives_fail _
  | succ n ih =>
    refine stays_atStatementEnd.bind fun _ => (stays_isAtWord _).bind fun _ =>
      gives_ite (fun _ => gives_pure (by simpa using hread)) fun _ => ?_
    refine hexpr.bind fun e he => (stays_accept _).bind fun _ => ih ?_
    exact List.forall_mem_cons.mpr ⟨he, hread⟩

theorem optionalExpression_gives :
    (optionalExpression expr).Gives ts fun o => ∀ e ∈ o, e.Formed ts :=
  stays_atStatementEnd.bind fun _ => gives_ite (fun _ => gives_pure (by simp)) fun _ =>
    hexpr.bind fun e he => gives_pure (by simpa using he)

/-! ## Simple statements -/

include hpos

theorem assignment_gives (n : Nat) : (assignment n expr pos).Gives ts (Stmt.Formed ts) := by
  refine (stays_variableName _).bind fun x => (accessors_gives hexpr n (by simp)).bind
    fun path hpath => (stays_expect _).bind fun _ => hexpr.bind fun e he => gives_pure ?_
  exact ⟨⟨hpos, List.forall_mem_cons.mpr ⟨he, hpath⟩, trivial, trivial⟩, List.forall_mem_nil _⟩

theorem hostStatement_gives (n : Nat) (verb : Verb) :
    (hostStatement n expr verb pos).Gives ts (Stmt.Formed ts) := by
  refine (hostArgs_gives hexpr n (by simp)).bind fun args hargs => ?_
  refine (answerVariable_gives verb).bind fun into hinto => ?_
  rcases harity : verb.arity with ⟨least, most⟩
  refine Gives.guarded (gives_failAt _ hpos) fun hcount => gives_pure ?_
  have hcomplete : (Stmt.host pos verb args into).Complete := by
    refine ⟨?_, hinto⟩
    simpa [harity] using hcount
  exact ⟨⟨hpos, hargs, hcomplete, trivial⟩, List.forall_mem_nil _⟩

end

theorem callStatement_gives (n : Nat) {expr : Reader Expr} (h : ∀ c, expr.Yields ts c Spelled)
    {pos : Position} (hpos : pos ∈ starts ts) (name : String) :
    (callStatement n expr pos name).Gives ts (Stmt.Formed ts) := by
  refine stays_advance.bind fun _ => gives_get.bind fun c _ => ?_
  refine Gives.guarded (gives_want _) fun _ => (parenArgs_gives n h).bind fun args hargs => ?_
  exact gives_pure ⟨⟨hpos, hargs, trivial, trivial⟩, List.forall_mem_nil _⟩

/-! ## Statements with blocks -/

/-- The blocks and branches inside a statement are formed so. -/
structure Body.Forms (ts : List Token) (body : Body) : Prop where
  block : ∀ depth, (body.block depth).Gives ts (Block.Formed ts)
  branch : ∀ depth, (body.branch depth).Gives ts (Stmt.Formed ts)

section
variable {n : Nat} (hbody : (body n).Forms ts)
include hbody

theorem elseBlock_gives (depth : Nat) :
    (elseBlock (body n) depth).Gives ts fun o => ∀ b ∈ o, b.Formed ts := by
  refine gives_get.bind fun c hc => stays_skipNewlines.bind fun _ =>
    (stays_isAtWord _).bind fun _ => gives_ite (fun _ => stays_advance.bind fun t =>
      (stays_isAtWord _).bind fun _ => gives_ite (fun _ => ?_) fun _ => ?_) fun _ => ?_
  · refine (gives_nested hbody.branch _ _).bind fun s hs => gives_pure ?_
    have hformed : (Block.mk t.pos [s]).Formed ts := Block.formed_mk (by simpa using hs)
    simpa using hformed
  · exact (hbody.block depth).bind fun b hb => gives_pure (by simpa using hb)
  · exact (stays_set hc).bind fun _ => gives_pure (by simp)

theorem branchWith_gives (depth : Nat) : (branchWith (body n) depth).Gives ts (Stmt.Formed ts) := by
  refine (gives_expectWord _).bind fun t ht => (expression_gives n depth).bind fun e he =>
    (stays_isAtWord _).bind fun _ => ?_
  have hrest : (do
      let yes ← (body n).block depth
      let no ← elseBlock (body n) depth
      return .branch t.pos e yes no : Reader Stmt).Gives ts (Stmt.Formed ts) := by
    refine (hbody.block depth).bind fun yes hyes => (elseBlock_gives hbody depth).bind fun no hno =>
      gives_pure ⟨⟨ht, by simpa [Stmt.exprs] using he, trivial, trivial⟩, ?_⟩
    simpa [Stmt.blocks] using ⟨hyes, by simpa using hno⟩
  exact gives_ite (fun _ => stays_advance.bind fun _ => hrest) fun _ => hrest

section
variable {pos : Position} (hpos : pos ∈ starts ts)
include hpos

theorem foreachStatement_gives (depth : Nat) :
    (foreachStatement (body n) depth pos).Gives ts (Stmt.Formed ts) := by
  refine (stays_variableName _).bind fun x => (stays_expectWord _).bind fun _ =>
    (expression_gives n depth).bind fun e he => (hbody.block depth).bind fun b hb => gives_pure ?_
  exact ⟨⟨hpos, by simpa [Stmt.exprs] using he, trivial, trivial⟩, by simpa [Stmt.blocks] using hb⟩

theorem functionStatement_gives (depth : Nat) :
    (functionStatement n (body n) depth pos).Gives ts (Stmt.Formed ts) := by
  refine stays_functionName.bind fun x => (stays_parameters n).bind fun xs =>
    (hbody.block depth).bind fun b hb => gives_pure ?_
  exact ⟨⟨hpos, List.forall_mem_nil _, trivial, trivial⟩, by simpa [Stmt.blocks] using hb⟩

theorem attemptStatement_gives (depth : Nat) :
    (attemptStatement (body n) depth pos).Gives ts (Stmt.Formed ts) := by
  refine (hbody.block depth).bind fun tried htried => stays_skipNewlines.bind fun _ =>
    (stays_expectWord _).bind fun _ => stays_variableName?.bind fun x =>
      (hbody.block depth).bind fun b hb => gives_pure ?_
  exact ⟨⟨hpos, List.forall_mem_nil _, trivial, trivial⟩, by simpa [Stmt.blocks] using ⟨htried, hb⟩⟩

end

theorem wordStatement_gives (depth : Nat) {k : Keyword} {c : Cursor} (hc : c.Within ts)
    (hk : c.here.kind = .keyword k) :
    (wordStatement n (body n) depth c.here.pos k).GivesAt ts c (Stmt.Formed ts) := by
  have hpos := hc.here_starts
  have hexpr : (expression n depth).Gives ts (Expr.Formed ts) := expression_gives n depth
  -- what is read from the next token on
  have hgives {r : Reader Stmt} (hr : r.Gives ts (Stmt.Formed ts)) :
      (advance >>= fun _ => r).GivesAt ts c (Stmt.Formed ts) :=
    stays_advance.bind (fun _ => hr) c hc
  unfold wordStatement
  split
  · exact hgives (assignment_gives hexpr hpos n)
  · refine (gives_advance c hc).bind fun t c₁ hadvance hc₁ _ =>
      (printed_gives hexpr hpos c₁ hc₁).bind fun e c₂ hprinted hc₂ he => ?_
    obtain ⟨-, rfl⟩ := advance_ok.mp hadvance
    have hown : (Stmt.print c.here.pos e).Printed ts := ⟨n, depth, c, c₂, hc, hk, rfl, hprinted⟩
    exact gives_pure ⟨⟨hpos, by simpa [Stmt.exprs] using he, trivial, hown⟩,
      List.forall_mem_nil _⟩ c₂ hc₂
  · exact branchWith_gives hbody depth c hc
  · refine hgives (hexpr.bind fun e he => (hbody.block depth).bind fun b hb => gives_pure ?_)
    exact ⟨⟨hpos, by simpa [Stmt.exprs] using he, trivial, trivial⟩,
      by simpa [Stmt.blocks] using hb⟩
  · refine hgives (hexpr.bind fun e he => (hbody.block depth).bind fun b hb => gives_pure ?_)
    exact ⟨⟨hpos, by simpa [Stmt.exprs] using he, trivial, trivial⟩,
      by simpa [Stmt.blocks] using hb⟩
  · exact hgives (foreachStatement_gives hbody hpos depth)
  · exact hgives (gives_pure ⟨⟨hpos, List.forall_mem_nil _, trivial, trivial⟩,
      List.forall_mem_nil _⟩)
  · exact hgives (gives_pure ⟨⟨hpos, List.forall_mem_nil _, trivial, trivial⟩,
      List.forall_mem_nil _⟩)
  · refine hgives ((optionalExpression_gives hexpr).bind fun o ho => gives_pure ?_)
    exact ⟨⟨hpos, by simpa [Stmt.exprs] using ho, trivial, trivial⟩, List.forall_mem_nil _⟩
  · exact hgives (functionStatement_gives hbody hpos depth)
  · refine hgives ((callTail_gives n depth (inner_yields n)).bind fun p hp => gives_pure ?_)
    exact ⟨⟨hpos, hp, trivial, trivial⟩, List.forall_mem_nil _⟩
  · exact hgives (attemptStatement_gives hbody hpos depth)
  · refine hgives (hexpr.bind fun e he => gives_pure ?_)
    exact ⟨⟨hpos, by simpa [Stmt.exprs] using he, trivial, trivial⟩, List.forall_mem_nil _⟩
  · refine hgives (stays_eventName.bind fun _ => (hbody.block depth).bind fun b hb => gives_pure ?_)
    exact ⟨⟨hpos, List.forall_mem_nil _, trivial, trivial⟩, by simpa [Stmt.blocks] using hb⟩
  · refine hgives (stays_eventName.bind fun _ => (optionalExpression_gives hexpr).bind fun o ho =>
      gives_pure ?_)
    exact ⟨⟨hpos, by simpa [Stmt.exprs] using ho, trivial, trivial⟩, List.forall_mem_nil _⟩
  · split
    · exact hgives (hostStatement_gives hexpr hpos n _)
    · exact gives_unexpected _ c hc

theorem statement_gives (depth : Nat) :
    (statement n (body n) depth).Gives ts (Stmt.Formed ts) := by
  intro c hc
  have hpos := hc.here_starts
  refine (gives_get c hc).bind fun d c' hget _ _ => ?_
  obtain ⟨rfl, rfl⟩ := get_ok.mp hget
  simp only
  split
  · next k hk => exact wordStatement_gives hbody depth hc hk
  · exact assignment_gives (expression_gives n depth) hpos n c hc
  · exact gives_ite (fun _ => callStatement_gives n (expression_yields n depth) hpos _)
      (fun _ => gives_unexpected _) c hc
  · refine (hbody.block depth).bind (fun b hb => gives_pure ?_) c hc
    exact ⟨⟨hpos, List.forall_mem_nil _, trivial, trivial⟩, by simpa [Stmt.blocks] using hb⟩
  · exact gives_unexpected _ c hc

theorem statementsUntil_gives {stop : Reader Bool} (hstop : stop.Stays ts) (depth m : Nat)
    {read : List Stmt} (hread : ∀ s ∈ read, s.Formed ts) :
    (statementsUntil stop (statement n (body n) depth) m read).Gives ts
      fun ss => ∀ s ∈ ss, s.Formed ts := by
  induction m generalizing read with
  | zero => exact gives_fail _
  | succ m ih =>
    refine hstop.bind fun _ => gives_ite (fun _ => gives_pure (by simpa using hread)) fun _ => ?_
    refine (statement_gives hbody depth).bind fun s hs => stays_endStatement.bind fun _ => ih ?_
    exact List.forall_mem_cons.mpr ⟨hs, hread⟩

theorem blockWith_gives (depth : Nat) :
    (blockWith n (body n) depth).Gives ts (Block.Formed ts) := by
  refine stays_skipNewlines.bind fun _ => (gives_expect _).bind fun t ht =>
    stays_skipNewlines.bind fun _ => ?_
  refine (statementsUntil_gives hbody (stays_atBlockEnd ht) depth n (by simp)).bind fun ss hss => ?_
  exact stays_advance.bind fun _ => gives_pure (Block.formed_mk hss)

end

/-! ## The grammar -/

theorem body_forms (n : Nat) : (body n).Forms ts := by
  induction n with
  | zero => exact ⟨fun _ => gives_fail _, fun _ => gives_fail _⟩
  | succ n ih => exact ⟨gives_nested (blockWith_gives ih) .block, branchWith_gives ih⟩

theorem program_gives (n : Nat) : (program n).Gives ts (Block.Formed ts) := by
  refine gives_peek.bind fun t _ => stays_skipNewlines.bind fun _ => ?_
  refine (statementsUntil_gives (body_forms n) (stays_isAt _) 0 n (by simp)).bind fun ss hss => ?_
  exact gives_pure (Block.formed_mk hss)

end Reader

/-- **Programs are formed by their tokens,** and errors are at tokens. -/
theorem parse_formed (ts : List Token) :
    match parse ts with
    | .ok b => b.Formed (Cursor.ended ts)
    | .error e => e.pos ∈ starts (Cursor.ended ts) := by
  have h := Reader.program_gives ((Cursor.ofTokens ts).ahead.length + 2) _
    (Cursor.within_ofTokens ts)
  simp only [parse]
  cases hrun : Reader.program ((Cursor.ofTokens ts).ahead.length + 2) (Cursor.ofTokens ts) with
  | error e => exact h.error hrun
  | ok p => exact (h.ok hrun).2

theorem formed_of_parse {ts : List Token} {b : Block} (h : parse ts = .ok b) :
    b.Formed (Cursor.ended ts) := by
  have hformed := parse_formed ts
  rwa [h] at hformed

/-! ## Code that was read -/

/-- A program that was read, or the body of a function or handler in one. -/
def Block.Parsed (b : Block) : Prop :=
  ∃ ts p, parse ts = .ok p ∧ (b = p ∨ ∃ q ∈ p.sites false, (false, b) ∈ q.2.bodies q.1)

theorem Block.Parsed.complete {b : Block} (h : b.Parsed) {q : Bool × Stmt}
    (hq : q ∈ b.sites false) :
    q.2.Complete := by
  obtain ⟨ts, p, hp, rfl | ⟨r, hr, hb⟩⟩ := h
  · exact (formed_of_parse hp false q hq).complete
  · exact (formed_of_parse hp false q (Block.sites_body hr hb hq)).complete

end DeskScript
