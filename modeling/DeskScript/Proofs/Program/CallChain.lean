import DeskScript.Proofs.Program.Limit
import DeskScript.Proofs.Program.RoundTrip

/-!
# Calls in calls

The arguments of a call without parentheses are read at the depth of the call, so
`call f call f ... call f null` is read whatever its length, and the depth of the
tree has no bound:

    parse (callChain (k + 1) ++ [.placeless .eof]) =
      .ok (.mk .start [.call .start "f" [Expr.callChain k]])             (parse_callChain)
-/

namespace DeskScript

/-- A token without a place of its own. -/
def Token.placeless (kind : TokenKind) : Token := ⟨kind, "", .start⟩

/-- `call f call f ... null`. -/
def callChain : Nat → List Token
  | 0 => [.placeless (.keyword .null)]
  | k + 1 => .placeless (.keyword .call) :: .placeless (.ident "f") :: callChain k

/-- The expression that a chain of calls is. -/
def Expr.callChain : Nat → Expr
  | 0 => .literal .start .null
  | k + 1 => .call .start "f" [callChain k]

theorem Expr.depth_callChain (k : Nat) : k ≤ (Expr.callChain k).depth .none := by
  induction k with
  | zero => exact Nat.zero_le _
  | succ k ih =>
    have hpart : (1, Expr.callChain k) ∈ (Expr.callChain (k + 1)).parts .none := by
      simp [Expr.callChain, Expr.parts, Uncounted.call_none]
    have hle : 1 + (Expr.callChain k).depth .none ≤ (Expr.callChain (k + 1)).depth .none :=
      Expr.depth_le.mp (Nat.le_refl _) _ hpart
    omega

namespace Reader

/-- The cursor stands at the chain, and the input ends after it. -/
def AtChain (ts : List Token) (c : Cursor) : Prop := c.rest = ts ++ [.placeless .eof]

theorem AtChain.next {t : Token} {ts : List Token} {c : Cursor} (h : AtChain (t :: ts) c) :
    c.here = t ∧ AtChain ts c.next := by
  obtain ⟨hhere, hahead⟩ : c.here = t ∧ c.ahead = ts ++ [.placeless .eof] := by
    simpa [AtChain, Cursor.rest] using h
  refine ⟨hhere, ?_⟩
  unfold AtChain Cursor.next
  rw [hahead]
  cases ts <;> rfl

theorem AtChain.here_eof {c : Cursor} (h : AtChain [] c) : c.here.kind = .eof := by
  obtain ⟨hhere, -⟩ : c.here = .placeless .eof ∧ c.ahead = [] := by
    simpa [AtChain, Cursor.rest] using h
  rw [hhere]
  rfl

theorem startsArgument_callChain {k : Nat} {c : Cursor} (h : AtChain (callChain k) c) :
    startsArgument c = true ∧ c.here.kind ≠ .mark .openParen := by
  cases k with
  | zero =>
    rw [startsArgument, h.next.1]
    exact ⟨rfl, by simp [Token.placeless]⟩
  | succ k =>
    rw [startsArgument, h.next.1]
    exact ⟨rfl, by simp [Token.placeless]⟩

theorem suffixes_eof {expr : Reader Expr} {n : Nat} {e : Expr} {c : Cursor}
    (h : c.here.kind = .eof) : suffixes expr (n + 1) e c = .ok (e, c) := by
  rw [suffixes, bind_run (get_run c), h]
  rfl

/-- After the word `call`: one argument, which is the rest of the chain. -/
theorem callTail_callChain {inner : Inner} {k n d : Nat} {c c' : Cursor}
    (hc : AtChain (.placeless (.ident "f") :: callChain k) c)
    (harg : inner.unary d c.next = .ok (Expr.callChain k, c')) (hc' : AtChain [] c') :
    callTail (n + 2) inner d c = .ok (("f", [Expr.callChain k]), c') := by
  obtain ⟨hhere, hnext⟩ := hc.next
  obtain ⟨hstarts, hparen⟩ := startsArgument_callChain hnext
  have hname : variableName .callee c = .ok ("f", c.next) := by
    have hname? : variableName? c = .ok (some "f", c.next) := by
      rw [variableName?, bind_run (peek_run c), hhere]
      rfl
    rw [variableName, bind_run hname?]
    rfl
  have hflush : atFlushParen c.next = .ok (false, c.next) := by
    rw [atFlushParen_run]
    simp [hparen]
  have hlast (args : List Expr) : bareArgs (inner.unary d) (n + 1) args c' = .ok (args.reverse, c') := by
    rw [bareArgs, bind_run (get_run c'), startsArgument, hc'.here_eof]
    rfl
  have hargs : bareArgs (inner.unary d) (n + 2) [] c.next = .ok ([Expr.callChain k], c') := by
    rw [bareArgs, bind_run (get_run c.next), hstarts, if_pos rfl, bind_run harg,
      bind_run (accept_run_other (by simp [hc'.here_eof])), hlast]
    rfl
  rw [callTail, bind_run hname, bind_run hflush]
  simp only [Bool.false_eq_true, if_false]
  rw [bind_run hargs]
  rfl

/-- By induction on the chain: all of it is read at one depth. -/
theorem unary_callChain {k n d : Nat} {c : Cursor} (hn : k + 2 ≤ n) (hc : AtChain (callChain k) c) :
    ∃ c', unary n d c = .ok (Expr.callChain k, c') ∧ AtChain [] c' := by
  induction k generalizing n c with
  | zero =>
    obtain ⟨m, rfl⟩ : ∃ m, n = m + 1 + 1 := ⟨n - 2, by omega⟩
    obtain ⟨hhere, hnext⟩ := hc.next
    refine ⟨c.next, ?_, hnext⟩
    have hprimary : primary (m + 1) ⟨expression (m + 1), unary (m + 1)⟩ d c =
        .ok (Expr.callChain 0, c.next) := by
      rw [primary, bind_run (peek_run c), hhere]
      rfl
    rw [unary, unaryWith, bind_run (peek_run c)]
    simp only [hhere, Token.placeless, prefixOp?]
    rw [bind_run hprimary, suffixes_eof hnext.here_eof]
  | succ k ih =>
    obtain ⟨m, rfl⟩ : ∃ m, n = m + 2 + 1 := ⟨n - 3, by omega⟩
    obtain ⟨hhere, hnext⟩ := hc.next
    obtain ⟨c', harg, hc'⟩ := ih (n := m + 2) (by omega) hnext.next.2
    refine ⟨c', ?_, hc'⟩
    have hprimary : primary (m + 2) ⟨expression (m + 2), unary (m + 2)⟩ d c =
        .ok (Expr.callChain (k + 1), c') := by
      rw [primary, bind_run (peek_run c), hhere]
      simp only [Token.placeless]
      rw [bind_run (advance_run c), bind_run (callTail_callChain hnext harg hc')]
      rfl
    rw [unary, unaryWith, bind_run (peek_run c)]
    simp only [hhere, Token.placeless, prefixOp?]
    rw [bind_run hprimary, suffixes_eof hc'.here_eof]

theorem program_callChain {k n : Nat} {c : Cursor} (hn : k + 3 ≤ n)
    (hc : AtChain (callChain (k + 1)) c) :
    ∃ c', program n c = .ok (.mk .start [.call .start "f" [Expr.callChain k]], c') := by
  obtain ⟨m, rfl⟩ : ∃ m, n = m + 2 := ⟨n - 2, by omega⟩
  obtain ⟨hhere, hnext⟩ := hc.next
  obtain ⟨c', harg, hc'⟩ := unary_callChain (n := m + 2) (d := 0) (by omega) hnext.next.2
  have hstatement : statement (m + 2) (body (m + 2)) 0 c =
      .ok (.call .start "f" [Expr.callChain k], c') := by
    rw [statement, bind_run (get_run c), hhere]
    simp only [Token.placeless]
    rw [wordStatement, bind_run (advance_run c), bind_run (callTail_callChain hnext harg hc')]
    rfl
  have hend : endStatement c' = .ok ((), c') := by
    rw [endStatement, bind_run (get_run c'), hc'.here_eof]
    rfl
  have hlast (ss : List Stmt) : statementsUntil (isAt .eof) (statement (m + 2) (body (m + 2)) 0) (m + 1)
      ss c' = .ok (ss.reverse, c') := by
    rw [statementsUntil, bind_run (isAt_run .eof c'), hc'.here_eof]
    rfl
  have hstatements : statementsUntil (isAt .eof) (statement (m + 2) (body (m + 2)) 0) (m + 2) [] c =
      .ok ([.call .start "f" [Expr.callChain k]], c') := by
    have hmore : (c.here.kind == .eof) = false := by rw [hhere]; rfl
    rw [statementsUntil, bind_run (isAt_run .eof c), hmore]
    simp only [Bool.false_eq_true, if_false]
    rw [bind_run hstatement, bind_run hend, hlast]
    rfl
  have hskip : skipNewlines c = .ok ((), c) := skipNewlines_run (by rw [hhere]; simp [Token.placeless])
  refine ⟨c', ?_⟩
  rw [program, bind_run (peek_run c), bind_run hskip, bind_run hstatements, hhere]
  rfl

end Reader

theorem parse_callChain (k : Nat) :
    parse (callChain (k + 1) ++ [.placeless .eof]) =
      .ok (.mk .start [.call .start "f" [Expr.callChain k]]) := by
  have hended : Cursor.ended (callChain (k + 1) ++ [.placeless .eof]) =
      callChain (k + 1) ++ [.placeless .eof] := by
    simp [Cursor.ended, Token.placeless]
  have hrest := Cursor.rest_ofTokens (callChain (k + 1) ++ [.placeless .eof])
  rw [hended] at hrest
  have hlength (j : Nat) : (callChain j).length = 2 * j + 1 := by
    induction j with
    | zero => rfl
    | succ j ih =>
      rw [callChain, List.length_cons, List.length_cons, ih]
      omega
  have hbound : k + 3 ≤ (Cursor.ofTokens (callChain (k + 1) ++ [.placeless .eof])).ahead.length + 2 := by
    have hall := congrArg List.length hrest
    simp only [Cursor.rest, List.length_cons, List.length_append, hlength] at hall
    omega
  obtain ⟨c', hrun⟩ := Reader.program_callChain hbound hrest
  rw [parse]
  simp only [hrun]
  rfl

theorem Block.depth_callChain (k : Nat) :
    k < (Block.mk .start [.call .start "f" [Expr.callChain k]]).depth .none := by
  have hchain := Expr.depth_callChain k
  have hstmt : (Stmt.call .start "f" [Expr.callChain k]).depth .none ≤
      (Block.mk .start [.call .start "f" [Expr.callChain k]]).depth .none :=
    Block.depth_le.mp (Nat.le_refl _) _ (List.mem_singleton_self _)
  have hpart : 1 + (Expr.callChain k).depth .none ≤
      (Stmt.call .start "f" [Expr.callChain k]).depth .none := by
    refine (Stmt.depth_le.mp (Nat.le_refl _)).1 (1, Expr.callChain k) ?_
    simp [Stmt.parts, Uncounted.call_none]
  omega

/-- **No limit holds for calls without parentheses**: three hundred of them, each in the one before,
are read. -/
theorem parse_callChain_unlimited :
    ∃ b, parse (callChain 300 ++ [.placeless .eof]) = .ok b ∧ Reader.maxNesting < b.depth .none := by
  have hdepth := Block.depth_callChain 299
  exact ⟨_, parse_callChain 299, Nat.lt_trans (by decide) hdepth⟩

end DeskScript
