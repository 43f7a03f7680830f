import DeskScript.Proofs.Program.Tracking

/-!
# Expressions in place

Every reader of a part of an expression takes a bound for the recursion and one for its loop. Both
are large enough where they exceed the number of tokens left, because each round of a loop and each
level of the recursion moves the index on. There the parser in place, which has no bound, ends with
the same result (`tracks_phrases`).
-/

namespace DeskScript

/-! ## Lists -/

section
variable {α : Type} {ts : List Token} {counted : Bool} {n m d : Nat} {c : Cursor} {σ : Spot}

/-- Any loop that goes on as a list of items does. -/
theorem follows_itemsUntil {close : Mark} {item : InPlace α} {R : Nat → Reader α}
    {loop : List α → InPlace (List α)}
    (hloop : ∀ read, loop read = do
      if (← Tape.look ts).here.kind == .mark close then return read.reverse
      let x ← item
      Tape.skipNewlines ts
      if ← Tape.accept ts .comma then
        Tape.skipNewlines ts
        loop (x :: read)
      else return (x :: read).reverse)
    (hitem : Tracks ts counted 1 n item R) (hat : σ.At ts d c) (hn : ts.length ≤ σ.pos + n)
    (hm : ts.length ≤ σ.pos + m) (read : List α) :
    Follows ts d counted (fun _ => σ.pos) c σ (loop read)
      (Reader.itemsUntil close (R d) m read) := by
  induction m generalizing c σ read with
  | zero => exact absurd hat.lt (by omega)
  | succ m ih =>
    rw [hloop]
    refine Follows.isAt hat (Follows.ite (fun _ => follows_pure hat (Nat.le_refl _)) fun _ => ?_)
    refine (hitem hat hn).bind fun x c₁ σ₁ _ hat₁ hp₁ => ?_
    refine (follows_skipNewlines hat₁).bind fun _ c₂ σ₂ _ hat₂ hp₂ => ?_
    refine (follows_accept hat₂ .comma).bind fun more c₃ σ₃ _ hat₃ hp₃ => ?_
    refine Follows.ite (fun _ => ?_) fun _ => follows_pure hat₃ (by omega)
    refine (follows_skipNewlines hat₃).bind fun _ c₄ σ₄ _ hat₄ hp₄ => ?_
    exact (ih hat₄ (by omega) (by omega) (x :: read)).mono fun _ => by omega

theorem tracks_bracketed {close : Mark} {P : InPlace (List α)} {R : Nat → Reader α}
    (hitems : Tracks ts counted 0 n P fun d => Reader.itemsUntil close (R d) n []) :
    Tracks ts counted 1 n (Tape.bracketed ts close P) fun d => Reader.bracketed n close (R d) := by
  intro d c σ hat hn
  refine (follows_skipNewlines hat).bind fun _ c₁ σ₁ _ hat₁ hp₁ => ?_
  refine (hitems hat₁ (by omega)).bind fun xs c₂ σ₂ _ hat₂ hp₂ => ?_
  exact (follows_expect hat₂ close).map fun _ => by omega

end

/-! ## Operands -/

section
variable {ts : List Token} {n m d : Nat} {expr : Nat → Reader Expr} {c : Cursor} {σ : Spot}
  (hexpr : Tracks ts true 1 n (Tape.expression ts) expr)
include hexpr

theorem tracks_items (close : Mark) (read : List Expr) :
    Tracks ts true 0 n (Tape.items ts close read)
      fun d => Reader.itemsUntil close (expr d) n read :=
  fun _ _ _ hat hn => follows_itemsUntil (Tape.items.eq_def ts close) hexpr hat hn hn read

theorem tracks_objectField :
    Tracks ts true 1 n (Tape.objectField ts (Tape.expression ts))
      fun d => Reader.objectField (expr d) := by
  intro d c σ hat hn
  refine (follows_objectKey hat).bind fun key c₁ σ₁ _ hat₁ hp₁ => ?_
  refine (follows_expect hat₁ .colon).bind fun _ c₂ σ₂ _ hat₂ hp₂ => ?_
  refine (follows_skipNewlines hat₂).bind fun _ c₃ σ₃ _ hat₃ hp₃ => ?_
  exact (hexpr hat₃ (by omega)).map fun _ => by omega

theorem tracks_fields (read : List (String × Expr)) :
    Tracks ts true 0 n (Tape.fields ts read)
      fun d => Reader.itemsUntil .closeBrace (Reader.objectField (expr d)) n read :=
  fun _ _ _ hat hn =>
    follows_itemsUntil (Tape.fields.eq_def ts) (tracks_objectField hexpr) hat hn hn read

theorem tracks_parenArgs :
    Tracks ts true 1 n (Tape.parenArgs ts) fun d => Reader.parenArgs n (expr d) := by
  intro d c σ hat hn
  rw [Tape.parenArgs]
  refine (follows_expect hat .openParen).bind fun _ c₁ σ₁ _ hat₁ hp₁ => ?_
  have hitems := tracks_items hexpr .closeParen []
  exact (tracks_bracketed hitems hat₁ (by omega)).mono fun _ => by omega

/-- Members and indices after an operand, with a bound `m` of their own. -/
theorem follows_suffixes (hat : σ.At ts d c) (hn : ts.length ≤ σ.pos + n)
    (hm : ts.length ≤ σ.pos + m) (e : Expr) :
    Follows ts d true (fun _ => σ.pos) c σ (Tape.suffixes ts e)
      (Reader.suffixes (expr d) m e) := by
  induction m generalizing c σ e with
  | zero => exact absurd hat.lt (by omega)
  | succ m ih =>
    rw [Tape.suffixes]
    refine Follows.get hat (Follows.ite (fun hdot => ?_) fun _ => ?_)
    · have heof : c.here.kind ≠ .eof := by simp_all
      refine (follows_advance hat heof).bind fun _ c₁ σ₁ _ hat₁ hp₁ => ?_
      refine (follows_propertyName hat₁).bind fun property c₂ σ₂ _ hat₂ hp₂ => ?_
      exact (ih hat₂ (by omega) (by omega) _).mono fun _ => by omega
    · refine Follows.ite (fun hbracket => ?_) fun _ => follows_pure hat (Nat.le_refl _)
      have heof : c.here.kind ≠ .eof := by simp_all
      refine (follows_advance hat heof).bind fun _ c₁ σ₁ _ hat₁ hp₁ => ?_
      refine (follows_skipNewlines hat₁).bind fun _ c₂ σ₂ _ hat₂ hp₂ => ?_
      refine (hexpr hat₂ (by omega)).bind fun index c₃ σ₃ _ hat₃ hp₃ => ?_
      refine (follows_skipNewlines hat₃).bind fun _ c₄ σ₄ _ hat₄ hp₄ => ?_
      refine (follows_expect hat₄ .closeBracket).bind fun _ c₅ σ₅ _ hat₅ hp₅ => ?_
      exact (ih hat₅ (by omega) (by omega) _).mono fun _ => by omega

end

section
variable {ts : List Token} {n m d : Nat} {inner : Reader.Inner} {c : Cursor} {σ : Spot}
  (hexpr : Tracks ts true 1 n (Tape.expression ts) inner.expression)
  (hunary : Tracks ts true 1 n (Tape.unary ts) inner.unary)

include hunary in
/-- Arguments without parentheses, with a bound `m` of their own. -/
theorem follows_bareArgs (hat : σ.At ts d c) (hn : ts.length ≤ σ.pos + n)
    (hm : ts.length ≤ σ.pos + m) (read : List Expr) :
    Follows ts d true (fun _ => σ.pos) c σ (Tape.bareArgs ts read)
      (Reader.bareArgs (inner.unary d) m read) := by
  induction m generalizing c σ read with
  | zero => exact absurd hat.lt (by omega)
  | succ m ih =>
    rw [Tape.bareArgs]
    refine Follows.get hat (Follows.ite (fun _ => ?_) fun _ => follows_pure hat (Nat.le_refl _))
    refine (hunary hat hn).bind fun arg c₁ σ₁ _ hat₁ hp₁ => ?_
    refine (follows_accept hat₁ .comma).bind fun _ c₂ σ₂ _ hat₂ hp₂ => ?_
    exact (ih hat₂ (by omega) (by omega) _).mono fun _ => by omega

theorem follows_atFlushParen {counted : Bool} (hat : σ.At ts d c) :
    Follows ts d counted (fun _ => σ.pos) c σ (Tape.atFlushParen ts) Reader.atFlushParen :=
  Follows.get hat (follows_pure hat (Nat.le_refl _))

theorem follows_countBare {counted : Bool} (hat : σ.At ts d c) :
    Follows ts d counted (fun _ => σ.pos) c σ
      (modify fun σ => { σ with bare := σ.bare + 1 } : InPlace Unit)
      (modify fun c => { c with bare := c.bare + 1 }) := by
  refine ⟨_, rfl, .ok ⟨?_, hat.depth, hat.sound, hat.ended⟩ (Nat.le_refl _) fun _ => ?_⟩
  · exact congrArg (fun c : Cursor => { c with bare := σ.bare + 1 }) hat.view
  · show σ.bare + 1 + c.bare = σ.bare + (c.bare + 1)
    omega

include hexpr hunary

theorem tracks_callTail :
    Tracks ts true 1 (n + 1) (Tape.callTail ts) (Reader.callTail n inner) := by
  intro d c σ hat hn
  rw [Tape.callTail]
  refine (follows_variableName hat .callee).bind fun name c₁ σ₁ _ hat₁ hp₁ => ?_
  refine (follows_atFlushParen hat₁).bind fun flush c₂ σ₂ _ hat₂ hp₂ => ?_
  refine Follows.ite (fun _ => ?_) fun _ => ?_
  · exact (tracks_parenArgs hexpr hat₂ (by omega)).map fun _ => by omega
  · exact (follows_bareArgs hunary hat₂ (by omega) (by omega) []).map fun _ => by omega

theorem tracks_primary :
    Tracks ts true 1 (n + 1) (Tape.primary ts) (Reader.primary n inner) := by
  intro d c σ hat hn
  rw [Tape.primary]
  refine Follows.peek hat ?_
  dsimp only
  -- every operand starts with a token of its own, after which the bound `n` is enough
  have hread {f : Token → InPlace Expr} {g : Token → Reader Expr} (heof : c.here.kind ≠ .eof)
      (h : ∀ t c₁ σ₁, σ₁.At ts d c₁ → σ.pos + 1 ≤ σ₁.pos → ts.length ≤ σ₁.pos + n →
        Follows ts d true (fun _ => σ.pos + 1) c₁ σ₁ (f t) (g t)) :
      Follows ts d true (fun _ => σ.pos + 1) c σ (Tape.advance ts >>= f) (Reader.advance >>= g) :=
    (follows_advance hat heof).bind fun t c₁ σ₁ _ hat₁ hp₁ => h t c₁ σ₁ hat₁ hp₁ (by omega)
  cases hk : c.here.kind with
  | number x | string s | template parts | «variable» name =>
    exact hread (by simp [hk]) fun _ _ _ hat₁ hp₁ _ => follows_pure hat₁ hp₁
  | ident name =>
    refine hread (by simp [hk]) fun _ c₁ σ₁ hat₁ hp₁ hn₁ => ?_
    refine (follows_atFlushParen hat₁).bind fun flush c₂ σ₂ _ hat₂ hp₂ => ?_
    refine Follows.ite (fun _ => ?_) fun _ => ?_
    · exact (tracks_parenArgs hexpr hat₂ (by omega)).map fun _ => by omega
    · exact (follows_countBare hat₂).map fun _ => by omega
  | keyword k =>
    cases k with
    | true | false | null =>
      exact hread (by simp [hk]) fun _ _ _ hat₁ hp₁ _ => follows_pure hat₁ hp₁
    | call =>
      refine hread (by simp [hk]) fun _ c₁ σ₁ hat₁ hp₁ hn₁ => ?_
      exact (tracks_callTail hexpr hunary hat₁ (by omega)).map fun _ => by omega
    | _ => exact follows_unexpected hat _
  | mark m =>
    cases m with
    | openParen =>
      refine hread (by simp [hk]) fun _ c₁ σ₁ hat₁ hp₁ hn₁ => ?_
      refine (follows_skipNewlines hat₁).bind fun _ c₂ σ₂ _ hat₂ hp₂ => ?_
      refine (hexpr hat₂ (by omega)).bind fun e c₃ σ₃ _ hat₃ hp₃ => ?_
      refine (follows_skipNewlines hat₃).bind fun _ c₄ σ₄ _ hat₄ hp₄ => ?_
      exact (follows_expect hat₄ .closeParen).map fun _ => by omega
    | openBracket =>
      refine hread (by simp [hk]) fun _ c₁ σ₁ hat₁ hp₁ hn₁ => ?_
      exact (tracks_bracketed (tracks_items hexpr .closeBracket []) hat₁ hn₁).map fun _ => by omega
    | openBrace =>
      refine hread (by simp [hk]) fun _ c₁ σ₁ hat₁ hp₁ hn₁ => ?_
      exact (tracks_bracketed (tracks_fields hexpr []) hat₁ hn₁).map fun _ => by omega
    | _ => exact follows_unexpected hat _
  | _ => exact follows_unexpected hat _

theorem tracks_unaryWith :
    Tracks ts true 1 (n + 1) (Tape.unary ts) (Reader.unaryWith n inner) := by
  intro d c σ hat hn
  rw [Tape.unary]
  refine Follows.peek hat ?_
  dsimp only
  cases hop : Reader.prefixOp? c.here.kind with
  | some op =>
    have heof : c.here.kind ≠ .eof := by
      intro heof
      simp [heof, Reader.prefixOp?] at hop
    refine (follows_advance hat heof).bind fun _ c₁ σ₁ _ hat₁ hp₁ => ?_
    exact (tracks_nested hunary .expression hat₁ (by omega)).map fun _ => by omega
  | none =>
    refine (tracks_primary hexpr hunary hat hn).bind fun e c₁ σ₁ _ hat₁ hp₁ => ?_
    exact (follows_suffixes hexpr hat₁ (by omega) (by omega) e).mono fun _ => by omega

end

/-! ## Chains -/

section
variable {ts : List Token} {n m d : Nat} {inner : Reader.Inner} {c : Cursor} {σ : Spot}

/-- The rest of a chain, with a bound `m` of its own. -/
theorem follows_chainRest {op? : TokenKind → Option BinaryOp}
    {tighter : List (TokenKind → Option BinaryOp)} (hop? : op? .eof = none)
    (hchains : Tracks ts true 1 (n + 1) (Tape.chains ts tighter)
      fun d => Reader.chains n (Reader.unaryWith n inner d) tighter)
    (hat : σ.At ts d c) (hn : ts.length ≤ σ.pos + n) (hm : ts.length ≤ σ.pos + m) (left : Expr) :
    Follows ts d true (fun _ => σ.pos) c σ (Tape.chainRest ts op? tighter left)
      (Reader.chainRest op? (Reader.chains n (Reader.unaryWith n inner d) tighter) m left) := by
  induction m generalizing c σ left with
  | zero => exact absurd hat.lt (by omega)
  | succ m ih =>
    rw [Tape.chainRest]
    refine Follows.peek hat ?_
    dsimp only
    cases hop : op? c.here.kind with
    | none => exact follows_pure hat (Nat.le_refl _)
    | some op =>
      have heof : c.here.kind ≠ .eof := fun heof => by simp [heof, hop?] at hop
      refine (follows_advance hat heof).bind fun _ c₁ σ₁ _ hat₁ hp₁ => ?_
      refine (hchains hat₁ (by omega)).bind fun right c₂ σ₂ _ hat₂ hp₂ => ?_
      exact (ih hat₂ (by omega) (by omega) _).mono fun _ => by omega

theorem tracks_chains
    (hoperand : Tracks ts true 1 (n + 1) (Tape.unary ts) (Reader.unaryWith n inner))
    {levels : List (TokenKind → Option BinaryOp)} (hlevels : ∀ op? ∈ levels, op? .eof = none) :
    Tracks ts true 1 (n + 1) (Tape.chains ts levels)
      fun d => Reader.chains n (Reader.unaryWith n inner d) levels := by
  induction levels with
  | nil =>
    intro d c σ hat hn
    rw [Tape.chains]
    exact hoperand hat hn
  | cons op? tighter ih =>
    intro d c σ hat hn
    have hchains := ih fun op? hop? => hlevels op? (List.mem_cons_of_mem _ hop?)
    rw [Tape.chains]
    refine (hchains hat hn).bind fun left c₁ σ₁ _ hat₁ hp₁ => ?_
    exact (follows_chainRest (hlevels op? List.mem_cons_self) hchains hat₁ (by omega) (by omega)
      left).mono fun _ => by omega

end

theorem operatorLevels_eof : ∀ op? ∈ Reader.operatorLevels, op? .eof = none := by
  simp [Reader.operatorLevels, Reader.orOp?, Reader.andOp?, Reader.equalityOp?,
    Reader.comparisonOp?, Reader.termOp?, Reader.factorOp?]

/-- Expressions and operands, by induction on the bound. -/
theorem tracks_phrases (ts : List Token) (n : Nat) :
    Tracks ts true 1 n (Tape.expression ts) (Reader.expression n) ∧
      Tracks ts true 1 n (Tape.unary ts) (Reader.unary n) := by
  induction n with
  | zero =>
    constructor
    all_goals
      intro d c σ hat hn
      exact absurd hat.lt (by omega)
  | succ n ih =>
    obtain ⟨hexpr, hunary⟩ := ih
    have hoperand : Tracks ts true 1 (n + 1) (Tape.unary ts)
        (Reader.unaryWith n ⟨Reader.expression n, Reader.unary n⟩) := tracks_unaryWith hexpr hunary
    constructor
    · intro d c σ hat hn
      rw [Tape.expression, Reader.expression]
      exact tracks_nested (tracks_chains hoperand operatorLevels_eof) .expression hat hn
    · intro d c σ hat hn
      rw [Reader.unary]
      exact hoperand hat hn

end DeskScript
