import DeskScript.Proofs.Program.Render

/-!
# Reading back what was written

Every well-shaped expression that is not nested too deeply is read back from its
pieces, up to places:

    e.WellShaped → 1 + e.nesting ≤ maxNesting →
      parse (lay line column (assignmentPieces text x e)) = .ok (.mk pos [.set pos x [] e']) ∧
        e'.unplaced = e.unplaced                                     (parse_assignment)

What follows an expression must not go on with it: the next piece is not flush and is
no operator that binds as tightly (`Stops`). The loops for operators and for members
take up what was read so far, so a reader of `e` is only followed up to the round that
has `e` (`Reaches`), and the round after it either goes on or stops.
-/

namespace DeskScript

/-! ## First pieces -/

/-- Can an expression begin with this token? -/
def TokenKind.begins : TokenKind → Bool
  | .number _ | .string _ | .template _ | .variable _ => true
  | .keyword .true | .keyword .false | .keyword .null | .keyword .call => true
  | .mark .openParen | .mark .openBracket | .mark .openBrace => true
  | .mark .bang | .mark .minus => true
  | _ => false

theorem Expr.pieces_begin (text : TokenKind → String) (e : Expr) :
    ∃ p ps, e.pieces text = p :: ps ∧ p.kind.begins = true := by
  induction e using Expr.induction with
  | h e ih =>
    cases e with
    | literal pos v =>
      refine ⟨_, _, rfl, ?_⟩
      cases v with
      | bool b => cases b <;> rfl
      | _ => rfl
    | binary pos op l r =>
      obtain ⟨p, ps, hps, hp⟩ := ih l (by simp [children])
      exact ⟨p, _, by rw [pieces, hps]; rfl, hp⟩
    | unary pos op x => exact ⟨_, _, rfl, by cases op <;> rfl⟩
    | member pos x name =>
      obtain ⟨p, ps, hps, hp⟩ := ih x (by simp [children])
      exact ⟨p, _, by rw [pieces, hps]; rfl, hp⟩
    | index pos x i =>
      obtain ⟨p, ps, hps, hp⟩ := ih x (by simp [children])
      exact ⟨p, _, by rw [pieces, hps]; rfl, hp⟩
    | _ => exact ⟨_, _, rfl, rfl⟩

/-- What may have a member or an index does not begin with a prefix. -/
theorem Expr.pieces_operand (text : TokenKind → String) {e : Expr} (hshaped : e.WellShaped)
    (he : e.binaryOp? = none ∧ e.unaryOp? = none) :
    ∃ p ps, e.pieces text = p :: ps ∧ Reader.prefixOp? p.kind = none := by
  induction e using Expr.induction with
  | h e ih =>
    obtain ⟨hhere, hparts⟩ := wellShaped_iff.mp hshaped
    cases e with
    | literal pos v =>
      refine ⟨_, _, rfl, ?_⟩
      cases v with
      | bool b => cases b <;> rfl
      | _ => rfl
    | binary pos op l r => cases he.1
    | unary pos op x => cases he.2
    | member pos x name =>
      obtain ⟨p, ps, hps, hp⟩ := ih x (by simp [children]) (hparts x (by simp [children])) hhere
      exact ⟨p, _, by rw [pieces, hps]; rfl, hp⟩
    | index pos x i =>
      obtain ⟨p, ps, hps, hp⟩ := ih x (by simp [children]) (hparts x (by simp [children])) hhere
      exact ⟨p, _, by rw [pieces, hps]; rfl, hp⟩
    | _ => exact ⟨_, _, rfl, rfl⟩

/-- Nothing that extends an expression of operators of a level: the next piece is not flush, and is
no operator of the level or a tighter one. -/
def Stops (level : Nat) : List Piece → Prop
  | [] => False
  | p :: _ => p.flush = false ∧ ∀ op ∈ p.kind.operator?, op.level < level

theorem Stops.mono {i j : Nat} {rest : List Piece} (h : Stops i rest) (hij : i ≤ j) :
    Stops j rest := by
  cases rest with
  | nil => exact h
  | cons p ps => exact ⟨h.1, fun op hop => Nat.lt_of_lt_of_le (h.2 op hop) hij⟩

theorem Stops.ne_nil {i : Nat} {rest : List Piece} (h : Stops i rest) : rest ≠ [] := by
  rintro rfl
  exact h

theorem stops_apart {kind : TokenKind} (h : kind.operator? = none) (text : TokenKind → String)
    (i : Nat) (rest : List Piece) : Stops i (.apart text kind :: rest) :=
  ⟨rfl, by simp [Piece.apart, h]⟩

theorem BinaryOp.operator?_mark (op : BinaryOp) :
    (TokenKind.mark op.mark).operator? = some op := by
  cases op <;> rfl

namespace Reader

/-! ## Runs -/

variable {α β : Type} {c : Cursor}

theorem skipNewlines_run (h : c.here.kind ≠ .newline) : skipNewlines c = .ok ((), c) := by
  have hskip : c.skipWhile (·.kind == .newline) = c := by
    unfold Cursor.skipWhile
    cases c.ahead with
    | nil => rfl
    | cons t ts => simp [Cursor.skipWhile.go, h]
  exact modify_ok.mpr hskip

theorem expect_run {m : Mark} (h : c.here.kind = .mark m) : expect m c = .ok (c.here, c.next) := by
  rw [expect, bind_run (isAtMark_run m c), h]
  simp [advance_run]

theorem accept_run {m : Mark} (h : c.here.kind = .mark m) : accept m c = .ok (true, c.next) := by
  rw [accept, bind_run (isAtMark_run m c), h]
  simp only [beq_self_eq_true, if_true, bind_run (advance_run c)]
  rfl

theorem accept_run_other {m : Mark} (h : c.here.kind ≠ .mark m) : accept m c = .ok (false, c) := by
  have hne : (c.here.kind == .mark m) = false := by simpa using h
  rw [accept, bind_run (isAtMark_run m c), hne]
  rfl

/-! ## Loops -/

/-- The reader succeeds with a result that satisfies `P`, and leaves `rest`. -/
def Returns (r : Reader α) (c : Cursor) (rest : List Piece) (P : α → Prop) : Prop :=
  ∃ a c', r c = .ok (a, c') ∧ c'.On rest ∧ P a

/-- From the cursor on, `e` is read, and `rest` is what follows it. -/
def Recovers (r : Reader Expr) (e : Expr) (c : Cursor) (rest : List Piece) : Prop :=
  r.Returns c rest fun e' => e'.unplaced = e.unplaced

/-- From the cursor on, `e` is read, and a loop that may add to it goes on at `rest`, with rounds
enough for all of it. -/
def Reaches (r : Reader Expr) (loop : Nat → Expr → Reader Expr) (e : Expr) (c : Cursor)
    (rest : List Piece) : Prop :=
  ∃ k e' c', r c = loop k e' c' ∧ rest.length ≤ k ∧ c'.On rest ∧ e'.unplaced = e.unplaced

variable {text : TokenKind → String} {r : Reader Expr} {e : Expr} {rest : List Piece}

/-- While there are pieces left, there is a round for the next one. -/
theorem Reaches.round {loop : Nat → Expr → Reader Expr} {p : Piece}
    (h : r.Reaches loop e c (p :: rest)) :
    ∃ k e' c', r c = loop (k + 1) e' c' ∧ rest.length ≤ k ∧ c'.On (p :: rest) ∧
      e'.unplaced = e.unplaced := by
  obtain ⟨k, e', c', hrun, hk, hon, hsame⟩ := h
  cases k with
  | zero => simp at hk
  | succ k => exact ⟨k, e', c', hrun, Nat.le_of_succ_le_succ hk, hon, hsame⟩

/-- A loop that has just started. -/
theorem Recovers.reaches {first : Reader Expr} {loop : Nat → Expr → Reader Expr} {n : Nat}
    (h : first.Recovers e c rest) (hn : rest.length ≤ n) :
    (first >>= loop n).Reaches loop e c rest := by
  obtain ⟨e', c', hrun, hon, hsame⟩ := h
  exact ⟨n, e', c', bind_run hrun, hn, hon, hsame⟩

section

variable {op? : TokenKind → Option BinaryOp} {i : Nat}
  (hop : ∀ k op, op? k = some op ↔ op.level = i ∧ k.operator? = some op) {operand : Reader Expr}
include hop

theorem Reaches.chain_stop (h : r.Reaches (chainRest op? operand) e c rest) (hrest : Stops i rest) :
    r.Recovers e c rest := by
  cases rest with
  | nil => exact hrest.elim
  | cons p ps =>
    obtain ⟨k, e', c', hrun, -, hon, hsame⟩ := h.round
    refine ⟨e', c', ?_, hon, hsame⟩
    -- the next token is no operator of this level
    have hnone : op? c'.here.kind = none := by
      rw [hon.kind, Option.eq_none_iff_forall_ne_some]
      intro op hsome
      obtain ⟨hlevel, hoperator⟩ := (hop _ _).mp hsome
      have := hrest.2 op hoperator
      omega
    rw [hrun, chainRest, bind_run (peek_run c'), hnone]
    rfl

theorem Reaches.chain_step {op : BinaryOp} {pos : Position} {right : Expr}
    (hlevel : op.level = i)
    (h : r.Reaches (chainRest op? operand) e c
      (.apart text (.mark op.mark) :: (right.pieces text ++ rest)))
    (hright : ∀ d : Cursor, d.On (right.pieces text ++ rest) → operand.Recovers right d rest) :
    r.Reaches (chainRest op? operand) (.binary pos op e right) c rest := by
  obtain ⟨k, e', c', hrun, hk, hon, hsame⟩ := h.round
  have hsome : op? c'.here.kind = some op := by
    rw [hon.kind]
    exact (hop _ _).mpr ⟨hlevel, op.operator?_mark⟩
  obtain ⟨q, qs, hqs, -⟩ := right.pieces_begin text
  have hnext := hon.next (by simp [hqs])
  obtain ⟨right', c'', hrun', hon', hsame'⟩ := hright _ hnext
  refine ⟨k, .binary e'.pos op e' right', c'', ?_, ?_, hon', by simp [Expr.unplaced, hsame, hsame']⟩
  · rw [hrun, chainRest, bind_run (peek_run c'), hsome]
    simp only [bind_run (advance_run c'), bind_run hrun']
  · simp only [List.length_append] at hk
    omega

end

theorem propertyName_run {x : String} (h : c.here.kind = .ofWord x) :
    propertyName c = .ok (c.here.lexeme, c.next) := by
  rw [propertyName, bind_run (peek_run c), h, TokenKind.ofWord]
  cases Keyword.ofWord? x with
  | some k => exact bind_run (advance_run c)
  | none => exact bind_run (advance_run c)

/-- Where an expression begins there is no line break. -/
theorem skipNewlines_on {ps : List Piece} (h : c.On (e.pieces text ++ ps)) :
    skipNewlines c = .ok ((), c) := by
  obtain ⟨p, qs, hqs, hbegins⟩ := e.pieces_begin text
  rw [hqs] at h
  refine skipNewlines_run fun hk => ?_
  rw [← h.kind, hk] at hbegins
  cases hbegins

section

variable {expression : Reader Expr}

theorem Reaches.suffix_stop {i : Nat} (h : r.Reaches (suffixes expression) e c rest)
    (hrest : Stops i rest) : r.Recovers e c rest := by
  cases rest with
  | nil => exact hrest.elim
  | cons p ps =>
    obtain ⟨k, e', c', hrun, -, hon, hsame⟩ := h.round
    refine ⟨e', c', ?_, hon, hsame⟩
    have hapart : c'.adjacent = false := hon.adjacent.trans hrest.1
    rw [hrun, suffixes, bind_run (get_run c')]
    simp only [hapart, Bool.and_false, Bool.false_eq_true, if_false]
    rfl

theorem Reaches.member {pos : Position} {x : String}
    (h : r.Reaches (suffixes expression) e c
      (.joined text (.mark .dot) :: ⟨.ofWord x, x, false⟩ :: rest)) (hrest : rest ≠ []) :
    r.Reaches (suffixes expression) (.member pos e x) c rest := by
  obtain ⟨k, e', c', hrun, hk, hon, hsame⟩ := h.round
  have hdot : (c'.here.kind == .mark .dot && c'.adjacent) = true := by
    rw [hon.kind, hon.adjacent]
    rfl
  have hnext := hon.next (by simp)
  refine ⟨k, .member e'.pos e' x, c'.next.next, ?_, ?_, hnext.next hrest, by simp [Expr.unplaced, hsame]⟩
  · rw [hrun, suffixes, bind_run (get_run c')]
    simp only [hdot, if_true, bind_run (advance_run c'), bind_run (propertyName_run hnext.kind),
      hnext.lexeme]
  · simp only [List.length_cons] at hk
    omega

theorem Reaches.index {pos : Position} {i : Expr}
    (h : r.Reaches (suffixes expression) e c (.joined text (.mark .openBracket) ::
      (i.pieces text ++ .apart text (.mark .closeBracket) :: rest)))
    (hi : ∀ d : Cursor, d.On (i.pieces text ++ .apart text (.mark .closeBracket) :: rest) →
      expression.Recovers i d (.apart text (.mark .closeBracket) :: rest)) (hrest : rest ≠ []) :
    r.Reaches (suffixes expression) (.index pos e i) c rest := by
  obtain ⟨k, e', c', hrun, hk, hon, hsame⟩ := h.round
  have hbracket : (c'.here.kind == .mark .openBracket && c'.adjacent) = true := by
    rw [hon.kind, hon.adjacent]
    rfl
  have hdot : (c'.here.kind == .mark .dot && c'.adjacent) = false := by
    rw [hon.kind]
    rfl
  have hnext := hon.next (by simp)
  obtain ⟨i', d, hrun', hd, hsame'⟩ := hi _ hnext
  refine ⟨k, .index e'.pos e' i', d.next, ?_, ?_, hd.next hrest,
    by simp [Expr.unplaced, hsame, hsame']⟩
  · rw [hrun, suffixes, bind_run (get_run c')]
    simp only [hdot, hbracket, if_true, Bool.false_eq_true, if_false, bind_run (advance_run c'),
      bind_run (skipNewlines_on hnext), bind_run hrun', bind_run (skipNewlines_run hd.mark_ne_newline),
      bind_run (expect_run hd.kind)]
  · simp only [List.length_append, List.length_cons] at hk
    omega

end

/-! ## Lists -/

/-- Items are written by `write`, and read back by `item` up to what `same` keeps. -/
structure Items (text : TokenKind → String) (close : Mark) (item : Reader α) (write : α → List Piece)
    (same : α → β) (n : Nat) (xs : List α) : Prop where
  begin : ∀ x ∈ xs, ∃ p ps, write x = p :: ps ∧ p.kind ≠ .mark close ∧ p.kind ≠ .newline
  read : ∀ x ∈ xs, ∀ (d : Cursor) (rest : List Piece), Stops 0 rest → d.On (write x ++ rest) →
    (write x ++ rest).length < n → item.Returns d rest fun y => same y = same x

section

variable {close : Mark} {item : Reader α} {write : α → List Piece} {same : α → β} {n : Nat}
  {xs : List α}

theorem Items.tail {x : α} (h : Items text close item write same n (x :: xs)) :
    Items text close item write same n xs :=
  ⟨fun y hy => h.begin y (List.mem_cons_of_mem _ hy),
    fun y hy => h.read y (List.mem_cons_of_mem _ hy)⟩

theorem Items.separated_begin (h : Items text close item write same n xs) (hxs : xs ≠ []) :
    ∃ p ps, separated text (xs.map write) = p :: ps ∧ p.kind ≠ .mark close ∧ p.kind ≠ .newline := by
  cases xs with
  | nil => exact absurd rfl hxs
  | cons x xs =>
    obtain ⟨p, ps, hps, hp⟩ := h.begin x List.mem_cons_self
    cases xs with
    | nil => exact ⟨p, ps, hps, hp⟩
    | cons y ys => exact ⟨p, _, by rw [List.map_cons, List.map_cons, separated, hps]; rfl, hp⟩

theorem itemsUntil_run_close (hc : c.here.kind = .mark close) (k : Nat) (read : List α) :
    itemsUntil close item (k + 1) read c = .ok (read.reverse, c) := by
  rw [itemsUntil, bind_run (isAtMark_run close c), hc]
  simp only [beq_self_eq_true, if_true]
  rfl

theorem Items.itemsUntil_returns (h : Items text close item write same n xs)
    (hclose : (TokenKind.mark close).operator? = none) (hcomma : close ≠ .comma) {k : Nat}
    (hk : xs.length < k) (read : List α)
    (hon : c.On (separated text (xs.map write) ++ .apart text (.mark close) :: rest))
    (hn : (separated text (xs.map write) ++ .apart text (.mark close) :: rest).length < n) :
    (itemsUntil close item k read).Returns c (.apart text (.mark close) :: rest) fun ys =>
      ys.map same = (read.reverse ++ xs).map same := by
  induction xs generalizing k read c with
  | nil =>
    obtain ⟨k, rfl⟩ : ∃ m, k = m + 1 := ⟨k - 1, by omega⟩
    exact ⟨_, c, itemsUntil_run_close hon.kind k read, hon, by simp⟩
  | cons x xs ih =>
    obtain ⟨k, rfl⟩ : ∃ m, k = m + 1 := ⟨k - 1, by omega⟩
    obtain ⟨p, ps, hps, hnclose, -⟩ := h.separated_begin (by simp)
    have hhere : (c.here.kind == .mark close) = false := by
      rw [hps] at hon
      rw [hon.kind]
      simpa using hnclose
    have hread := h.read x List.mem_cons_self
    cases xs with
    | nil =>
      obtain ⟨y, d, hrun, hd, hsame⟩ := hread c _ (stops_apart hclose text 0 _) hon hn
      have hother : d.here.kind ≠ .mark .comma := by
        rw [hd.kind]
        simpa [Piece.apart] using hcomma
      refine ⟨(y :: read).reverse, d, ?_, hd, by simp [hsame]⟩
      rw [itemsUntil, bind_run (isAtMark_run close c), hhere]
      simp only [Bool.false_eq_true, if_false, bind_run hrun, bind_run (skipNewlines_run hd.mark_ne_newline),
        bind_run (accept_run_other hother)]
      rfl
    | cons x' xs =>
      -- an item, a comma, and the items after it
      rw [List.map_cons, List.map_cons, separated, List.append_assoc, List.cons_append,
        ← List.map_cons] at hon hn
      obtain ⟨y, d, hrun, hd, hsame⟩ := hread c _ (stops_apart rfl text 0 _) hon hn
      obtain ⟨q, qs, hqs, -, hq⟩ := h.tail.separated_begin (by simp)
      have hnext := hd.next (by simp)
      have hline' : d.next.here.kind ≠ .newline := by
        rw [hqs] at hnext
        rw [hnext.kind]
        exact hq
      obtain ⟨ys, d', hrun', hd', hsame'⟩ := ih h.tail (k := k) (by simpa using hk) (y :: read) hnext
        (by simp only [List.length_append, List.length_cons] at hn ⊢; omega)
      refine ⟨ys, d', ?_, hd', by simpa [hsame] using hsame'⟩
      rw [itemsUntil, bind_run (isAtMark_run close c), hhere]
      simp only [Bool.false_eq_true, if_false, bind_run hrun, bind_run (skipNewlines_run hd.mark_ne_newline),
        bind_run (accept_run hd.kind), if_true, bind_run (skipNewlines_run hline'), hrun']

theorem Items.length_le (h : Items text close item write same n xs) :
    xs.length ≤ (separated text (xs.map write)).length := by
  induction xs with
  | nil => simp
  | cons x xs ih =>
    obtain ⟨p, ps, hps, -⟩ := h.begin x List.mem_cons_self
    have hle := ih h.tail
    cases xs with
    | nil => simp [separated, hps]
    | cons x' xs =>
      simp only [List.map_cons, separated, List.length_append, List.length_cons] at hle ⊢
      omega

theorem Items.bracketed_returns (h : Items text close item write same n xs)
    (hclose : (TokenKind.mark close).operator? = none) (hcomma : close ≠ .comma) (hrest : rest ≠ [])
    (hon : c.On (separated text (xs.map write) ++ .apart text (.mark close) :: rest))
    (hn : (separated text (xs.map write) ++ .apart text (.mark close) :: rest).length < n) :
    (bracketed n close item).Returns c rest fun ys => ys.map same = xs.map same := by
  have hline : c.here.kind ≠ .newline := by
    by_cases hxs : xs = []
    · subst hxs
      exact Cursor.On.mark_ne_newline hon
    · obtain ⟨p, ps, hps, -, hp⟩ := h.separated_begin hxs
      rw [hps] at hon
      rw [hon.kind]
      exact hp
  have hlength := h.length_le
  obtain ⟨ys, d, hrun, hd, hsame⟩ := h.itemsUntil_returns hclose hcomma (k := n)
    (by simp only [List.length_append, List.length_cons] at hn; omega) [] hon hn
  refine ⟨ys, d.next, ?_, hd.next hrest, by simpa using hsame⟩
  rw [bracketed, bind_run (skipNewlines_run hline), bind_run hrun, bind_run (expect_run hd.kind)]
  rfl

end

/-! ## Inner expressions -/

/-- Inner expressions are read back, from fewer than `n` pieces. -/
structure Inner.Recovers (text : TokenKind → String) (inner : Inner) (n : Nat) : Prop where
  expression : ∀ (d : Nat) (e : Expr) (c : Cursor) (rest : List Piece), e.WellShaped →
    e.nesting + d < maxNesting → Stops 0 rest → c.On (e.pieces text ++ rest) →
    (e.pieces text ++ rest).length < n → (inner.expression d).Recovers e c rest
  unary : ∀ (i d : Nat) (e : Expr) (c : Cursor) (rest : List Piece), e.WellShaped →
    e.binaryOp? = none → e.nesting + d ≤ maxNesting → Stops i rest →
    c.On (e.pieces text ++ rest) → (e.pieces text ++ rest).length < n →
    (inner.unary d).Recovers e c rest

theorem objectKey_run {x : String} (h : c.here.kind = .string x) : objectKey c = .ok (x, c.next) := by
  rw [objectKey, bind_run (peek_run c), h]
  exact bind_run (advance_run c)

theorem variableName_run {x : String} (h : c.here.kind = .variable x) (w : Wanted) :
    variableName w c = .ok (x, c.next) := by
  have hname : variableName? c = .ok (some x, c.next) := by
    rw [variableName?, bind_run (peek_run c), h]
    exact bind_run (advance_run c)
  rw [variableName, bind_run hname]
  rfl

theorem begins_apart {k : TokenKind} (h : k.begins = true) {m : Mark}
    (hm : (TokenKind.mark m).begins = false) : k ≠ .mark m ∧ k ≠ .newline := by
  constructor
  · rintro rfl
    simp [hm] at h
  · rintro rfl
    cases h

section

variable {inner : Inner} {n depth : Nat} (hinner : inner.Recovers text n)
include hinner

theorem items_of_inner {close : Mark} (hclose : (TokenKind.mark close).begins = false)
    {es : List Expr} (hes : ∀ e ∈ es, e.WellShaped)
    (hdepth : itemsNesting es + depth ≤ maxNesting) :
    Items text close (inner.expression depth) (·.pieces text) Expr.unplaced n es where
  begin e _ := by
    obtain ⟨p, ps, hps, hp⟩ := e.pieces_begin text
    exact ⟨p, ps, hps, begins_apart hp hclose⟩
  read e he d rest hrest hon hn := by
    have := nesting_item he
    exact hinner.expression depth e d rest (hes e he) (by omega) hrest hon hn

theorem objectField_returns {f : String × Expr} (hf : f.2.WellShaped)
    (hdepth : f.2.nesting + depth < maxNesting) (hrest : Stops 0 rest)
    (hon : c.On (fieldPiece text f ++ rest)) (hn : (fieldPiece text f ++ rest).length < n) :
    (objectField (inner.expression depth)).Returns c rest fun g =>
      (g.1, g.2.unplaced) = (f.1, f.2.unplaced) := by
  have hcolon := hon.next (by simp)
  have hvalue := hcolon.next (by simp [hrest.ne_nil])
  obtain ⟨e, d, hrun, hd, hsame⟩ := hinner.expression depth f.2 _ rest hf hdepth hrest hvalue
    (by simp only [fieldPiece, List.cons_append, List.length_cons] at hn; omega)
  refine ⟨(f.1, e), d, ?_, hd, by simp [hsame]⟩
  rw [objectField, bind_run (objectKey_run hon.kind), bind_run (expect_run hcolon.kind),
    bind_run (skipNewlines_on hvalue), bind_run hrun]
  rfl

theorem fields_of_inner {fs : List (String × Expr)} (hfs : ∀ f ∈ fs, f.2.WellShaped)
    (hdepth : fieldsNesting fs + depth ≤ maxNesting) :
    Items text .closeBrace (objectField (inner.expression depth)) (fieldPiece text)
      (fun f => (f.1, f.2.unplaced)) n fs where
  begin f _ := ⟨_, _, rfl, by simp [Piece.apart], by simp [Piece.apart]⟩
  read f hf d rest hrest hon hn := by
    have := nesting_field hf
    exact objectField_returns hinner (hfs f hf) (by omega) hrest hon hn

theorem callTail_returns {x : String} {args : List Expr} (hargs : ∀ e ∈ args, e.WellShaped)
    (hdepth : itemsNesting args + depth ≤ maxNesting) (hrest : rest ≠ [])
    (hon : c.On (.apart text (.variable x) :: .joined text (.mark .openParen) ::
      (itemPieces text args ++ .apart text (.mark .closeParen) :: rest)))
    (hn : (itemPieces text args ++ .apart text (.mark .closeParen) :: rest).length < n) :
    (callTail n inner depth).Returns c rest fun q =>
      q.1 = x ∧ q.2.map Expr.unplaced = args.map Expr.unplaced := by
  have hopen := hon.next (by simp)
  have hitems := hopen.next (by simp)
  rw [itemPieces_eq] at hitems hn
  obtain ⟨ys, d, hrun, hd, hsame⟩ :=
    (items_of_inner hinner rfl hargs hdepth).bracketed_returns rfl (by decide) hrest hitems hn
  have hflush : (c.next.here.kind == .mark .openParen && c.next.adjacent) = true := by
    rw [hopen.kind, hopen.adjacent]
    rfl
  refine ⟨(x, ys), d, ?_, hd, rfl, hsame⟩
  rw [callTail, bind_run (variableName_run hon.kind .callee), bind_run (atFlushParen_run c.next),
    hflush]
  have hparen : parenArgs n (inner.expression depth) c.next = .ok (ys, d) := by
    rw [parenArgs, bind_run (expect_run hopen.kind), hrun]
  simp only [if_true, bind_run hparen]
  rfl

/-! ## Operands -/

omit hinner in
theorem primary_literal {pos : Position} {v : Literal} (hrest : rest ≠ [])
    (hon : c.On ((Expr.literal pos v).pieces text ++ rest)) :
    (primary n inner depth).Recovers (.literal pos v) c rest := by
  refine ⟨.literal c.here.pos v, c.next, ?_, hon.next hrest, rfl⟩
  have hk : c.here.kind = v.kind := hon.kind
  rw [primary, bind_run (peek_run c)]
  cases v with
  | bool b => cases b <;> (simp only [hk, Literal.kind]; exact bind_run (advance_run c))
  | _ => simp only [hk, Literal.kind]; exact bind_run (advance_run c)

omit hinner in
theorem primary_var {pos : Position} {x : String} (hrest : rest ≠ [])
    (hon : c.On ((Expr.var pos x).pieces text ++ rest)) :
    (primary n inner depth).Recovers (.var pos x) c rest := by
  refine ⟨.var c.here.pos x, c.next, ?_, hon.next hrest, rfl⟩
  have hk : c.here.kind = .variable x := hon.kind
  rw [primary, bind_run (peek_run c)]
  simp only [hk]
  exact bind_run (advance_run c)

omit hinner in
theorem primary_template {pos : Position} {parts : List TextPart} (hrest : rest ≠ [])
    (hon : c.On ((Expr.template pos parts).pieces text ++ rest)) :
    (primary n inner depth).Recovers (.template pos parts) c rest := by
  refine ⟨.template c.here.pos parts, c.next, ?_, hon.next hrest, rfl⟩
  have hk : c.here.kind = .template parts := hon.kind
  rw [primary, bind_run (peek_run c)]
  simp only [hk]
  exact bind_run (advance_run c)

theorem primary_call {pos : Position} {x : String} {args : List Expr}
    (hargs : ∀ e ∈ args, e.WellShaped) (hdepth : itemsNesting args + depth ≤ maxNesting)
    (hrest : rest ≠ []) (hon : c.On ((Expr.call pos x args).pieces text ++ rest))
    (hn : ((Expr.call pos x args).pieces text ++ rest).length ≤ n) :
    (primary n inner depth).Recovers (.call pos x args) c rest := by
  simp only [Expr.pieces, List.cons_append, List.append_assoc, List.nil_append] at hon hn
  have hk : c.here.kind = .keyword .call := hon.kind
  obtain ⟨⟨y, ys⟩, d, hrun, hd, rfl, hsame⟩ := callTail_returns hinner hargs hdepth hrest
    (hon.next (by simp)) (by simp only [List.length_cons] at hn; omega)
  refine ⟨.call c.here.pos y ys, d, ?_, hd, by simpa [Expr.unplaced, unplacedItems_eq] using hsame⟩
  rw [primary, bind_run (peek_run c)]
  simp only [hk, bind_run (advance_run c), bind_run hrun]
  rfl

theorem primary_array {pos : Position} {items : List Expr}
    (hitems : ∀ e ∈ items, e.WellShaped) (hdepth : itemsNesting items + depth ≤ maxNesting)
    (hrest : rest ≠ []) (hon : c.On ((Expr.array pos items).pieces text ++ rest))
    (hn : ((Expr.array pos items).pieces text ++ rest).length ≤ n) :
    (primary n inner depth).Recovers (.array pos items) c rest := by
  simp only [Expr.pieces, itemPieces_eq, List.cons_append, List.append_assoc,
    List.nil_append] at hon hn
  have hk : c.here.kind = .mark .openBracket := hon.kind
  obtain ⟨ys, d, hrun, hd, hsame⟩ :=
    (items_of_inner hinner rfl hitems hdepth).bracketed_returns rfl (by decide) hrest
      (hon.next (by simp)) (by simp only [List.length_cons] at hn; omega)
  refine ⟨.array c.here.pos ys, d, ?_, hd, by simpa [Expr.unplaced, unplacedItems_eq] using hsame⟩
  rw [primary, bind_run (peek_run c)]
  simp only [hk, bind_run (advance_run c), bind_run hrun]
  rfl

theorem primary_object {pos : Position} {fields : List (String × Expr)}
    (hfields : ∀ f ∈ fields, f.2.WellShaped) (hdepth : fieldsNesting fields + depth ≤ maxNesting)
    (hrest : rest ≠ []) (hon : c.On ((Expr.object pos fields).pieces text ++ rest))
    (hn : ((Expr.object pos fields).pieces text ++ rest).length ≤ n) :
    (primary n inner depth).Recovers (.object pos fields) c rest := by
  simp only [Expr.pieces, fieldPieces_eq, List.cons_append, List.append_assoc,
    List.nil_append] at hon hn
  have hk : c.here.kind = .mark .openBrace := hon.kind
  obtain ⟨gs, d, hrun, hd, hsame⟩ :=
    (fields_of_inner hinner hfields hdepth).bracketed_returns rfl (by decide) hrest
      (hon.next (by simp)) (by simp only [List.length_cons] at hn; omega)
  refine ⟨.object c.here.pos gs, d, ?_, hd, by simpa [Expr.unplaced, unplacedFields_eq] using hsame⟩
  rw [primary, bind_run (peek_run c)]
  simp only [hk, bind_run (advance_run c), bind_run hrun]
  rfl

theorem primary_group {pos : Position} {x : Expr} (hx : x.WellShaped)
    (hdepth : x.nesting + depth < maxNesting) (hrest : rest ≠ [])
    (hon : c.On ((Expr.group pos x).pieces text ++ rest))
    (hn : ((Expr.group pos x).pieces text ++ rest).length ≤ n) :
    (primary n inner depth).Recovers (.group pos x) c rest := by
  simp only [Expr.pieces, List.cons_append, List.append_assoc, List.nil_append] at hon hn
  have hk : c.here.kind = .mark .openParen := hon.kind
  have hnext := hon.next (by simp)
  obtain ⟨x', d, hrun, hd, hsame⟩ := hinner.expression depth x _ _ hx hdepth
    (stops_apart rfl text 0 rest) hnext (by simp only [List.length_cons] at hn; omega)
  refine ⟨.group c.here.pos x', d.next, ?_, hd.next hrest, by simp [Expr.unplaced, hsame]⟩
  rw [primary, bind_run (peek_run c)]
  simp only [hk, bind_run (advance_run c), bind_run (skipNewlines_on hnext), bind_run hrun,
    bind_run (skipNewlines_run hd.mark_ne_newline), bind_run (expect_run hd.kind)]
  rfl

/-- An operand, up to the place where members and indices may go on. -/
theorem operand_reaches {e : Expr} (hshaped : e.WellShaped)
    (hop : e.binaryOp? = none ∧ e.unaryOp? = none)
    (hdepth : e.nesting + depth ≤ maxNesting) (hrest : rest ≠ [])
    (hon : c.On (e.pieces text ++ rest)) (hn : (e.pieces text ++ rest).length ≤ n) :
    (primary n inner depth >>= suffixes (inner.expression depth) n).Reaches
      (suffixes (inner.expression depth)) e c rest := by
  have hlength : rest.length ≤ n := by
    simp only [List.length_append] at hn
    omega
  obtain ⟨hhere, hparts⟩ := Expr.wellShaped_iff.mp hshaped
  induction e using Expr.induction generalizing rest with
  | h e ih =>
    cases e with
    | binary => cases hop.1
    | unary => cases hop.2
    | literal pos v => exact (primary_literal hrest hon).reaches hlength
    | var pos x => exact (primary_var hrest hon).reaches hlength
    | template pos parts => exact (primary_template hrest hon).reaches hlength
    | call pos x args =>
      exact (primary_call hinner hparts hdepth hrest hon hn).reaches hlength
    | array pos items =>
      exact (primary_array hinner hparts hdepth hrest hon hn).reaches hlength
    | object pos fields =>
      have hfields : ∀ f ∈ fields, f.2.WellShaped := fun f hf =>
        hparts f.2 (List.mem_map_of_mem hf)
      exact (primary_object hinner hfields hdepth hrest hon hn).reaches hlength
    | group pos x =>
      rw [Expr.nesting] at hdepth
      exact (primary_group hinner (hparts x (by simp [Expr.children])) (by omega) hrest hon hn).reaches
        hlength
    | member pos x name =>
      simp only [Expr.pieces, List.append_assoc, List.cons_append, List.nil_append] at hon hn
      have hx : x ∈ (Expr.member pos x name).children := List.mem_singleton_self x
      obtain ⟨hxhere, hxparts⟩ := Expr.wellShaped_iff.mp (hparts x hx)
      refine Reaches.member (ih x hx (hparts x hx) hhere hdepth (by simp) hon hn ?_ hxhere hxparts)
        hrest
      simp only [List.length_append] at hn
      omega
    | index pos x i =>
      simp only [Expr.pieces, List.append_assoc, List.cons_append, List.nil_append] at hon hn
      have hx : x ∈ (Expr.index pos x i).children := by simp [Expr.children]
      have hi : i ∈ (Expr.index pos x i).children := by simp [Expr.children]
      obtain ⟨hxhere, hxparts⟩ := Expr.wellShaped_iff.mp (hparts x hx)
      rw [Expr.nesting] at hdepth
      refine Reaches.index (ih x hx (hparts x hx) hhere (by omega) (by simp) hon hn ?_ hxhere hxparts)
        (fun d hd => ?_) hrest
      · simp only [List.length_append] at hn
        omega
      · refine hinner.expression depth i d _ (hparts i hi) (by omega) (stops_apart rfl text 0 rest) hd ?_
        simp only [List.length_append, List.length_cons] at hn ⊢
        omega

/-! ## Prefixes and chains -/

theorem unaryWith_recovers {i : Nat} {e : Expr} (hshaped : e.WellShaped) (hop : e.binaryOp? = none)
    (hdepth : e.nesting + depth ≤ maxNesting) (hrest : Stops i rest)
    (hon : c.On (e.pieces text ++ rest)) (hn : (e.pieces text ++ rest).length ≤ n) :
    (unaryWith n inner depth).Recovers e c rest := by
  by_cases hunary : e.unaryOp? = none
  · -- no prefix: an operand and what is flush after it
    obtain ⟨p, ps, hps, hp⟩ := e.pieces_operand text hshaped ⟨hop, hunary⟩
    have hnone : prefixOp? c.here.kind = none := by
      rw [hps] at hon
      rw [hon.kind, hp]
    have hwith : unaryWith n inner depth c =
        (primary n inner depth >>= suffixes (inner.expression depth) n) c := by
      rw [unaryWith, bind_run (peek_run c), hnone]
    obtain ⟨e', c', hrun, hc', hsame⟩ := Reaches.suffix_stop
      (operand_reaches hinner hshaped ⟨hop, hunary⟩ hdepth hrest.ne_nil hon hn) hrest
    exact ⟨e', c', hwith.trans hrun, hc', hsame⟩
  · cases e with
    | unary pos op x =>
      obtain ⟨hhere, hparts⟩ := Expr.wellShaped_iff.mp hshaped
      rw [Expr.nesting] at hdepth
      have hk : c.here.kind = .mark op.mark := hon.kind
      have hsome : prefixOp? c.here.kind = some op := by
        rw [hk]
        cases op <;> rfl
      obtain ⟨q, qs, hqs, -⟩ := x.pieces_begin text
      have hnext := hon.next (by simp [hqs])
      obtain ⟨x', d, hrun, hd, hsame⟩ := hinner.unary i (depth + 1) x _ rest
        (hparts x (List.mem_singleton_self x)) hhere (by omega) hrest hnext
        (by simp only [Expr.pieces, List.cons_append, List.length_cons] at hn; omega)
      have hnested : nested .expression depth inner.unary c.next = .ok (x', d) := by
        rw [nested, if_neg (by omega), hrun]
      refine ⟨.unary c.here.pos op x', d, ?_, hd, by simp [Expr.unplaced, hsame]⟩
      rw [unaryWith, bind_run (peek_run c), hsome]
      simp only [bind_run (advance_run c), bind_run hnested]
      rfl
    | _ => exact absurd rfl hunary

omit hinner in
/-- A chain of one level: down its left operands, to one that binds more tightly. -/
theorem chain_reaches {op? : TokenKind → Option BinaryOp} {i : Nat}
    (hlevel : ∀ k op, op? k = some op ↔ op.level = i ∧ k.operator? = some op) {operand : Reader Expr}
    (hoperand : ∀ (e : Expr) (c : Cursor) (rest : List Piece), e.WellShaped →
      (∀ op ∈ e.binaryOp?, i + 1 ≤ op.level) → e.nesting + depth ≤ maxNesting →
      Stops (i + 1) rest → c.On (e.pieces text ++ rest) → (e.pieces text ++ rest).length ≤ n →
      operand.Recovers e c rest)
    {e : Expr} (hshaped : e.WellShaped) (hop : ∀ op ∈ e.binaryOp?, i ≤ op.level)
    (hdepth : e.nesting + depth ≤ maxNesting) (hrest : Stops (i + 1) rest)
    (hon : c.On (e.pieces text ++ rest)) (hn : (e.pieces text ++ rest).length ≤ n) :
    (operand >>= chainRest op? operand n).Reaches (chainRest op? operand) e c rest := by
  induction e using Expr.induction generalizing rest with
  | h e ih =>
    by_cases htight : ∀ op ∈ e.binaryOp?, i + 1 ≤ op.level
    · refine Recovers.reaches (hoperand e c rest hshaped htight hdepth hrest hon hn) ?_
      simp only [List.length_append] at hn
      omega
    · cases e with
      | binary pos op l r =>
        have heq : op.level = i := by
          have h₁ : i ≤ op.level := hop op rfl
          have h₂ : ¬ i + 1 ≤ op.level := by simpa [Expr.binaryOp?] using htight
          omega
        obtain ⟨⟨hleft, hright⟩, hparts⟩ := Expr.wellShaped_iff.mp hshaped
        have hl : l ∈ (Expr.binary pos op l r).children := by simp [Expr.children]
        have hr : r ∈ (Expr.binary pos op l r).children := by simp [Expr.children]
        rw [heq] at hleft hright
        rw [Expr.nesting] at hdepth
        simp only [Expr.pieces, List.append_assoc, List.cons_append] at hon hn
        have hstop : Stops (i + 1) (.apart text (.mark op.mark) :: (r.pieces text ++ rest)) := by
          refine ⟨rfl, fun o ho => ?_⟩
          obtain rfl : op = o := by simpa [Piece.apart, op.operator?_mark] using ho
          omega
        refine Reaches.chain_step hlevel heq
          (ih l hl (hparts l hl) hleft (by omega) hstop hon hn) fun d hd => ?_
        refine hoperand r d rest (hparts r hr) hright (by omega) hrest hd ?_
        simp only [List.length_append, List.length_cons] at hn ⊢
        omega
      | _ => exact absurd (by simp [Expr.binaryOp?]) htight

theorem chains_recovers {levels : List (TokenKind → Option BinaryOp)} {i : Nat}
    (hlevels : Leveled i levels) {e : Expr} (hshaped : e.WellShaped)
    (hop : ∀ op ∈ e.binaryOp?, i ≤ op.level) (hdepth : e.nesting + depth ≤ maxNesting)
    (hrest : Stops i rest) (hon : c.On (e.pieces text ++ rest))
    (hn : (e.pieces text ++ rest).length ≤ n) :
    (chains n (unaryWith n inner depth) levels).Recovers e c rest := by
  induction levels generalizing i e c rest with
  | nil =>
    have hnone : e.binaryOp? = none := by
      rw [Option.eq_none_iff_forall_ne_some]
      intro op hsome
      have h₁ := hlevels op
      have h₂ := hop op hsome
      omega
    exact unaryWith_recovers hinner hshaped hnone hdepth hrest hon hn
  | cons op? tighter ih =>
    have hreaches := chain_reaches hlevels.1
      (fun e c rest hshaped hop hdepth hrest hon hn => ih hlevels.2 hshaped hop hdepth hrest hon hn)
      hshaped hop hdepth (hrest.mono (Nat.le_succ i)) hon hn
    exact Reaches.chain_stop hlevels.1 hreaches hrest

end

/-- Both ways to read an inner expression, by induction on the bound that they share. -/
theorem inner_recovers (text : TokenKind → String) (n : Nat) :
    Inner.Recovers text ⟨expression n, unary n⟩ n := by
  induction n with
  | zero => exact ⟨by intros; omega, by intros; omega⟩
  | succ n ih =>
    constructor
    · intro d e c rest hshaped hdepth hrest hon hn
      obtain ⟨e', c', hrun, hc', hsame⟩ := chains_recovers ih operatorLevels_leveled hshaped
        (fun op _ => Nat.zero_le _) (show e.nesting + (d + 1) ≤ maxNesting by omega) hrest hon
        (by omega)
      refine ⟨e', c', ?_, hc', hsame⟩
      show expression (n + 1) d c = _
      rw [expression, nested, if_neg (by omega), hrun]
    · intro i d e c rest hshaped hop hdepth hrest hon hn
      exact unaryWith_recovers ih hshaped hop hdepth hrest hon (by omega)

/-! ## Assignments -/

theorem accessors_run (hdot : c.here.kind ≠ .mark .dot) (hbracket : c.here.kind ≠ .mark .openBracket)
    (expr : Reader Expr) (n : Nat) : accessors expr (n + 1) [] c = .ok ([], c) := by
  rw [accessors, bind_run (accept_run_other hdot)]
  simp only [Bool.false_eq_true, if_false, bind_run (accept_run_other hbracket)]
  rfl

theorem assignment_returns {x : String} (hshaped : e.WellShaped) (hdepth : e.nesting < maxNesting)
    (hrest : Stops 0 rest) {n : Nat} (pos : Position)
    (hon : c.On (.apart text (.variable x) :: .apart text (.mark .equals) :: (e.pieces text ++ rest)))
    (hn : (e.pieces text ++ rest).length < n) :
    (assignment n (expression n 0) pos).Returns c rest fun s =>
      ∃ e', s = .set pos x [] e' ∧ e'.unplaced = e.unplaced := by
  have hequals := hon.next (by simp)
  have hvalue := hequals.next (by simp [hrest.ne_nil])
  obtain ⟨e', d, hrun, hd, hsame⟩ := (inner_recovers text n).expression 0 e _ rest hshaped
    (by omega) hrest hvalue hn
  refine ⟨.set pos x [] e', d, ?_, hd, e', rfl, hsame⟩
  obtain ⟨k, rfl⟩ : ∃ m, n = m + 1 := ⟨n - 1, by omega⟩
  have hpath := accessors_run (c := c.next) (by simp [hequals.kind, Piece.apart])
    (by simp [hequals.kind, Piece.apart])
    (expression (k + 1) 0) k
  rw [assignment, bind_run (variableName_run hon.kind .setVariable), bind_run hpath,
    bind_run (expect_run hequals.kind), bind_run hrun]
  rfl

/-- The pieces of `set $x = e`, up to the end of input. -/
def assignmentPieces (text : TokenKind → String) (x : String) (e : Expr) : List Piece :=
  .apart text (.keyword .set) :: .apart text (.variable x) :: .apart text (.mark .equals) ::
    (e.pieces text ++ [.apart text .eof])

theorem program_returns {x : String} (hshaped : e.WellShaped) (hdepth : e.nesting < maxNesting)
    {n : Nat} (hon : c.On (assignmentPieces text x e))
    (hn : (assignmentPieces text x e).length < n) :
    (program n).Returns c [.apart text .eof] fun b =>
      ∃ e', b = .mk c.here.pos [.set c.here.pos x [] e'] ∧ e'.unplaced = e.unplaced := by
  have hk : c.here.kind = .keyword .set := hon.kind
  have hnext := hon.next (by simp)
  have hlength : (e.pieces text ++ [Piece.apart text .eof]).length + 3 < n := hn
  obtain ⟨s, d, hrun, hd, e', rfl, hsame⟩ := assignment_returns hshaped hdepth
    (stops_apart rfl text 0 []) c.here.pos hnext (Nat.lt_of_add_right_lt hlength)
  refine ⟨.mk c.here.pos [.set c.here.pos x [] e'], d, ?_, hd, e', rfl, hsame⟩
  obtain ⟨k, hk'⟩ : ∃ m, n = m + 1 + 1 := ⟨n - 2, by omega⟩
  have hstatement : statement n (body n) 0 c = .ok (.set c.here.pos x [] e', d) := by
    rw [statement, bind_run (get_run c)]
    simp only [hk]
    rw [wordStatement, bind_run (advance_run c)]
    exact hrun
  have hend : endStatement d = .ok ((), d) := by
    have hd' : d.here.kind = .eof := hd.kind
    rw [endStatement, bind_run (get_run d)]
    simp only [hd']
    rfl
  have hlast : ∀ ss, statementsUntil (isAt .eof) (statement n (body n) 0) (k + 1) ss d =
      .ok (ss.reverse, d) := by
    intro ss
    rw [statementsUntil, bind_run (isAt_run .eof d), hd.kind]
    rfl
  have hstatements : statementsUntil (isAt .eof) (statement n (body n) 0) n [] c =
      .ok ([.set c.here.pos x [] e'], d) := by
    rw [hk'] at hstatement hlast ⊢
    rw [statementsUntil, bind_run (isAt_run .eof c), hk]
    simp only [beq_iff_eq, reduceCtorEq, if_false, bind_run hstatement, bind_run hend, hlast]
    rfl
  rw [program, bind_run (peek_run c), bind_run (skipNewlines_run (by simp [hk])), bind_run hstatements]
  rfl

end Reader

/-- Every well-shaped expression that is not nested too deeply is read back from an assignment, up to
places. -/
theorem parse_assignment (text : TokenKind → String) (line column : Nat) (x : String) {e : Expr}
    (hshaped : e.WellShaped) (hdepth : 1 + e.nesting ≤ Reader.maxNesting) :
    ∃ pos e', parse (lay line column (Reader.assignmentPieces text x e)) =
      .ok (.mk pos [.set pos x [] e']) ∧ e'.unplaced = e.unplaced := by
  have hon : (Cursor.ofTokens (lay line column (Reader.assignmentPieces text x e))).On
      (Reader.assignmentPieces text x e) := by
    refine Cursor.on_ofTokens (laid_lay_first rfl line column _) ?_
    simp [Reader.assignmentPieces, Piece.apart, List.getLast?_cons]
  have hlength : (Reader.assignmentPieces text x e).length <
      (Cursor.ofTokens (lay line column (Reader.assignmentPieces text x e))).ahead.length + 2 := by
    rw [← hon.length, Cursor.rest, List.length_cons]
    omega
  obtain ⟨b, c', hrun, -, e', rfl, hsame⟩ := Reader.program_returns hshaped (by omega) hon hlength
  exact ⟨_, e', by rw [parse, hrun]; rfl, hsame⟩

/-- `- $a.size["k"] * ($b - $c - call $f({"k": !true}, $x))`. -/
def product : Expr :=
  .binary .start .mul
    (.unary .start .neg
      (.index .start (.member .start (.var .start "a") "size") (.literal .start (.string "k"))))
    (.group .start (.binary .start .sub
      (.binary .start .sub (.var .start "b") (.var .start "c"))
      (.call .start "f"
        [.object .start [("k", .unary .start .not (.literal .start (.bool true)))],
          .var .start "x"])))

theorem product_wellShaped : product.WellShaped := by
  decide +kernel

theorem parse_assignment_product :
    product.WellShaped ∧ 1 + product.nesting ≤ Reader.maxNesting ∧
      ∃ pos e', parse (lay 1 0 (Reader.assignmentPieces (fun _ => "t") "y" product)) =
        .ok (.mk pos [.set pos "y" [] e']) ∧ e'.unplaced = product.unplaced :=
  ⟨product_wellShaped, by decide,
    parse_assignment (fun _ => "t") 1 0 "y" product_wellShaped (by decide)⟩

end DeskScript
