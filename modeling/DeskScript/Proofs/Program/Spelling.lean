import DeskScript.Proofs.Program.Shape
import DeskScript.Proofs.Program.Yield

/-!
# The tokens of an expression

`Written ts k e` says that the tokens `ts`, in this order, are those of the expression
`e`: an operator stands after the tokens of its left operand and before those of
its right one. Of these tokens, `k` are names that were read as variables without a `$`.
What is read as an expression is written by the tokens read, and all of its nodes are
shaped:

    (expression n depth).Yields ts c fun us k e => Written us k e ∧ e.WellShaped
                                                                        (expression_yields)
-/

namespace DeskScript

/-! ## Tokens on their own -/

namespace TokenKind

/-- The operator between two operands. -/
def operator? : TokenKind → Option BinaryOp
  | .mark .orOr | .keyword .or => some .or
  | .mark .andAnd | .keyword .and => some .and
  | .mark .doubleEquals => some .eq
  | .mark .notEquals => some .ne
  | .mark .less => some .lt
  | .mark .greater => some .gt
  | .mark .lessEquals => some .le
  | .mark .greaterEquals => some .ge
  | .mark .plus => some .add
  | .mark .minus => some .sub
  | .mark .star => some .mul
  | .mark .slash => some .div
  | .mark .percent => some .mod
  | _ => none

/-- The literal that a token is. -/
def literal? : TokenKind → Option Literal
  | .number x => some (.number x)
  | .string s => some (.string s)
  | .keyword .true => some (.bool true)
  | .keyword .false => some (.bool false)
  | .keyword .null => some .null
  | _ => none

/-- The name of a variable or function, with or without a `$`. -/
def name? : TokenKind → Option String
  | .variable x | .ident x => some x
  | _ => none

end TokenKind

/-! ## Tokens of expressions -/

/-- Nothing but line breaks and commas. -/
def Gap (ts : List Token) : Prop := ∀ t ∈ ts, t.kind = .newline ∨ t.kind = .mark .comma

/-- The tokens of things one after the other, with gaps between them. -/
inductive Listed {α : Type} (R : List Token → Nat → α → Prop) : List Token → Nat → List α → Prop
  | nil {gap : List Token} : Gap gap → Listed R gap 0 []
  | cons {gap ts rest : List Token} {j k : Nat} {x : α} {xs : List α} :
      Gap gap → R ts j x → Listed R rest k xs → Listed R (gap ++ ts ++ rest) (j + k) (x :: xs)

/-- The tokens of a field: its key, a colon, and its value. -/
inductive WrittenField (R : List Token → Nat → Expr → Prop) :
    List Token → Nat → String × Expr → Prop
  | mk {t d : Token} {gap ts : List Token} {k : Nat} {x : String} {e : Expr} :
      t.kind = .string x ∨ t.lexeme = x → d.kind = .mark .colon → Blank gap → R ts k e →
      WrittenField R (t :: d :: (gap ++ ts)) k (x, e)

/-- The tokens of an expression, and how many of them are variables without a `$`. -/
inductive Written : List Token → Nat → Expr → Prop
  | literal {t : Token} {v : Literal} :
      t.kind.literal? = some v → Written [t] 0 (.literal t.pos v)
  | template {t : Token} {parts : List TextPart} :
      t.kind = .template parts → Written [t] 0 (.template t.pos parts)
  | var {t : Token} {x : String} : t.kind = .variable x → Written [t] 0 (.var t.pos x)
  | bare {t : Token} {x : String} : t.kind = .ident x → Written [t] 1 (.var t.pos x)
  | binary {ls rs : List Token} {i j : Nat} {t : Token} {op : BinaryOp} {l r : Expr} :
      Written ls i l → t.kind.operator? = some op → Written rs j r →
      Written (ls ++ t :: rs) (i + j) (.binary l.pos op l r)
  | unary {t : Token} {ts : List Token} {k : Nat} {op : UnaryOp} {e : Expr} :
      Reader.prefixOp? t.kind = some op → Written ts k e →
      Written (t :: ts) k (.unary t.pos op e)
  /-- The word `call`, a name, and arguments in parentheses or not. -/
  | callParen {t f a b : Token} {ts : List Token} {k : Nat} {x : String} {args : List Expr} :
      t.kind = .keyword .call → f.kind.name? = some x → a.kind = .mark .openParen →
      Listed Written ts k args → b.kind = .mark .closeParen →
      Written (t :: f :: a :: (ts ++ [b])) k (.call t.pos x args)
  | callBare {t f : Token} {ts : List Token} {k : Nat} {x : String} {args : List Expr} :
      t.kind = .keyword .call → f.kind.name? = some x → Listed Written ts k args →
      Written (t :: f :: ts) k (.call t.pos x args)
  | named {f a b : Token} {ts : List Token} {k : Nat} {x : String} {args : List Expr} :
      f.kind = .ident x → a.kind = .mark .openParen → Listed Written ts k args →
      b.kind = .mark .closeParen → Written (f :: a :: (ts ++ [b])) k (.call f.pos x args)
  | array {a b : Token} {ts : List Token} {k : Nat} {items : List Expr} :
      a.kind = .mark .openBracket → Listed Written ts k items → b.kind = .mark .closeBracket →
      Written (a :: (ts ++ [b])) k (.array a.pos items)
  | object {a b : Token} {ts : List Token} {k : Nat} {fields : List (String × Expr)} :
      a.kind = .mark .openBrace → Listed (WrittenField Written) ts k fields →
      b.kind = .mark .closeBrace → Written (a :: (ts ++ [b])) k (.object a.pos fields)
  | member {ts : List Token} {k : Nat} {d p : Token} {e : Expr} :
      Written ts k e → d.kind = .mark .dot →
      Written (ts ++ [d, p]) k (.member e.pos e p.lexeme)
  | index {ts us gap gap' : List Token} {i j : Nat} {a b : Token} {e x : Expr} :
      Written ts i e → a.kind = .mark .openBracket → Blank gap → Written us j x → Blank gap' →
      b.kind = .mark .closeBracket →
      Written (ts ++ a :: (gap ++ us ++ gap' ++ [b])) (i + j) (.index e.pos e x)
  | group {a b : Token} {ts gap gap' : List Token} {k : Nat} {e : Expr} :
      a.kind = .mark .openParen → Blank gap → Written ts k e → Blank gap' →
      b.kind = .mark .closeParen → Written (a :: (gap ++ ts ++ gap' ++ [b])) k (.group a.pos e)

/-- The tokens, in this order, are those of the expression. -/
def Spells (ts : List Token) (e : Expr) : Prop := ∃ k, Written ts k e

/-! ## Tokens of parts -/

theorem Gap.append {ts us : List Token} (h : Gap ts) (h' : Gap us) : Gap (ts ++ us) :=
  List.forall_mem_append.mpr ⟨h, h'⟩

theorem Blank.gap {ts : List Token} (h : Blank ts) : Gap ts := fun t ht => .inl (h t ht)

namespace Listed

variable {α : Type} {R S : List Token → Nat → α → Prop} {ts gap : List Token} {k : Nat}
  {xs : List α}

theorem gap_append (h : Listed R ts k xs) (hgap : Gap gap) : Listed R (gap ++ ts) k xs := by
  cases h with
  | nil h => exact .nil (hgap.append h)
  | @cons g us rest i j x xs hg hx hrest =>
    have hcons := Listed.cons (hgap.append hg) hx hrest
    simpa [List.append_assoc] using hcons

theorem cons_next {us : List Token} {j : Nat} {x : α} (hx : R us j x) (h : Listed R ts k xs) :
    Listed R (us ++ ts) (j + k) (x :: xs) := by
  have hcons : Listed R ([] ++ us ++ ts) (j + k) (x :: xs) := .cons (by simp [Gap]) hx h
  simpa using hcons

theorem mono (h : Listed R ts k xs) (hRS : ∀ us j, ∀ x ∈ xs, R us j x → S us j x) :
    Listed S ts k xs := by
  induction h with
  | nil hgap => exact .nil hgap
  | cons hgap hx _ ih =>
    exact .cons hgap (hRS _ _ _ List.mem_cons_self hx)
      (ih fun us j y hy => hRS us j y (List.mem_cons_of_mem _ hy))

/-- Each thing in a list has its own tokens among those of the list. -/
theorem mem (h : Listed R ts k xs) {x : α} (hx : x ∈ xs) : ∃ us j, us <:+: ts ∧ R us j x := by
  induction h with
  | nil _ => cases hx
  | @cons g us rest i j y ys _ hy hrest ih =>
    rcases List.mem_cons.mp hx with rfl | hx
    · exact ⟨us, i, ⟨g, rest, rfl⟩, hy⟩
    · obtain ⟨vs, l, hvs, hR⟩ := ih hx
      exact ⟨vs, l, hvs.trans (List.suffix_append _ _).isInfix, hR⟩

end Listed

/-- The tokens of a part stand among those of the whole. -/
theorem Written.child {ts : List Token} {k : Nat} {e x : Expr} (h : Written ts k e)
    (hx : x ∈ e.children) : ∃ us j, us <:+: ts ∧ Written us j x := by
  -- the tokens between the first one and the last one
  have hinside : ∀ {us vs : List Token} {a b : Token}, us <:+: vs → us <:+: a :: (vs ++ [b]) := by
    intro us vs a b hus
    exact hus.trans ⟨[a], [b], by simp⟩
  cases h with
  | literal => cases hx
  | template => cases hx
  | var => cases hx
  | bare => cases hx
  | @binary ls rs i j t op l r hl _ hr =>
    rcases (by simpa [Expr.children] using hx : x = l ∨ x = r) with rfl | rfl
    · exact ⟨ls, i, (List.prefix_append _ _).isInfix, hl⟩
    · exact ⟨rs, j, ⟨ls ++ [t], [], by simp⟩, hr⟩
  | @unary t ts k op e _ he =>
    obtain rfl := List.mem_singleton.mp hx
    exact ⟨ts, k, (List.suffix_cons _ _).isInfix, he⟩
  | @callParen t f a b ts k x args _ _ _ hargs _ =>
    obtain ⟨us, j, hus, hwritten⟩ := hargs.mem hx
    exact ⟨us, j, hus.trans ⟨[t, f, a], [b], by simp⟩, hwritten⟩
  | @callBare t f ts k x args _ _ hargs =>
    obtain ⟨us, j, hus, hwritten⟩ := hargs.mem hx
    exact ⟨us, j, hus.trans ⟨[t, f], [], by simp⟩, hwritten⟩
  | named _ _ hargs _ =>
    obtain ⟨us, j, hus, hwritten⟩ := hargs.mem hx
    exact ⟨us, j, (hinside hus).trans (List.suffix_cons _ _).isInfix, hwritten⟩
  | array _ hitems _ =>
    obtain ⟨us, j, hus, hwritten⟩ := hitems.mem hx
    exact ⟨us, j, hinside hus, hwritten⟩
  | object _ hfields _ =>
    obtain ⟨p, hp, rfl⟩ := List.mem_map.mp hx
    obtain ⟨us, j, hus, hfield⟩ := hfields.mem hp
    cases hfield with
    | @mk t d gap vs j x e _ _ _ hwritten =>
      refine ⟨vs, j, hinside (List.IsInfix.trans ?_ hus), hwritten⟩
      exact ⟨t :: d :: gap, [], by simp⟩
  | @member ts k d p e he _ =>
    obtain rfl := List.mem_singleton.mp hx
    exact ⟨ts, k, (List.prefix_append _ _).isInfix, he⟩
  | @index ts us gap gap' i j a b e y he _ _ hy _ _ =>
    rcases (by simpa [Expr.children] using hx : x = e ∨ x = y) with rfl | rfl
    · exact ⟨ts, i, (List.prefix_append _ _).isInfix, he⟩
    · exact ⟨us, j, ⟨ts ++ a :: gap, gap' ++ [b], by simp⟩, hy⟩
  | @group a b ts gap gap' k e _ _ he _ _ =>
    obtain rfl := List.mem_singleton.mp hx
    exact ⟨ts, k, ⟨a :: gap, gap' ++ [b], by simp⟩, he⟩

theorem Written.node {ts : List Token} {k : Nat} {e n : Expr} (h : Written ts k e)
    (hn : n ∈ e.nodes) : ∃ us j, us <:+: ts ∧ Written us j n := by
  induction e using Expr.induction generalizing ts k with
  | h e ih =>
    rcases Expr.mem_nodes.mp hn with rfl | ⟨x, hx, hn⟩
    · exact ⟨ts, k, List.infix_rfl, h⟩
    · obtain ⟨us, j, hus, hwritten⟩ := h.child hx
      obtain ⟨vs, l, hvs, hwritten⟩ := ih x hx hwritten hn
      exact ⟨vs, l, hvs.trans hus, hwritten⟩

/-- An expression has the place of its first token. -/
theorem Written.head {ts : List Token} {k : Nat} {e : Expr} (h : Written ts k e) :
    ∃ t us, ts = t :: us ∧ t.pos = e.pos := by
  induction e using Expr.induction generalizing ts k with
  | h e ih =>
    -- the tokens of a first part begin those of the whole
    have hfirst {us vs : List Token} {j : Nat} {x : Expr} (hus : Written us j x)
        (hx : x ∈ e.children) (hpos : x.pos = e.pos) :
        ∃ t ws, us ++ vs = t :: ws ∧ t.pos = e.pos := by
      obtain ⟨t, ws, rfl, ht⟩ := ih x hx hus
      exact ⟨t, ws ++ vs, rfl, ht.trans hpos⟩
    cases h with
    | binary hl _ _ => exact hfirst hl (by simp [Expr.children]) rfl
    | member he _ => exact hfirst he (by simp [Expr.children]) rfl
    | index he _ _ _ _ _ => exact hfirst he (by simp [Expr.children]) rfl
    | _ => exact ⟨_, _, rfl, rfl⟩

/-! ## What is read -/

/-- The tokens of a well-shaped expression. -/
structure Spelled (ts : List Token) (k : Nat) (e : Expr) : Prop where
  written : Written ts k e
  shaped : e.WellShaped

/-- The tokens of an expression that binds at least as tightly as operators of a level. -/
structure SpelledAt (level : Nat) (ts : List Token) (k : Nat) (e : Expr) : Prop
    extends Spelled ts k e where
  binds : ∀ op ∈ e.binaryOp?, level ≤ op.level

/-- The tokens of an expression that is no chain of operators. -/
structure SpelledUnary (ts : List Token) (k : Nat) (e : Expr) : Prop extends Spelled ts k e where
  unchained : e.binaryOp? = none

/-- The tokens of an expression that may have a member or an index. -/
structure SpelledOperand (ts : List Token) (k : Nat) (e : Expr) : Prop
    extends SpelledUnary ts k e where
  unprefixed : e.unaryOp? = none

/-- The operators of all levels from `i` on, by level. -/
def Leveled (i : Nat) : List (TokenKind → Option BinaryOp) → Prop
  | [] => ∀ op : BinaryOp, op.level < i
  | op? :: tighter =>
    (∀ k op, op? k = some op ↔ op.level = i ∧ k.operator? = some op) ∧ Leveled (i + 1) tighter

/-- Tokens of a node whose parts have their places by its shape. -/
theorem Written.spelled {ts : List Token} {k : Nat} {e : Expr} (h : Written ts k e)
    (hshaped : e.Shaped) (hchildren : ∀ x ∈ e.children, x.WellShaped) : Spelled ts k e :=
  ⟨h, Expr.wellShaped_iff.mpr ⟨hshaped, hchildren⟩⟩

theorem listed_spelled {ts : List Token} {k : Nat} {xs : List Expr} (h : Listed Spelled ts k xs) :
    Listed Written ts k xs ∧ ∀ x ∈ xs, x.WellShaped := by
  refine ⟨h.mono fun us j x _ hx => hx.written, fun x hx => ?_⟩
  obtain ⟨us, j, -, hspelled⟩ := h.mem hx
  exact hspelled.shaped

theorem listed_fields {ts : List Token} {k : Nat} {fields : List (String × Expr)}
    (h : Listed (WrittenField Spelled) ts k fields) :
    Listed (WrittenField Written) ts k fields ∧ ∀ x ∈ fields.map (·.2), x.WellShaped := by
  refine ⟨h.mono fun us j p _ hp => ?_, fun x hx => ?_⟩
  · cases hp with
    | mk hk hd hgap he => exact .mk hk hd hgap he.written
  · obtain ⟨p, hp, rfl⟩ := List.mem_map.mp hx
    obtain ⟨us, j, -, hfield⟩ := h.mem hp
    cases hfield with
    | mk _ _ _ he => exact he.shaped

namespace Reader

theorem operatorLevels_leveled : Leveled 0 operatorLevels := by
  refine ⟨?_, ?_, ?_, ?_, ?_, ?_, fun op => by cases op <;> decide⟩ <;>
  · intro k op
    constructor
    · intro h
      simp only [orOp?, andOp?, equalityOp?, comparisonOp?, termOp?, factorOp?] at h
      split at h <;> cases h <;> exact ⟨rfl, rfl⟩
    · rintro ⟨hlevel, h⟩
      unfold TokenKind.operator? at h
      split at h <;> cases h <;> first | rfl | cases hlevel

variable {ts : List Token}

/-! ## Chains -/

theorem chainRest_yields {op? : TokenKind → Option BinaryOp} {i : Nat}
    (hop : ∀ k op, op? k = some op ↔ op.level = i ∧ k.operator? = some op) {operand : Reader Expr}
    (hoperand : ∀ c, operand.Yields ts c (SpelledAt (i + 1))) (n : Nat) {left : Expr}
    {ls : List Token} {k : Nat} (hleft : SpelledAt i ls k left) (c : Cursor) :
    (chainRest op? operand n left).Yields ts c fun us j => SpelledAt i (ls ++ us) (k + j) := by
  induction n generalizing left ls k c with
  | zero => exact yields_fail _
  | succ n ih =>
    refine Yields.look (peek_run c) ?_
    split
    · exact yields_pure (by simpa using hleft)
    · next op hk =>
      obtain ⟨hlevel, hoperator⟩ := (hop _ _).mp hk
      have hne : c.here.kind ≠ .eof := fun heof => by simp [heof, TokenKind.operator?] at hoperator
      refine yields_advance hne ((hoperand _).bind fun rs j right c' hright => ?_)
      -- the operand so far and the next one make one operand of the rest
      have hboth : SpelledAt i (ls ++ c.here :: rs) (k + j) (.binary left.pos op left right) := by
        refine ⟨(Written.binary hleft.written hoperator hright.written).spelled ⟨?_, ?_⟩ ?_, ?_⟩
        · rw [hlevel]
          exact hleft.binds
        · rw [hlevel]
          exact hright.binds
        · simp [Expr.children, hleft.shaped, hright.shaped]
        · simp [Expr.binaryOp?, hlevel]
      simpa [Nat.add_assoc] using ih hboth c'

theorem chains_yields {n i : Nat} {operand : Reader Expr}
    {levels : List (TokenKind → Option BinaryOp)} (hlevels : Leveled i levels)
    (hoperand : ∀ c, operand.Yields ts c SpelledUnary) (c : Cursor) :
    (chains n operand levels).Yields ts c (SpelledAt i) := by
  induction levels generalizing i c with
  | nil => exact (hoperand c).mono fun us k e he => ⟨he.toSpelled, by simp [he.unchained]⟩
  | cons op? tighter ih =>
    refine (ih hlevels.2 c).bind fun ls k left c' hleft => ?_
    refine chainRest_yields hlevels.1 (ih hlevels.2) n ⟨hleft.toSpelled, fun op hop => ?_⟩ c'
    exact Nat.le_of_succ_le (hleft.binds op hop)

/-! ## Lists -/

theorem itemsUntil_yields {α : Type} {R : List Token → Nat → α → Prop} {item : Reader α}
    (hitem : ∀ c, item.Yields ts c R) (close : Mark) (n : Nat) (read : List α) (c : Cursor) :
    (itemsUntil close item n read).Yields ts c fun us k xs =>
      ∃ ys, xs = read.reverse ++ ys ∧ Listed R us k ys := by
  induction n generalizing read c with
  | zero => exact yields_fail _
  | succ n ih =>
    refine Yields.look (isAtMark_run close c) (yields_ite (fun _ => ?_) fun _ => ?_)
    · exact yields_pure ⟨[], by simp, .nil (by simp [Gap])⟩
    · refine (hitem c).bind fun us k x c₁ hx => skipNewlines_yields.bind ?_
      rintro gap _ _ c₂ ⟨hgap, rfl⟩
      refine (accept_yields _).bind ?_
      rintro vs _ b c₃ ⟨rfl, hb⟩
      cases b with
      | true =>
        obtain ⟨t, rfl, ht⟩ : ∃ t, vs = [t] ∧ t.kind = .mark .comma := hb
        refine skipNewlines_yields.bind ?_
        rintro gap' _ _ c₄ ⟨hgap', rfl⟩
        refine (ih (x :: read) c₄).mono ?_
        rintro ws j _ ⟨ys, rfl, hys⟩
        have hbetween : Gap (gap ++ t :: gap') :=
          hgap.gap.append (List.forall_mem_cons.mpr ⟨.inr ht, hgap'.gap⟩)
        refine ⟨x :: ys, by simp, ?_⟩
        simpa using Listed.cons_next hx (hys.gap_append hbetween)
      | false =>
        obtain rfl : vs = [] := hb
        refine yields_pure ⟨[x], by simp, ?_⟩
        simpa using Listed.cons_next hx (.nil hgap.gap)

theorem bracketed_yields {α : Type} {R : List Token → Nat → α → Prop} {item : Reader α}
    (hitem : ∀ c, item.Yields ts c R) (n : Nat) (close : Mark) (c : Cursor) :
    (bracketed n close item).Yields ts c fun us k xs =>
      ∃ vs b, us = vs ++ [b] ∧ b.kind = .mark close ∧ Listed R vs k xs := by
  refine skipNewlines_yields.bind ?_
  rintro gap _ _ c₁ ⟨hgap, rfl⟩
  refine (itemsUntil_yields hitem close n [] c₁).bind ?_
  rintro us k _ c₂ ⟨ys, rfl, hys⟩
  refine (expect_yields _).bind ?_
  rintro _ _ b c₃ ⟨rfl, rfl, hb⟩
  exact yields_pure ⟨gap ++ us, b, by simp, hb, by simpa using hys.gap_append hgap.gap⟩

theorem objectKey_yields (c : Cursor) : objectKey.Yields ts c fun us k x =>
    ∃ t, us = [t] ∧ k = 0 ∧ (t.kind = .string x ∨ t.lexeme = x) := by
  refine Yields.look (peek_run c) ?_
  split
  case h_1 hk | h_2 hk | h_3 hk =>
    exact yields_advance (by simp [hk]) (yields_pure ⟨_, rfl, rfl, .inr rfl⟩)
  case h_4 hk => exact yields_advance (by simp [hk]) (yields_pure ⟨_, rfl, rfl, .inl hk⟩)
  case h_5 => exact yields_want _

theorem objectField_yields {expression : Reader Expr} {R : List Token → Nat → Expr → Prop}
    (he : ∀ c, expression.Yields ts c R) (c : Cursor) :
    (objectField expression).Yields ts c (WrittenField R) := by
  refine (objectKey_yields c).bind ?_
  rintro _ _ x c₁ ⟨t, rfl, rfl, ht⟩
  refine (expect_yields _).bind ?_
  rintro _ _ d c₂ ⟨rfl, rfl, hd⟩
  refine skipNewlines_yields.bind ?_
  rintro gap _ _ c₃ ⟨hgap, rfl⟩
  refine (he c₃).bind fun us k e c₄ hR => yields_pure ?_
  simpa using WrittenField.mk ht hd hgap hR

/-! ## Calls -/

theorem variableName?_yields (c : Cursor) : variableName?.Yields ts c fun us k o =>
    k = 0 ∧ ∀ x ∈ o, ∃ t, us = [t] ∧ t.kind.name? = some x := by
  refine Yields.look (peek_run c) ?_
  split
  case h_1 x hk | h_2 x hk =>
    exact yields_advance (by simp [hk]) (yields_pure ⟨rfl, by simp [hk, TokenKind.name?]⟩)
  case h_3 => exact yields_pure ⟨rfl, by simp⟩

theorem variableName_yields (w : Wanted) (c : Cursor) : (variableName w).Yields ts c fun us k x =>
    ∃ t, us = [t] ∧ k = 0 ∧ t.kind.name? = some x := by
  refine (variableName?_yields c).bind ?_
  rintro us _ o c₁ ⟨rfl, ho⟩
  cases o with
  | some x =>
    obtain ⟨t, rfl, ht⟩ := ho x rfl
    exact yields_pure ⟨t, rfl, rfl, ht⟩
  | none => exact yields_want _

theorem parenArgs_yields {expression : Reader Expr} {R : List Token → Nat → Expr → Prop}
    (he : ∀ c, expression.Yields ts c R) (n : Nat) (c : Cursor) :
    (parenArgs n expression).Yields ts c fun us k args =>
      ∃ a vs b, us = a :: (vs ++ [b]) ∧ a.kind = .mark .openParen ∧ b.kind = .mark .closeParen ∧
        Listed R vs k args := by
  refine (expect_yields _).bind ?_
  rintro _ _ a c₁ ⟨rfl, rfl, ha⟩
  refine (bracketed_yields he n .closeParen c₁).mono ?_
  rintro _ k args ⟨vs, b, rfl, hb, hargs⟩
  exact ⟨a, vs, b, by simp, ha, hb, by simpa using hargs⟩

theorem bareArgs_yields {unary : Reader Expr} {R : List Token → Nat → Expr → Prop}
    (hu : ∀ c, unary.Yields ts c R) (n : Nat) (read : List Expr) (c : Cursor) :
    (bareArgs unary n read).Yields ts c fun us k args =>
      ∃ ys, args = read.reverse ++ ys ∧ Listed R us k ys := by
  induction n generalizing read c with
  | zero => exact yields_fail _
  | succ n ih =>
    refine Yields.look (get_run c) (yields_ite (fun _ => ?_) fun _ => ?_)
    · refine (hu c).bind fun us k x c₁ hx => (accept_yields _).bind ?_
      rintro vs _ b c₂ ⟨rfl, hb⟩
      have hgap : Gap vs := by
        cases b with
        | true =>
          obtain ⟨t, rfl, ht⟩ : ∃ t, vs = [t] ∧ t.kind = .mark .comma := hb
          simp [Gap, ht]
        | false =>
          obtain rfl : vs = [] := hb
          simp [Gap]
      refine (ih (x :: read) c₂).mono ?_
      rintro ws j _ ⟨ys, rfl, hys⟩
      exact ⟨x :: ys, by simp, by simpa using Listed.cons_next hx (hys.gap_append hgap)⟩
    · exact yields_pure ⟨[], by simp, .nil (by simp [Gap])⟩

/-- The tokens of arguments, in parentheses or not. -/
def WrittenArgs (R : List Token → Nat → Expr → Prop) (ts : List Token) (k : Nat)
    (args : List Expr) : Prop :=
  (∃ a us b, ts = a :: (us ++ [b]) ∧ a.kind = .mark .openParen ∧ b.kind = .mark .closeParen ∧
    Listed R us k args) ∨ Listed R ts k args

theorem callTail_yields {inner : Inner} {depth : Nat} {R : List Token → Nat → Expr → Prop}
    (he : ∀ c, (inner.expression depth).Yields ts c R)
    (hu : ∀ c, (inner.unary depth).Yields ts c R) (n : Nat) (c : Cursor) :
    (callTail n inner depth).Yields ts c fun us k p =>
      ∃ f vs, us = f :: vs ∧ f.kind.name? = some p.1 ∧ WrittenArgs R vs k p.2 := by
  refine (variableName_yields _ c).bind ?_
  rintro _ _ x c₁ ⟨f, rfl, rfl, hf⟩
  refine Yields.look (atFlushParen_run c₁) (yields_ite (fun _ => ?_) fun _ => ?_)
  · refine (parenArgs_yields he n c₁).bind fun us k args c₂ hargs => yields_pure ?_
    exact ⟨f, us, by simp, hf, .inl (by simpa using hargs)⟩
  · refine (bareArgs_yields hu n [] c₁).bind ?_
    rintro us k _ c₂ ⟨ys, rfl, hys⟩
    exact yields_pure ⟨f, us, by simp, hf, .inr (by simpa using hys)⟩

/-! ## Operands -/

theorem call_spelled {t f : Token} {us : List Token} {k : Nat} {x : String} {args : List Expr}
    (ht : t.kind = .keyword .call) (hf : f.kind.name? = some x)
    (h : WrittenArgs Spelled us k args) :
    SpelledOperand (t :: f :: us) k (.call t.pos x args) := by
  rcases h with ⟨a, us, b, rfl, ha, hb, hlisted⟩ | hlisted
  · obtain ⟨hwritten, hshaped⟩ := listed_spelled hlisted
    exact ⟨⟨(Written.callParen ht hf ha hwritten hb).spelled trivial hshaped, rfl⟩, rfl⟩
  · obtain ⟨hwritten, hshaped⟩ := listed_spelled hlisted
    exact ⟨⟨(Written.callBare ht hf hwritten).spelled trivial hshaped, rfl⟩, rfl⟩

theorem bareName_yields {inner : Inner} {depth : Nat}
    (he : ∀ c, (inner.expression depth).Yields ts c Spelled) (n : Nat) {t : Token} {x : String}
    (ht : t.kind = .ident x) (c : Cursor) :
    (bareName n inner depth t.pos x).Yields ts c fun us k => SpelledOperand (t :: us) k := by
  refine Yields.look (atFlushParen_run c) (yields_ite (fun _ => ?_) fun _ => ?_)
  · refine (parenArgs_yields he n c).bind ?_
    rintro _ k args c₁ ⟨a, us, b, rfl, ha, hb, hlisted⟩
    obtain ⟨hwritten, hshaped⟩ := listed_spelled hlisted
    refine yields_pure ⟨⟨?_, rfl⟩, rfl⟩
    simpa using (Written.named ht ha hwritten hb).spelled trivial hshaped
  · -- the only variable without `$`, and it is counted
    have hspelled := (Written.bare ht).spelled trivial (by simp [Expr.children])
    exact yields_run rfl (.refl c) rfl ⟨⟨hspelled, rfl⟩, rfl⟩

/-- A token that is an operand on its own. -/
theorem atom_yields {c : Cursor} (hne : c.here.kind ≠ .eof) {e : Expr}
    (h : Written [c.here] 0 e) (hchildren : e.children = []) (hshaped : e.Shaped)
    (hbinary : e.binaryOp? = none) (hunary : e.unaryOp? = none) :
    (do let _ ← advance; return e : Reader Expr).Yields ts c SpelledOperand :=
  yields_advance hne (yields_pure ⟨⟨h.spelled hshaped (by simp [hchildren]), hbinary⟩, hunary⟩)

theorem group_yields {expression : Reader Expr} (he : ∀ c, expression.Yields ts c Spelled)
    {t : Token} (ht : t.kind = .mark .openParen) (c : Cursor) :
    (do
      skipNewlines
      let e ← expression
      skipNewlines
      let _ ← expect .closeParen
      return .group t.pos e : Reader Expr).Yields ts c fun us k => SpelledOperand (t :: us) k := by
  refine skipNewlines_yields.bind ?_
  rintro gap _ _ c₁ ⟨hgap, rfl⟩
  refine (he c₁).bind fun us k e c₂ hspelled => skipNewlines_yields.bind ?_
  rintro gap' _ _ c₃ ⟨hgap', rfl⟩
  refine (expect_yields _).bind ?_
  rintro _ _ b c₄ ⟨rfl, rfl, hb⟩
  refine yields_pure ⟨⟨?_, rfl⟩, rfl⟩
  have hgroup := Written.group ht hgap hspelled.written hgap' hb
  simpa using hgroup.spelled trivial (by simp [Expr.children, hspelled.shaped])

theorem primary_yields {inner : Inner} {depth : Nat}
    (he : ∀ c, (inner.expression depth).Yields ts c Spelled)
    (hu : ∀ c, (inner.unary depth).Yields ts c Spelled) (n : Nat) (c : Cursor) :
    (primary n inner depth).Yields ts c SpelledOperand := by
  refine Yields.look (peek_run c) ?_
  split
  case h_1 v hk | h_2 v hk | h_4 hk | h_5 hk | h_6 hk =>
    exact atom_yields (by simp [hk]) (.literal (by rw [hk]; rfl)) rfl trivial rfl rfl
  case h_3 parts hk => exact atom_yields (by simp [hk]) (.template hk) rfl trivial rfl rfl
  case h_8 name hk => exact atom_yields (by simp [hk]) (.var hk) rfl trivial rfl rfl
  case h_7 hk =>
    refine yields_advance (by simp [hk]) ((callTail_yields he hu n _).bind ?_)
    rintro _ k p c₁ ⟨f, us, rfl, hf, hargs⟩
    exact yields_pure (by simpa using call_spelled hk hf hargs)
  case h_9 name hk => exact yields_advance (by simp [hk]) (bareName_yields he n hk _)
  case h_10 hk => exact yields_advance (by simp [hk]) (group_yields he hk _)
  case h_11 hk =>
    refine yields_advance (by simp [hk]) ((bracketed_yields he n .closeBracket _).bind ?_)
    rintro _ k items c₁ ⟨us, b, rfl, hb, hlisted⟩
    obtain ⟨hwritten, hshaped⟩ := listed_spelled hlisted
    refine yields_pure ⟨⟨?_, rfl⟩, rfl⟩
    simpa using (Written.array hk hwritten hb).spelled trivial hshaped
  case h_12 hk =>
    refine yields_advance (by simp [hk])
      ((bracketed_yields (objectField_yields he) n .closeBrace _).bind ?_)
    rintro _ k fields c₁ ⟨us, b, rfl, hb, hlisted⟩
    obtain ⟨hwritten, hshaped⟩ := listed_fields hlisted
    refine yields_pure ⟨⟨?_, rfl⟩, rfl⟩
    simpa using (Written.object hk hwritten hb).spelled trivial hshaped
  case h_13 => exact yields_unexpected _

theorem propertyName_yields (c : Cursor) : propertyName.Yields ts c fun us k x =>
    ∃ t, us = [t] ∧ k = 0 ∧ t.lexeme = x := by
  refine Yields.look (peek_run c) ?_
  split
  case h_1 hk | h_2 hk => exact yields_advance (by simp [hk]) (yields_pure ⟨_, rfl, rfl, rfl⟩)
  case h_3 => exact yields_want _

theorem suffixes_yields {expression : Reader Expr} (he : ∀ c, expression.Yields ts c Spelled)
    (n : Nat) {e : Expr} {es : List Token} {k : Nat} (hes : SpelledOperand es k e) (c : Cursor) :
    (suffixes expression n e).Yields ts c fun us j => SpelledUnary (es ++ us) (k + j) := by
  induction n generalizing e es k c with
  | zero => exact yields_fail _
  | succ n ih =>
    have hbare : e.binaryOp? = none ∧ e.unaryOp? = none := ⟨hes.unchained, hes.unprefixed⟩
    refine Yields.look (get_run c) (yields_ite (fun hdot => ?_) fun _ =>
      yields_ite (fun hbracket => ?_) fun _ => yields_pure (by simpa using hes.toSpelledUnary))
    · have hk : c.here.kind = .mark .dot := by simpa using (Bool.and_eq_true_iff.mp hdot).1
      refine yields_advance (by simp [hk]) ((propertyName_yields _).bind ?_)
      rintro _ _ _ c₁ ⟨p, rfl, rfl, rfl⟩
      have hmember : SpelledOperand (es ++ [c.here, p]) k (.member e.pos e p.lexeme) := by
        refine ⟨⟨(Written.member hes.written hk).spelled hbare ?_, rfl⟩, rfl⟩
        simp [Expr.children, hes.shaped]
      simpa using ih hmember c₁
    · have hk : c.here.kind = .mark .openBracket := by
        simpa using (Bool.and_eq_true_iff.mp hbracket).1
      refine yields_advance (by simp [hk]) (skipNewlines_yields.bind ?_)
      rintro gap _ _ c₁ ⟨hgap, rfl⟩
      refine (he c₁).bind fun us j x c₂ hx => skipNewlines_yields.bind ?_
      rintro gap' _ _ c₃ ⟨hgap', rfl⟩
      refine (expect_yields _).bind ?_
      rintro _ _ b c₄ ⟨rfl, rfl, hb⟩
      have hindex : SpelledOperand (es ++ c.here :: (gap ++ us ++ gap' ++ [b])) (k + j)
          (.index e.pos e x) := by
        have hwritten := Written.index hes.written hk hgap hx.written hgap' hb
        refine ⟨⟨hwritten.spelled hbare ?_, rfl⟩, rfl⟩
        simp [Expr.children, hes.shaped, hx.shaped]
      simpa [Nat.add_assoc] using ih hindex c₄

/-! ## Expressions -/

/-- The expressions inside a production are read so. -/
structure Inner.Yields (ts : List Token) (inner : Inner) : Prop where
  expression : ∀ depth c, (inner.expression depth).Yields ts c Spelled
  unary : ∀ depth c, (inner.unary depth).Yields ts c SpelledUnary

theorem Inner.Yields.operand {inner : Inner} (h : inner.Yields ts) (depth : Nat) (c : Cursor) :
    (inner.unary depth).Yields ts c Spelled :=
  (h.unary depth c).mono fun _ _ _ he => he.toSpelled

theorem unaryWith_yields {inner : Inner} (hinner : inner.Yields ts) (n depth : Nat) (c : Cursor) :
    (unaryWith n inner depth).Yields ts c SpelledUnary := by
  refine Yields.look (peek_run c) ?_
  split
  · next op hk =>
    have hne : c.here.kind ≠ .eof := fun heof => by simp [heof, prefixOp?] at hk
    refine yields_advance hne ((nested_yields (fun d => hinner.unary d _) _ _).bind
      fun us k e c₁ he => yields_pure ⟨?_, rfl⟩)
    simpa using (Written.unary hk he.written).spelled he.unchained
      (by simp [Expr.children, he.shaped])
  · exact (primary_yields (hinner.expression depth) (hinner.operand depth) n c).bind
      fun es k e c₁ he => suffixes_yields (hinner.expression depth) n he c₁

/-- Both ways to read an expression, by induction on the bound that they share. -/
theorem inner_yields (n : Nat) : (⟨expression n, unary n⟩ : Inner).Yields ts := by
  induction n with
  | zero => exact ⟨fun _ _ => yields_fail _, fun _ _ => yields_fail _⟩
  | succ n ih =>
    refine ⟨fun depth c => ?_, unaryWith_yields ih n⟩
    show (expression (n + 1) depth).Yields ts c Spelled
    rw [expression]
    refine nested_yields (fun d => ?_) _ _
    exact (chains_yields operatorLevels_leveled (unaryWith_yields ih n d) c).mono
      fun _ _ _ he => he.toSpelled

theorem expression_yields (n depth : Nat) (c : Cursor) : (expression n depth).Yields ts c Spelled :=
  (inner_yields n).expression depth c

end Reader

end DeskScript
