import DeskScript.Proofs.Program.Spelling

/-!
# Writing expressions

An expression is written on one line as `pieces`: tokens that have no place yet. The
marks of calls, members and indices stand flush with the token before them, and a
blank stands between all other tokens. `lay` gives the pieces their places:

    Laid (some t) ps (lay t.pos.line t.endColumn ps)                        (laid_lay)

The text of a token is left open, apart from that of a property, which is its name.
-/

namespace DeskScript

/-! ## Pieces -/

/-- A token without a place, and whether it stands flush with the one before it. -/
structure Piece where
  kind : TokenKind
  lexeme : String
  flush : Bool

def Literal.kind : Literal → TokenKind
  | null => .keyword .null
  | bool true => .keyword .true
  | bool false => .keyword .false
  | number x => .number x
  | string s => .string s

def BinaryOp.mark : BinaryOp → Mark
  | or => .orOr
  | and => .andAnd
  | eq => .doubleEquals
  | ne => .notEquals
  | lt => .less
  | gt => .greater
  | le => .lessEquals
  | ge => .greaterEquals
  | add => .plus
  | sub => .minus
  | mul => .star
  | div => .slash
  | mod => .percent

def UnaryOp.mark : UnaryOp → Mark
  | not => .bang
  | neg => .minus

/-- What a word is: a reserved word or a name. -/
def TokenKind.ofWord (s : String) : TokenKind :=
  match Keyword.ofWord? s with
  | some k => .keyword k
  | none => .ident s

section

variable (text : TokenKind → String)

/-- A piece with a blank before it. -/
def Piece.apart (kind : TokenKind) : Piece := ⟨kind, text kind, false⟩

/-- A piece flush with the one before it. -/
def Piece.joined (kind : TokenKind) : Piece := ⟨kind, text kind, true⟩

mutual

def Expr.pieces : Expr → List Piece
  | .literal _ v => [.apart text v.kind]
  | .var _ x => [.apart text (.variable x)]
  | .template _ parts => [.apart text (.template parts)]
  | .binary _ op l r => l.pieces ++ .apart text (.mark op.mark) :: r.pieces
  | .unary _ op e => .apart text (.mark op.mark) :: e.pieces
  | .call _ x args =>
    .apart text (.keyword .call) :: .apart text (.variable x) ::
      .joined text (.mark .openParen) :: (itemPieces args ++ [.apart text (.mark .closeParen)])
  | .array _ items =>
    .apart text (.mark .openBracket) :: (itemPieces items ++ [.apart text (.mark .closeBracket)])
  | .object _ fields =>
    .apart text (.mark .openBrace) :: (fieldPieces fields ++ [.apart text (.mark .closeBrace)])
  | .member _ e x => e.pieces ++ [.joined text (.mark .dot), ⟨.ofWord x, x, false⟩]
  | .index _ e i =>
    e.pieces ++ .joined text (.mark .openBracket) :: (i.pieces ++ [.apart text (.mark .closeBracket)])
  | .group _ e => .apart text (.mark .openParen) :: (e.pieces ++ [.apart text (.mark .closeParen)])

def itemPieces : List Expr → List Piece
  | [] => []
  | [e] => e.pieces
  | e :: e' :: es => e.pieces ++ .apart text (.mark .comma) :: itemPieces (e' :: es)

def fieldPieces : List (String × Expr) → List Piece
  | [] => []
  | [(x, e)] => .apart text (.string x) :: .apart text (.mark .colon) :: e.pieces
  | (x, e) :: f :: fs =>
    .apart text (.string x) :: .apart text (.mark .colon) ::
      (e.pieces ++ .apart text (.mark .comma) :: fieldPieces (f :: fs))

end

end

/-- Lists of pieces with commas between them. -/
def separated (text : TokenKind → String) : List (List Piece) → List Piece
  | [] => []
  | [w] => w
  | w :: w' :: ws => w ++ .apart text (.mark .comma) :: separated text (w' :: ws)

def fieldPiece (text : TokenKind → String) (f : String × Expr) : List Piece :=
  .apart text (.string f.1) :: .apart text (.mark .colon) :: f.2.pieces text

theorem itemPieces_eq (text : TokenKind → String) (es : List Expr) :
    itemPieces text es = separated text (es.map (·.pieces text)) := by
  induction es with
  | nil => rfl
  | cons e es ih =>
    cases es with
    | nil => rfl
    | cons e' es => simp only [itemPieces, separated, List.map_cons, ih]

theorem fieldPieces_eq (text : TokenKind → String) (fs : List (String × Expr)) :
    fieldPieces text fs = separated text (fs.map (fieldPiece text)) := by
  induction fs with
  | nil => rfl
  | cons f fs ih =>
    cases fs with
    | nil => rfl
    | cons f' fs => simp only [fieldPieces, separated, fieldPiece, List.map_cons, ih, List.cons_append]

/-! ## Measures -/

mutual

/-- How deep expressions stand inside the expression: one level for each group, item, field value,
index, argument and operand of a prefix around them. -/
def Expr.nesting : Expr → Nat
  | .literal _ _ | .var _ _ | .template _ _ => 0
  | .binary _ _ l r => max l.nesting r.nesting
  | .unary _ _ e | .group _ e => e.nesting + 1
  | .member _ e _ => e.nesting
  | .index _ e i => max e.nesting (i.nesting + 1)
  | .call _ _ args | .array _ args => itemsNesting args
  | .object _ fields => fieldsNesting fields

def itemsNesting : List Expr → Nat
  | [] => 0
  | e :: es => max (e.nesting + 1) (itemsNesting es)

def fieldsNesting : List (String × Expr) → Nat
  | [] => 0
  | (_, e) :: fs => max (e.nesting + 1) (fieldsNesting fs)

end

mutual

/-- The expression with all its places forgotten. -/
def Expr.unplaced : Expr → Expr
  | .literal _ v => .literal .start v
  | .var _ x => .var .start x
  | .template _ parts => .template .start parts
  | .binary _ op l r => .binary .start op l.unplaced r.unplaced
  | .unary _ op e => .unary .start op e.unplaced
  | .call _ x args => .call .start x (unplacedItems args)
  | .array _ items => .array .start (unplacedItems items)
  | .object _ fields => .object .start (unplacedFields fields)
  | .member _ e x => .member .start e.unplaced x
  | .index _ e i => .index .start e.unplaced i.unplaced
  | .group _ e => .group .start e.unplaced

def unplacedItems : List Expr → List Expr
  | [] => []
  | e :: es => e.unplaced :: unplacedItems es

def unplacedFields : List (String × Expr) → List (String × Expr)
  | [] => []
  | (x, e) :: fs => (x, e.unplaced) :: unplacedFields fs

end

theorem nesting_item {e : Expr} {es : List Expr} (h : e ∈ es) : e.nesting < itemsNesting es := by
  induction es with
  | nil => cases h
  | cons x xs ih =>
    rw [itemsNesting]
    rcases List.mem_cons.mp h with rfl | h
    · omega
    · have := ih h
      omega

theorem nesting_field {f : String × Expr} {fs : List (String × Expr)} (h : f ∈ fs) :
    f.2.nesting < fieldsNesting fs := by
  induction fs with
  | nil => cases h
  | cons g gs ih =>
    rw [fieldsNesting]
    rcases List.mem_cons.mp h with rfl | h
    · omega
    · have := ih h
      omega

theorem unplacedItems_eq (es : List Expr) : unplacedItems es = es.map Expr.unplaced := by
  induction es with
  | nil => rfl
  | cons e es ih => rw [unplacedItems, ih, List.map_cons]

theorem unplacedFields_eq (fs : List (String × Expr)) :
    unplacedFields fs = fs.map fun f => (f.1, f.2.unplaced) := by
  induction fs with
  | nil => rfl
  | cons f fs ih => rw [unplacedFields, ih, List.map_cons]

/-! ## Places -/

/-- The pieces on a line, the first of them after the given column. -/
def lay (line : Nat) : Nat → List Piece → List Token
  | _, [] => []
  | column, p :: ps =>
    let start := if p.flush then column else column + 1
    ⟨p.kind, p.lexeme, ⟨line, start⟩⟩ :: lay line (start + p.lexeme.length) ps

/-- The tokens of pieces that stand after the token `before`. -/
def Laid (before : Option Token) : List Piece → List Token → Prop
  | [], [] => True
  | p :: ps, t :: ts =>
    (t.kind = p.kind ∧ t.lexeme = p.lexeme ∧ before.any (·.flush t) = p.flush) ∧ Laid (some t) ps ts
  | _, _ => False

theorem laid_lay (t : Token) (ps : List Piece) :
    Laid (some t) ps (lay t.pos.line t.endColumn ps) := by
  induction ps generalizing t with
  | nil => trivial
  | cons p ps ih =>
    refine ⟨⟨rfl, rfl, ?_⟩, ih _⟩
    cases hp : p.flush <;> simp [Token.flush]

/-- The first piece of a line cannot be flush with anything. -/
theorem laid_lay_first {p : Piece} (hp : p.flush = false) (line column : Nat) (ps : List Piece) :
    Laid none (p :: ps) (lay line column (p :: ps)) :=
  ⟨⟨rfl, rfl, hp.symm⟩, laid_lay _ ps⟩

theorem Laid.kinds {before : Option Token} {ps : List Piece} {ts : List Token}
    (h : Laid before ps ts) : ts.map (·.kind) = ps.map (·.kind) := by
  induction ps generalizing before ts with
  | nil =>
    cases ts with
    | nil => rfl
    | cons t ts => exact h.elim
  | cons p ps ih =>
    cases ts with
    | nil => exact h.elim
    | cons t ts => rw [List.map_cons, List.map_cons, h.1.1, ih h.2]

/-! ## Cursors at pieces -/

namespace Cursor

/-- The tokens from the cursor on are those of the pieces. -/
def On (c : Cursor) (ps : List Piece) : Prop := Laid c.before ps c.rest

variable {c : Cursor} {p : Piece} {ps : List Piece}

theorem On.kind (h : c.On (p :: ps)) : c.here.kind = p.kind := h.1.1

theorem On.lexeme (h : c.On (p :: ps)) : c.here.lexeme = p.lexeme := h.1.2.1

theorem On.adjacent (h : c.On (p :: ps)) : c.adjacent = p.flush := h.1.2.2

theorem On.length (h : c.On ps) : c.rest.length = ps.length := by
  simpa using congrArg List.length (Laid.kinds h)

theorem on_ofTokens {ts : List Token} (h : Laid none ps ts)
    (hlast : (ps.map (·.kind)).getLast? = some .eof) : (ofTokens ts).On ps := by
  have hended : ended ts = ts := by
    rw [← h.kinds, List.getLast?_map] at hlast
    obtain ⟨t, ht, hk⟩ := Option.map_eq_some_iff.mp hlast
    simp [ended, ht, hk]
  have hbefore : (ofTokens ts).before = none := by
    unfold ofTokens
    split <;> rfl
  rw [On, hbefore, rest_ofTokens, hended]
  exact h

/-- A mark is not a line break. -/
theorem On.mark_ne_newline {text : TokenKind → String} {m : Mark}
    (h : c.On (.apart text (.mark m) :: ps)) : c.here.kind ≠ .newline := by
  simp [h.kind, Piece.apart]

theorem On.next (h : c.On (p :: ps)) (hps : ps ≠ []) : c.next.On ps := by
  have htail : Laid (some c.here) ps c.ahead := h.2
  unfold Cursor.next
  cases ha : c.ahead with
  | nil =>
    rw [ha] at htail
    cases ps with
    | nil => exact absurd rfl hps
    | cons q qs => exact htail.elim
  | cons t ts =>
    rw [ha] at htail
    exact htail

end Cursor

end DeskScript
