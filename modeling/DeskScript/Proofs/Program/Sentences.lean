import DeskScript.Proofs.Program.Phrases

/-!
# Statements in place

The same for statements and blocks (`body_tracked`). Two productions look ahead and go back to the
index they started from: the expression that `print` tries, and the newlines before an `else`. What
the first of them does to the count of bare names stays, so from here on the counts may differ. What
decides is how much the count grows over one expression, and that is the same.
-/

namespace DeskScript

theorem Tracks.uncounted {α : Type} {ts : List Token} {k n : Nat} {P : InPlace α}
    {R : Nat → Reader α} (h : Tracks ts true k n P R) : Tracks ts false k n P R :=
  fun _ _ _ hat hn => (h hat hn).uncounted

/-! ## Going back -/

theorem Spot.At.goBack {ts : List Token} {d : Nat} {c : Cursor} {σ σ' : Spot} (h : σ.At ts d c)
    (hdepth : σ'.depth = d) (hsound : σ'.Sound ts) :
    At ts d c { σ' with pos := σ.pos, trail := σ.pos :: σ'.trail } where
  view := congrArg (fun c : Cursor => { c with bare := σ'.bare }) h.view
  depth := hdepth
  sound := sound_moveTo hsound (h.sound _ List.mem_cons_self)
  ended := h.ended

section
variable {α β : Type} {ts : List Token} {n m d : Nat} {c c' : Cursor} {σ σ' : Spot}

/-- The parser keeps its variables where the reader keeps its place. -/
theorem Follows.keep {counted : Bool} {q : β → Nat} {f : Spot → InPlace β} {g : Cursor → Reader β}
    (h : Follows ts d counted q c σ (f σ) (g c)) :
    Follows ts d counted q c σ (MonadState.get >>= f) (MonadState.get >>= g) := h

theorem follows_goBack (hat : σ.At ts d c) (hat' : σ'.At ts d c') :
    Follows ts d false (fun _ => σ.pos) c' σ' (InPlace.moveTo σ.pos) (set c) :=
  ⟨_, rfl, .ok (hat.goBack hat'.depth hat'.sound) (Nat.le_refl _) nofun⟩

/-! ## Print -/

/-- A token that is part of a plain text. -/
def Token.inText (t : Token) : Bool := !(Cursor.mk none t [] 0).atStatementEnd

theorem inText_here (c : Cursor) : c.here.inText = !c.atStatementEnd := rfl

theorem inText_ne_eof {t : Token} (h : t.inText = true) : t.kind ≠ .eof := by
  intro heof
  simp [Token.inText, Cursor.atStatementEnd, heof] at h

theorem plainText_run (pos : Position) (c : Cursor) :
    Reader.plainText pos c = .ok (.template pos (TextPart.spaced "" false
      ((c.rest.takeWhile Token.inText).flatMap Token.pieces)), c.skipWhile Token.inText) := rfl

theorem follows_textPieces {counted : Bool} (hat : σ.At ts d c) (read : List TextPart) :
    Follows ts d counted (fun _ => σ.pos) c σ (Tape.textPieces ts read) fun c =>
      .ok (read ++ (c.rest.takeWhile Token.inText).flatMap Token.pieces,
        c.skipWhile Token.inText) := by
  -- on the number of tokens that are left
  obtain ⟨n, hn⟩ : ∃ n, ts.length ≤ σ.pos + n := ⟨ts.length, by omega⟩
  induction n generalizing c σ read with
  | zero => exact absurd hat.lt (by omega)
  | succ n ih =>
    rw [Tape.textPieces]
    refine Follows.look hat ?_
    cases hin : c.here.inText with
    | false =>
      have hend : c.atStatementEnd = true := by simpa [inText_here] using hin
      have hstop : c.rest.takeWhile Token.inText = [] := by simp [Cursor.rest, hin]
      show Follows ts d counted _ c σ (if c.atStatementEnd then _ else _) _
      rw [if_pos hend]
      refine Follows.right (follows_pure hat (Nat.le_refl _)) ?_
      simp [hstop, Cursor.skipWhile_of_false hin, Reader.pure_run]
    | true =>
      have hend : ¬c.atStatementEnd = true := by simpa [inText_here] using hin
      have heof := inText_ne_eof hin
      show Follows ts d counted _ c σ (if c.atStatementEnd then _ else _) _
      rw [if_neg hend]
      refine Follows.right ((follows_advance hat heof).bind fun t c₁ σ₁ _ hat₁ hp₁ =>
        (ih hat₁ (read ++ t.pieces) (by omega)).mono fun _ => by omega) ?_
      rw [Reader.bind_run (Reader.advance_run c), Cursor.skipWhile_of_true hat.ended heof hin,
        Cursor.reads_next hat.ended heof]
      simp [hin]

theorem follows_plainText {counted : Bool} (hat : σ.At ts d c) (pos : Position) :
    Follows ts d counted (fun _ => σ.pos) c σ (Tape.plainText ts pos) (Reader.plainText pos) :=
  Follows.right ((follows_textPieces hat []).map fun _ => Nat.le_refl _)
    (plainText_run pos c)

theorem outcome_wholeExpression? (ts : List Token) (σ : Spot) :
    (Tape.wholeExpression? ts).outcome σ = ((Tape.expression ts).outcome σ).map fun x =>
      match x with
      | (.ok e, σ') =>
        if (σ'.cursor ts).atStatementEnd && (σ'.cursor ts).bare == σ.bare then (.ok (some e), σ')
        else (.ok none, { σ' with pos := σ.pos, trail := σ.pos :: σ'.trail })
      | (.error _, σ') => (.ok none, { σ' with pos := σ.pos, trail := σ.pos :: σ'.trail }) := by
  show (InPlace.held (Tape.expression ts) >>= _).outcome σ = _
  rw [InPlace.outcome_bind, InPlace.outcome_held]
  cases (Tape.expression ts).outcome σ with
  | none => rfl
  | some x =>
    obtain ⟨r, σ'⟩ := x
    cases r with
    | error e => rfl
    | ok e =>
      show (if (σ'.cursor ts).atStatementEnd && (σ'.cursor ts).bare == σ.bare then _ else _ :
        InPlace (Option Expr)).outcome σ' = some (if _ then _ else _)
      split <;> rfl

section
variable {expr : Nat → Reader Expr} (hexpr : Tracks ts true 1 n (Tape.expression ts) expr)
include hexpr

theorem tracks_wholeExpression? :
    Tracks ts false 0 n (Tape.wholeExpression? ts) fun d => Reader.wholeExpression? (expr d) := by
  intro d c σ hat hn
  obtain ⟨⟨r, σ'⟩, hP, hmatches⟩ := hexpr hat hn
  unfold Follows Reader.wholeExpression?
  rw [outcome_wholeExpression?, hP]
  refine ⟨_, rfl, ?_⟩
  dsimp only
  cases hr : expr d c <;> rw [hr] at hmatches <;> cases hmatches
  · next _ hdepth hsound => exact .ok (hat.goBack hdepth hsound) (Nat.le_refl _) nofun
  · next e c' hat' hp hbare =>
    have hbare : (σ'.bare == σ.bare) = (c'.bare == c.bare) := by
      have := hbare rfl
      rw [Bool.eq_iff_iff, beq_iff_eq, beq_iff_eq]
      omega
    have hsame : ((σ'.cursor ts).atStatementEnd && (σ'.cursor ts).bare == σ.bare) =
        (c'.atStatementEnd && c'.bare == c.bare) := by
      rw [hat'.view, ← hbare]
      rfl
    dsimp only
    rw [hsame]
    split
    · exact .ok hat' (by omega) nofun
    · exact .ok (hat.goBack hat'.depth hat'.sound) (Nat.le_refl _) nofun

theorem tracks_printed (pos : Position) :
    Tracks ts false 0 n (Tape.printed ts pos) fun d => Reader.printed (expr d) pos := by
  intro d c σ hat hn
  refine Follows.get hat (Follows.ite (fun _ => follows_pure hat (Nat.le_refl _)) fun _ => ?_)
  refine Follows.ite (fun _ => (hexpr.uncounted hat hn).mono fun _ => by omega) fun _ => ?_
  refine Follows.ite (fun _ => ?_) fun _ => follows_plainText hat pos
  refine (tracks_wholeExpression? hexpr hat hn).bind fun o c₁ σ₁ _ hat₁ hp₁ => ?_
  cases o with
  | some e => exact follows_pure hat₁ hp₁
  | none => exact (follows_plainText hat₁ pos).mono fun _ => hp₁

/-! ## Parts of statements -/

/-- The steps of an assignment, with a bound `m` of their own. -/
theorem follows_accessors (hat : σ.At ts d c) (hn : ts.length ≤ σ.pos + n)
    (hm : ts.length ≤ σ.pos + m) (read : List Accessor) :
    Follows ts d false (fun _ => σ.pos) c σ (Tape.accessors ts read)
      (Reader.accessors (expr d) m read) := by
  induction m generalizing c σ read with
  | zero => exact absurd hat.lt (by omega)
  | succ m ih =>
    rw [Tape.accessors]
    refine (follows_accept hat .dot).bind fun dot c₁ σ₁ _ hat₁ hp₁ => ?_
    refine Follows.ite (fun _ => ?_) fun _ => ?_
    · refine (follows_propertyName hat₁).bind fun property c₂ σ₂ _ hat₂ hp₂ => ?_
      exact (ih hat₂ (by omega) (by omega) _).mono fun _ => by omega
    · refine (follows_accept hat₁ .openBracket).bind fun opened c₂ σ₂ _ hat₂ hp₂ => ?_
      refine Follows.ite (fun _ => ?_) fun _ => follows_pure hat₂ (by omega)
      refine (hexpr.uncounted hat₂ (by omega)).bind fun key c₃ σ₃ _ hat₃ hp₃ => ?_
      refine (follows_expect hat₃ .closeBracket).bind fun _ c₄ σ₄ _ hat₄ hp₄ => ?_
      exact (ih hat₄ (by omega) (by omega) _).mono fun _ => by omega

theorem tracks_assignment (pos : Position) :
    Tracks ts false 1 n (Tape.assignment ts pos) fun d => Reader.assignment n (expr d) pos := by
  intro d c σ hat hn
  refine (follows_variableName hat .setVariable).bind fun name c₁ σ₁ _ hat₁ hp₁ => ?_
  refine (follows_accessors hexpr hat₁ (by omega) (by omega) []).bind
    fun path c₂ σ₂ _ hat₂ hp₂ => ?_
  refine (follows_expect hat₂ .equals).bind fun _ c₃ σ₃ _ hat₃ hp₃ => ?_
  exact (hexpr.uncounted hat₃ (by omega)).map fun _ => by omega

theorem tracks_optionalExpression :
    Tracks ts false 0 n (Tape.optionalExpression ts)
      fun d => Reader.optionalExpression (expr d) := by
  intro d c σ hat hn
  refine Follows.get hat (Follows.ite (fun _ => follows_pure hat (Nat.le_refl _)) fun _ => ?_)
  exact (hexpr.uncounted hat hn).map fun _ => by omega

/-- The arguments of a host statement, with a bound `m` of their own. -/
theorem follows_hostArgs (hat : σ.At ts d c) (hn : ts.length ≤ σ.pos + n)
    (hm : ts.length ≤ σ.pos + m) (read : List Expr) :
    Follows ts d false (fun _ => σ.pos) c σ (Tape.hostArgs ts read)
      (Reader.hostArgs (expr d) m read) := by
  induction m generalizing c σ read with
  | zero => exact absurd hat.lt (by omega)
  | succ m ih =>
    rw [Tape.hostArgs]
    refine Follows.get hat (Follows.ite (fun _ => follows_pure hat (Nat.le_refl _)) fun _ => ?_)
    refine (hexpr.uncounted hat hn).bind fun arg c₁ σ₁ _ hat₁ hp₁ => ?_
    refine (follows_accept hat₁ .comma).bind fun _ c₂ σ₂ _ hat₂ hp₂ => ?_
    exact (ih hat₂ (by omega) (by omega) _).mono fun _ => by omega

end

theorem follows_answerVariable (hat : σ.At ts d c) (verb : Verb) :
    Follows ts d false (fun _ => σ.pos) c σ (Tape.answerVariable ts verb)
      (Reader.answerVariable verb) := by
  refine Follows.isAt hat (Follows.ite (fun hinto => ?_) fun _ => follows_pure hat (Nat.le_refl _))
  have heof : c.here.kind ≠ .eof := by simp_all
  refine Follows.ite (fun _ => follows_fail hat (by simp)) fun _ => ?_
  refine (follows_advance hat heof).bind fun _ c₁ σ₁ _ hat₁ hp₁ => ?_
  exact (follows_variableName hat₁ .intoVariable).map fun _ => by omega

/-- Parameters in parentheses, with a bound `m`. -/
theorem follows_parenParameters (hat : σ.At ts d c) (hm : ts.length ≤ σ.pos + m)
    (read : List String) :
    Follows ts d false (fun _ => σ.pos) c σ (Tape.parenParameters ts read)
      (Reader.parenParameters m read) := by
  induction m generalizing c σ read with
  | zero => exact absurd hat.lt (by omega)
  | succ m ih =>
    rw [Tape.parenParameters]
    refine Follows.isAt hat (Follows.ite (fun _ => follows_pure hat (Nat.le_refl _)) fun _ => ?_)
    refine (follows_variableName hat .parameter).bind fun x c₁ σ₁ _ hat₁ hp₁ => ?_
    refine (follows_accept hat₁ .comma).bind fun more c₂ σ₂ _ hat₂ hp₂ => ?_
    refine Follows.ite (fun _ => ?_) fun _ => follows_pure hat₂ (by omega)
    exact (ih hat₂ (by omega) _).mono fun _ => by omega

/-- Parameters without parentheses, with a bound `m`. -/
theorem follows_bareParameters (hat : σ.At ts d c) (hm : ts.length ≤ σ.pos + m)
    (read : List String) :
    Follows ts d false (fun _ => σ.pos) c σ (Tape.bareParameters ts read)
      (Reader.bareParameters m read) := by
  induction m generalizing c σ read with
  | zero => exact absurd hat.lt (by omega)
  | succ m ih =>
    rw [Tape.bareParameters]
    refine (follows_variableName? hat).bind fun o c₁ σ₁ _ hat₁ hp₁ => ?_
    cases o with
    | none => exact follows_pure hat₁ hp₁
    | some x =>
      have hp₁ : σ.pos + 1 ≤ σ₁.pos := hp₁
      refine (follows_accept hat₁ .comma).bind fun _ c₂ σ₂ _ hat₂ hp₂ => ?_
      exact (ih hat₂ (by omega) _).mono fun _ => by omega

theorem follows_parameters (hat : σ.At ts d c) (hn : ts.length ≤ σ.pos + n) :
    Follows ts d false (fun _ => σ.pos) c σ (Tape.parameters ts) (Reader.parameters n) := by
  refine (follows_accept hat .openParen).bind fun opened c₁ σ₁ _ hat₁ hp₁ => ?_
  refine Follows.ite (fun _ => ?_) fun _ => ?_
  · refine (follows_parenParameters hat₁ (by omega) []).bind fun xs c₂ σ₂ _ hat₂ hp₂ => ?_
    exact (follows_expect hat₂ .closeParen).map fun _ => by omega
  · exact (follows_bareParameters hat₁ (by omega) []).mono fun _ => by omega

theorem follows_endStatement (hat : σ.At ts d c) :
    Follows ts d false (fun _ => σ.pos) c σ (Tape.endStatement ts) Reader.endStatement := by
  have hafter : Follows ts d false (fun _ => σ.pos) c σ
      (if c.before.any (·.kind = .mark .closeBrace) then return () else Tape.want ts .statementEnd)
      (if c.before.any (·.kind = .mark .closeBrace) then return ()
        else Reader.want .statementEnd) :=
    Follows.ite (fun _ => follows_pure hat (Nat.le_refl _)) fun _ => follows_want hat _
  refine Follows.get hat ?_
  dsimp only
  cases c.here.kind with
  | newline => exact follows_skipNewlines hat
  | eof => exact follows_pure hat (Nat.le_refl _)
  | mark m =>
    cases m with
    | closeBrace => exact follows_pure hat (Nat.le_refl _)
    | _ => exact hafter
  | _ => exact hafter

section
variable {expr : Nat → Reader Expr} (hexpr : Tracks ts true 1 n (Tape.expression ts) expr)
include hexpr

theorem tracks_hostStatement (verb : Verb) (pos : Position) :
    Tracks ts false 0 n (Tape.hostStatement ts verb pos)
      fun d => Reader.hostStatement n (expr d) verb pos := by
  intro d c σ hat hn
  refine (follows_hostArgs hexpr hat hn hn []).bind fun args c₁ σ₁ _ hat₁ hp₁ => ?_
  refine (follows_answerVariable hat₁ verb).bind fun into c₂ σ₂ _ hat₂ hp₂ => ?_
  refine Follows.ite (fun _ => ?_) fun _ => follows_pure hat₂ (by omega)
  exact follows_failAt hat₂ (by simp) pos

/-- A host statement, at its verb. -/
theorem follows_verbStatement (hat : σ.At ts d c) (hn : ts.length ≤ σ.pos + n)
    (hk : c.here.kind ≠ .eof) (pos : Position) (k : Keyword) :
    Follows ts d false (fun _ => σ.pos + 1) c σ (Tape.verbStatement ts pos k)
      (match k.verb? with
        | some verb => do
          let _ ← Reader.advance
          Reader.hostStatement n (expr d) verb pos
        | none => Reader.unexpected .statementStart) := by
  unfold Tape.verbStatement
  cases k.verb? with
  | none => exact follows_unexpected hat _
  | some verb =>
    refine (follows_advance hat hk).bind fun _ c₁ σ₁ _ hat₁ hp₁ => ?_
    exact (tracks_hostStatement hexpr verb pos hat₁ (by omega)).mono fun _ => by omega

/-- A call `name(args)`, at its name. -/
theorem follows_callStatement (hat : σ.At ts d c) (hn : ts.length ≤ σ.pos + n)
    (hk : c.here.kind ≠ .eof) (pos : Position) (name : String) :
    Follows ts d false (fun _ => σ.pos + 1) c σ (Tape.callStatement ts pos name)
      (Reader.callStatement n (expr d) pos name) := by
  refine (follows_advance hat hk).bind fun _ c₁ σ₁ _ hat₁ hp₁ => Follows.get hat₁ ?_
  refine Follows.ite (fun _ => follows_want hat₁ _) fun _ => ?_
  exact (tracks_parenArgs hexpr |>.uncounted hat₁ (by omega)).map fun _ => by omega

end

/-! ## The end of a block -/

/-- How the reader sees the end of a block. -/
def Reader.atEnd : Option Position → Reader Bool
  | none => isAt .eof
  | some opened => atBlockEnd opened

theorem follows_atEnd (hat : σ.At ts d c) (opened : Option Position) :
    Follows ts d false (fun _ => σ.pos) c σ (Tape.atEnd ts opened) (Reader.atEnd opened) := by
  cases opened with
  | none => exact Follows.get hat (follows_pure hat (Nat.le_refl _))
  | some opened =>
    refine Follows.isAt hat (Follows.ite (fun _ => follows_pure hat (Nat.le_refl _)) fun _ => ?_)
    refine Follows.right ?_ (Reader.bind_run (Reader.isAt_run .eof c))
    refine Follows.ite (fun _ => ?_) fun _ => follows_pure hat (Nat.le_refl _)
    exact follows_failAt hat (by simp) opened

theorem atEnd_here {opened : Option Position} (h : Reader.atEnd opened c = .ok (true, c')) :
    c'.here.kind = opened.elim .eof fun _ => .mark .closeBrace := by
  cases opened with
  | none =>
    obtain ⟨hkind, rfl⟩ := Reader.isAt_ok.mp h
    exact beq_iff_eq.mp hkind
  | some opened =>
    obtain ⟨b, c₁, hmark, h⟩ := Reader.bind_ok.mp h
    obtain ⟨hkind, rfl⟩ := Reader.isAtMark_ok.mp hmark
    cases b with
    | true =>
      obtain ⟨-, rfl⟩ := Reader.pure_ok.mp h
      exact beq_iff_eq.mp hkind
    | false =>
      obtain ⟨b, c₂, -, h⟩ := Reader.bind_ok.mp h
      cases b with
      | true => exact absurd h (by simp [Reader.failAt_ok])
      | false => exact absurd h (by simp [Reader.pure_ok])

/-- Statements end where `stop` says so. -/
theorem statementsUntil_stops {stop : Reader Bool} {stmt : Reader Stmt} {read ss : List Stmt}
    (h : Reader.statementsUntil stop stmt m read c = .ok (ss, c')) :
    ∃ c₁, stop c₁ = .ok (true, c') := by
  induction m generalizing c read with
  | zero => exact absurd h (by simp [Reader.statementsUntil, Reader.fail_ok])
  | succ m ih =>
    obtain ⟨b, c₁, hstop, h⟩ := Reader.bind_ok.mp h
    cases b with
    | true =>
      obtain ⟨-, rfl⟩ := Reader.pure_ok.mp h
      exact ⟨c, hstop⟩
    | false =>
      obtain ⟨s, c₂, -, h⟩ := Reader.bind_ok.mp h
      obtain ⟨-, c₃, -, h⟩ := Reader.bind_ok.mp h
      exact ih h

end

/-! ## Statements -/

/-- The readers inside a statement and the parsers in place do the same where at most `n` tokens are
left. -/
structure Reader.Body.Tracked (ts : List Token) (n : Nat) (body : Reader.Body) : Prop where
  expression : Tracks ts true 1 n (Tape.expression ts) body.inner.expression
  unary : Tracks ts true 1 n (Tape.unary ts) body.inner.unary
  block : Tracks ts false 1 n (Tape.block ts) body.block
  branch : Tracks ts false 1 n (Tape.branch ts) body.branch

section
variable {ts : List Token} {n m d : Nat} {body : Reader.Body} {c : Cursor} {σ : Spot}
  (h : body.Tracked ts n)
include h

theorem tracks_elseBlock :
    Tracks ts false 0 n (Tape.elseBlock ts) (Reader.elseBlock body) := by
  intro d c σ hat hn
  rw [Tape.elseBlock]
  refine Follows.keep ?_
  refine (follows_skipNewlines hat).bind fun _ c₁ σ₁ _ hat₁ hp₁ => Follows.isAt hat₁ ?_
  refine Follows.ite (fun helse => ?_) fun _ => ?_
  · have heof : c₁.here.kind ≠ .eof := by simp_all
    refine (follows_advance hat₁ heof).bind fun t c₂ σ₂ _ hat₂ hp₂ => Follows.isAt hat₂ ?_
    refine Follows.ite (fun _ => ?_) fun _ => ?_
    · exact (tracks_nested h.branch .block hat₂ (by omega)).map fun _ => by omega
    · exact (h.block hat₂ (by omega)).map fun _ => by omega
  · exact (follows_goBack hat hat₁).map fun _ => Nat.le_refl _

theorem tracks_branchWith :
    Tracks ts false 1 (n + 1) (Tape.branch ts) (Reader.branchWith body) := by
  intro d c σ hat hn
  rw [Tape.branch]
  refine (follows_expectWord hat .if_).bind fun t c₁ σ₁ _ hat₁ hp₁ => ?_
  refine (h.expression.uncounted hat₁ (by omega)).bind fun condition c₂ σ₂ _ hat₂ hp₂ => ?_
  refine Follows.isAt hat₂ ?_
  -- with or without the word between them, the block comes next
  have hrest {c₃ : Cursor} {σ₃ : Spot} (hat₃ : σ₃.At ts d c₃) (hp₃ : σ₂.pos ≤ σ₃.pos) :
      Follows ts d false (fun _ => σ.pos + 1) c₃ σ₃
        (do let yes ← Tape.block ts
            let no ← Tape.elseBlock ts
            return Stmt.branch t.pos condition yes no)
        (do let yes ← body.block d
            let no ← Reader.elseBlock body d
            return Stmt.branch t.pos condition yes no) := by
    refine (h.block hat₃ (by omega)).bind fun yes c₄ σ₄ _ hat₄ hp₄ => ?_
    exact (tracks_elseBlock h hat₄ (by omega)).map fun _ => by omega
  refine Follows.ite (fun hthen => ?_) fun _ => hrest hat₂ (Nat.le_refl _)
  have heof : c₂.here.kind ≠ .eof := by simp_all
  exact (follows_advance hat₂ heof).bind fun _ _ _ _ hat₃ hp₃ => hrest hat₃ (by omega)

/-- A statement that starts with a reserved word, at this word. -/
theorem follows_wordStatement (hat : σ.At ts d c) (hn : ts.length ≤ σ.pos + n) {k : Keyword}
    (hk : c.here.kind = .keyword k) (pos : Position) :
    Follows ts d false (fun _ => σ.pos + 1) c σ (Tape.wordStatement ts pos k)
      (Reader.wordStatement n body d pos k) := by
  rw [Tape.wordStatement.eq_def]
  unfold Reader.wordStatement
  dsimp only
  have hexpr := h.expression.uncounted
  -- after its word, a statement may be anything that keeps the index
  have hword {f : Token → InPlace Stmt} {g : Token → Reader Stmt}
      (hrest : ∀ t c₁ σ₁, σ₁.At ts d c₁ → σ.pos + 1 ≤ σ₁.pos →
        Follows ts d false (fun _ => σ₁.pos) c₁ σ₁ (f t) (g t)) :
      Follows ts d false (fun _ => σ.pos + 1) c σ (Tape.advance ts >>= f) (Reader.advance >>= g) :=
    (follows_advance hat (by simp [hk])).bind fun t c₁ σ₁ _ hat₁ hp₁ =>
      (hrest t c₁ σ₁ hat₁ hp₁).mono fun _ => hp₁
  cases k with
  | set =>
    exact hword fun _ c₁ σ₁ hat₁ hp₁ =>
      (tracks_assignment h.expression pos hat₁ (by omega)).mono fun _ => by omega
  | print =>
    refine hword fun _ c₁ σ₁ hat₁ hp₁ => ?_
    exact (tracks_printed h.expression pos hat₁ (by omega)).map fun _ => Nat.le_refl _
  | if_ => exact tracks_branchWith h hat (by omega)
  | loop | while_ =>
    refine hword fun _ c₁ σ₁ hat₁ hp₁ => ?_
    refine (hexpr hat₁ (by omega)).bind fun _ c₂ σ₂ _ hat₂ hp₂ => ?_
    exact (h.block hat₂ (by omega)).map fun _ => by omega
  | foreach =>
    refine hword fun _ c₁ σ₁ hat₁ hp₁ => ?_
    refine (follows_variableName hat₁ .foreachVariable).bind fun name c₂ σ₂ _ hat₂ hp₂ => ?_
    refine (follows_expectWord hat₂ .in_).bind fun _ c₃ σ₃ _ hat₃ hp₃ => ?_
    refine (hexpr hat₃ (by omega)).bind fun _ c₄ σ₄ _ hat₄ hp₄ => ?_
    exact (h.block hat₄ (by omega)).map fun _ => by omega
  | break_ | continue_ =>
    exact hword fun _ _ _ hat₁ hp₁ => follows_pure hat₁ (Nat.le_refl _)
  | return_ =>
    exact hword fun _ c₁ σ₁ hat₁ hp₁ =>
      (tracks_optionalExpression h.expression hat₁ (by omega)).map fun _ => Nat.le_refl _
  | func =>
    refine hword fun _ c₁ σ₁ hat₁ hp₁ => ?_
    refine (follows_functionName hat₁).bind fun name c₂ σ₂ _ hat₂ hp₂ => ?_
    refine (follows_parameters hat₂ (by omega)).bind fun params c₃ σ₃ _ hat₃ hp₃ => ?_
    exact (h.block hat₃ (by omega)).map fun _ => by omega
  | call =>
    refine hword fun _ c₁ σ₁ hat₁ hp₁ => ?_
    exact ((tracks_callTail h.expression h.unary).uncounted hat₁ (by omega)).map fun _ => by omega
  | try_ =>
    refine hword fun _ c₁ σ₁ hat₁ hp₁ => ?_
    refine (h.block hat₁ (by omega)).bind fun tried c₂ σ₂ _ hat₂ hp₂ => ?_
    refine (follows_skipNewlines hat₂).bind fun _ c₃ σ₃ _ hat₃ hp₃ => ?_
    refine (follows_expectWord hat₃ .catch_).bind fun _ c₄ σ₄ _ hat₄ hp₄ => ?_
    refine (follows_variableName? hat₄).bind fun name c₅ σ₅ _ hat₅ hp₅ => ?_
    exact (h.block hat₅ (by omega)).map fun _ => by omega
  | throw =>
    refine hword fun _ c₁ σ₁ hat₁ hp₁ => ?_
    exact (hexpr hat₁ (by omega)).map fun _ => by omega
  | on =>
    refine hword fun _ c₁ σ₁ hat₁ hp₁ => ?_
    refine (follows_eventName hat₁).bind fun event c₂ σ₂ _ hat₂ hp₂ => ?_
    exact (h.block hat₂ (by omega)).map fun _ => by omega
  | emit =>
    refine hword fun _ c₁ σ₁ hat₁ hp₁ => ?_
    refine (follows_eventName hat₁).bind fun event c₂ σ₂ _ hat₂ hp₂ => ?_
    exact (tracks_optionalExpression h.expression hat₂ (by omega)).map fun _ => by omega
  | _ =>
    unfold Tape.plainStatement
    exact follows_verbStatement h.expression hat hn (by simp [hk]) pos _

theorem tracks_statement :
    Tracks ts false 1 n (Tape.statement ts) (Reader.statement n body) := by
  intro d c σ hat hn
  rw [Tape.statement]
  refine Follows.get hat ?_
  dsimp only
  cases hk : c.here.kind with
  | keyword k => exact follows_wordStatement h hat hn hk _
  | «variable» name => exact tracks_assignment h.expression _ hat hn
  | ident name =>
    refine Follows.ite (fun _ => ?_) fun _ => follows_unexpected hat _
    exact follows_callStatement h.expression hat hn (by simp [hk]) _ name
  | mark m =>
    cases m with
    | openBrace => exact (h.block hat hn).map fun _ => Nat.le_refl _
    | _ => exact follows_unexpected hat _
  | _ => exact follows_unexpected hat _

/-- Statements up to an end, with a bound `m` of their own. -/
theorem follows_statements (hat : σ.At ts d c) (hn : ts.length ≤ σ.pos + n)
    (hm : ts.length ≤ σ.pos + m) (opened : Option Position) (read : List Stmt) :
    Follows ts d false (fun _ => σ.pos) c σ (Tape.statements ts opened read)
      (Reader.statementsUntil (Reader.atEnd opened) (Reader.statement n body d) m read) := by
  induction m generalizing c σ read with
  | zero => exact absurd hat.lt (by omega)
  | succ m ih =>
    rw [Tape.statements]
    refine (follows_atEnd hat opened).bind fun stop c₁ σ₁ _ hat₁ hp₁ => ?_
    refine Follows.ite (fun _ => follows_pure hat₁ hp₁) fun _ => ?_
    refine (tracks_statement h hat₁ (by omega)).bind fun s c₂ σ₂ _ hat₂ hp₂ => ?_
    refine (follows_endStatement hat₂).bind fun _ c₃ σ₃ _ hat₃ hp₃ => ?_
    exact (ih hat₃ (by omega) (by omega) _).mono fun _ => by omega

theorem tracks_blockWith :
    Tracks ts false 1 (n + 1) (Tape.blockBody ts) (Reader.blockWith n body) := by
  intro d c σ hat hn
  rw [Tape.blockBody]
  refine (follows_skipNewlines hat).bind fun _ c₁ σ₁ _ hat₁ hp₁ => ?_
  refine (follows_expect hat₁ .openBrace).bind fun t c₂ σ₂ _ hat₂ hp₂ => ?_
  refine (follows_skipNewlines hat₂).bind fun _ c₃ σ₃ _ hat₃ hp₃ => ?_
  refine (follows_statements h hat₃ (by omega) (by omega) (some t.pos) []).bind
    fun ss c₄ σ₄ hread hat₄ hp₄ => ?_
  -- the brace that ended the statements is still to be read
  obtain ⟨c₅, hstop⟩ := statementsUntil_stops hread
  have hbrace : c₄.here.kind = .mark .closeBrace := atEnd_here hstop
  exact (follows_advance hat₄ (by simp [hbrace])).map fun _ => by omega

end

/-- Blocks and branches, by induction on the bound. -/
theorem body_tracked (ts : List Token) (n : Nat) : (Reader.body n).Tracked ts n := by
  obtain ⟨hexpr, hunary⟩ := tracks_phrases ts n
  suffices hboth : Tracks ts false 1 n (Tape.block ts) (Reader.block n) ∧
      Tracks ts false 1 n (Tape.branch ts) (Reader.branch n) from
    ⟨hexpr, hunary, hboth.1, hboth.2⟩
  clear hexpr hunary
  induction n with
  | zero =>
    constructor
    all_goals
      intro d c σ hat hn
      exact absurd hat.lt (by omega)
  | succ n ih =>
    have hbody : (Reader.body n).Tracked ts n :=
      ⟨(tracks_phrases ts n).1, (tracks_phrases ts n).2, ih.1, ih.2⟩
    constructor
    · intro d c σ hat hn
      rw [Tape.block, Reader.block]
      exact tracks_nested (tracks_blockWith hbody) .block hat hn
    · intro d c σ hat hn
      rw [Reader.branch]
      exact tracks_branchWith hbody hat hn

end DeskScript
