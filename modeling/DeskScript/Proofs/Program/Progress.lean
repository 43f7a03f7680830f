import DeskScript.Proofs.Program.Sentences

/-!
# Progress

The parser in place ends on every list of tokens, with the result of `parse`, and its index never
leaves the list. `Production` lists the productions, each with the reader that it follows and the
number of tokens it moves over at least. Of every one of them `Proceeds` holds from every index
that is not beyond an end of input:

- it ends, with the result of the reader; so the bound of the reader is large enough
- the depth is the same again, whatever the result is
- all indices on the way are indices of the list, and none is beyond an end of input
- a success has moved the index on by the number of tokens that the table says
-/

namespace DeskScript

/-- From `σ` the parser `P` ends with the result of the reader `R`, which is not that a bound was
too small. It keeps the depth and stays in the list, and if it succeeds, it is at the place of the
reader and has moved `k` tokens on at least. -/
def Proceeds {α : Type} (ts : List Token) (σ : Spot) (k : Nat) (P : InPlace α) (R : Reader α) :
    Prop :=
  ∃ r σ', P.outcome σ = some (r, σ') ∧ σ'.depth = σ.depth ∧ σ'.Sound ts ∧
    match R (σ.cursor ts) with
    | .error e => r = .error e ∧ e.cause ≠ .exhausted
    | .ok (a, c) => r = .ok a ∧ σ'.cursor ts = { c with bare := σ'.bare } ∧ σ.pos + k ≤ σ'.pos

/-- The productions of the parser at a depth `d` and a token of a kind `here`, each with the least
number of tokens that it reads and its reader with the bound `n`. -/
inductive Production (ts : List Token) (n d : Nat) (here : TokenKind) :
    {α : Type} → Nat → InPlace α → Reader α → Prop
  | statement : Production ts n d here 1 (Tape.statement ts) (Reader.statement n (Reader.body n) d)
  | expression : Production ts n d here 1 (Tape.expression ts) (Reader.expression n d)
  | unary : Production ts n d here 1 (Tape.unary ts) (Reader.unary n d)
  | block : Production ts n d here 1 (Tape.block ts) (Reader.block n d)
  | callTail : Production ts n d here 1 (Tape.callTail ts)
      (Reader.callTail n (Reader.body n).inner d)
  | chains (levels : List (TokenKind → Option BinaryOp)) : levels ⊆ Reader.operatorLevels →
      Production ts n d here 1 (Tape.chains ts levels)
        (Reader.chains n (Reader.unaryWith n (Reader.body n).inner d) levels)
  | chainRest (op? : TokenKind → Option BinaryOp) (tighter : List (TokenKind → Option BinaryOp))
      (left : Expr) : op? :: tighter ⊆ Reader.operatorLevels →
      Production ts n d here 0 (Tape.chainRest ts op? tighter left)
        (Reader.chainRest op? (Reader.chains n (Reader.unaryWith n (Reader.body n).inner d) tighter)
          n left)
  | primary : Production ts n d here 1 (Tape.primary ts)
      (Reader.primary n (Reader.body n).inner d)
  | suffixes (e : Expr) : Production ts n d here 0 (Tape.suffixes ts e)
      (Reader.suffixes (Reader.expression n d) n e)
  | parenArgs : Production ts n d here 1 (Tape.parenArgs ts)
      (Reader.parenArgs n (Reader.expression n d))
  | bareArgs (read : List Expr) : Production ts n d here 0 (Tape.bareArgs ts read)
      (Reader.bareArgs (Reader.unary n d) n read)
  | items (close : Mark) (read : List Expr) : Production ts n d here 0 (Tape.items ts close read)
      (Reader.itemsUntil close (Reader.expression n d) n read)
  | objectField : Production ts n d here 1 (Tape.objectField ts (Tape.expression ts))
      (Reader.objectField (Reader.expression n d))
  | fields (read : List (String × Expr)) : Production ts n d here 0 (Tape.fields ts read)
      (Reader.itemsUntil .closeBrace (Reader.objectField (Reader.expression n d)) n read)
  | plainText (pos : Position) : Production ts n d here 0 (Tape.plainText ts pos)
      (Reader.plainText pos)
  | wholeExpression? : Production ts n d here 0 (Tape.wholeExpression? ts)
      (Reader.wholeExpression? (Reader.expression n d))
  | printed (pos : Position) : Production ts n d here 0 (Tape.printed ts pos)
      (Reader.printed (Reader.expression n d) pos)
  | accessors (read : List Accessor) : Production ts n d here 0 (Tape.accessors ts read)
      (Reader.accessors (Reader.expression n d) n read)
  | assignment (pos : Position) : Production ts n d here 1 (Tape.assignment ts pos)
      (Reader.assignment n (Reader.expression n d) pos)
  | parenParameters (read : List String) :
      Production ts n d here 0 (Tape.parenParameters ts read) (Reader.parenParameters n read)
  | bareParameters (read : List String) :
      Production ts n d here 0 (Tape.bareParameters ts read) (Reader.bareParameters n read)
  | parameters : Production ts n d here 0 (Tape.parameters ts) (Reader.parameters n)
  | hostArgs (read : List Expr) : Production ts n d here 0 (Tape.hostArgs ts read)
      (Reader.hostArgs (Reader.expression n d) n read)
  | answerVariable (verb : Verb) : Production ts n d here 0 (Tape.answerVariable ts verb)
      (Reader.answerVariable verb)
  | hostStatement (verb : Verb) (pos : Position) :
      Production ts n d here 0 (Tape.hostStatement ts verb pos)
        (Reader.hostStatement n (Reader.expression n d) verb pos)
  | callStatement (pos : Position) (name : String) : here = .ident name →
      Production ts n d here 1 (Tape.callStatement ts pos name)
        (Reader.callStatement n (Reader.expression n d) pos name)
  | optionalExpression : Production ts n d here 0 (Tape.optionalExpression ts)
      (Reader.optionalExpression (Reader.expression n d))
  | wordStatement (pos : Position) (k : Keyword) : here = .keyword k →
      Production ts n d here 1 (Tape.wordStatement ts pos k)
        (Reader.wordStatement n (Reader.body n) d pos k)
  | branch : Production ts n d here 1 (Tape.branch ts) (Reader.branch n d)
  | elseBlock : Production ts n d here 0 (Tape.elseBlock ts)
      (Reader.elseBlock (Reader.body n) d)
  | blockBody : Production ts n d here 1 (Tape.blockBody ts)
      (Reader.blockWith n (Reader.body n) d)
  | statements (opened : Option Position) (read : List Stmt) :
      Production ts n d here 0 (Tape.statements ts opened read)
        (Reader.statementsUntil (Reader.atEnd opened) (Reader.statement n (Reader.body n) d) n read)
  | endStatement : Production ts n d here 0 (Tape.endStatement ts) Reader.endStatement
  | variableName? : Production ts n d here 0 (Tape.variableName? ts) Reader.variableName?
  | variableName (w : Wanted) : Production ts n d here 1 (Tape.variableName ts w)
      (Reader.variableName w)
  | propertyName : Production ts n d here 1 (Tape.propertyName ts) Reader.propertyName
  | objectKey : Production ts n d here 1 (Tape.objectKey ts) Reader.objectKey
  | functionName : Production ts n d here 1 (Tape.functionName ts) Reader.functionName
  | eventName : Production ts n d here 1 (Tape.eventName ts) Reader.eventName
  | expect (m : Mark) : Production ts n d here 1 (Tape.expect ts m) (Reader.expect m)
  | expectWord (w : Keyword) : Production ts n d here 1 (Tape.expectWord ts w)
      (Reader.expectWord w)
  | accept (m : Mark) : Production ts n d here 0 (Tape.accept ts m) (Reader.accept m)
  | skipNewlines : Production ts n d here 0 (Tape.skipNewlines ts) Reader.skipNewlines

section
variable {α : Type} {ts : List Token} {n k d : Nat} {c : Cursor} {σ : Spot} {P : InPlace α}
  {R : Reader α}

theorem Production.follows (h : Production ts n d c.here.kind k P R) (hat : σ.At ts d c)
    (hn : ts.length ≤ σ.pos + n) : Follows ts d false (fun _ => σ.pos + k) c σ P R := by
  have hbody := body_tracked ts n
  have hexpr := hbody.expression
  have hoperand := tracks_unaryWith hexpr hbody.unary
  have hlevels {levels : List (TokenKind → Option BinaryOp)} (h : levels ⊆ Reader.operatorLevels) :
      ∀ op? ∈ levels, op? .eof = none := fun op? hop? => operatorLevels_eof op? (h hop?)
  cases h with
  | statement => exact tracks_statement hbody hat hn
  | expression => exact hexpr.uncounted hat hn
  | unary => exact hbody.unary.uncounted hat hn
  | block => exact hbody.block hat hn
  | callTail => exact (tracks_callTail hexpr hbody.unary).uncounted hat (by omega)
  | chains levels h => exact (tracks_chains hoperand (hlevels h)).uncounted hat (by omega)
  | chainRest op? tighter left h =>
    have hop? := hlevels h op? List.mem_cons_self
    have htighter := tracks_chains hoperand (hlevels fun _ ho => h (List.mem_cons_of_mem _ ho))
    exact (follows_chainRest hop? htighter hat hn hn left).uncounted
  | primary => exact (tracks_primary hexpr hbody.unary).uncounted hat (by omega)
  | suffixes e =>
    exact (follows_suffixes hexpr hat hn hn e).uncounted
  | parenArgs => exact (tracks_parenArgs hexpr).uncounted hat hn
  | bareArgs read =>
    exact (follows_bareArgs hbody.unary hat hn hn read).uncounted
  | items close read => exact (tracks_items hexpr close read).uncounted hat hn
  | objectField => exact (tracks_objectField hexpr).uncounted hat hn
  | fields read => exact (tracks_fields hexpr read).uncounted hat hn
  | plainText pos => exact follows_plainText hat pos
  | wholeExpression? => exact tracks_wholeExpression? hexpr hat hn
  | printed pos => exact tracks_printed hexpr pos hat hn
  | accessors read => exact follows_accessors hexpr hat hn hn read
  | assignment pos => exact tracks_assignment hexpr pos hat hn
  | parenParameters read => exact follows_parenParameters hat hn read
  | bareParameters read => exact follows_bareParameters hat hn read
  | parameters => exact follows_parameters hat hn
  | hostArgs read => exact follows_hostArgs hexpr hat hn hn read
  | answerVariable verb => exact follows_answerVariable hat verb
  | hostStatement verb pos => exact tracks_hostStatement hexpr verb pos hat hn
  | callStatement pos name hname =>
    exact follows_callStatement hexpr hat hn (by simp [hname]) pos name
  | optionalExpression => exact tracks_optionalExpression hexpr hat hn
  | wordStatement pos w hword => exact follows_wordStatement hbody hat hn hword pos
  | branch => exact hbody.branch hat hn
  | elseBlock => exact tracks_elseBlock hbody hat hn
  | blockBody => exact tracks_blockWith hbody hat (by omega)
  | statements opened read => exact follows_statements hbody hat hn hn opened read
  | endStatement => exact follows_endStatement hat
  | variableName? => exact (follows_variableName? hat).mono fun _ => by omega
  | variableName w => exact follows_variableName hat w
  | propertyName => exact follows_propertyName hat
  | objectKey => exact follows_objectKey hat
  | functionName => exact follows_functionName hat
  | eventName => exact follows_eventName hat
  | expect m => exact follows_expect hat m
  | expectWord w => exact follows_expectWord hat w
  | accept m => exact (follows_accept hat m).mono fun _ => by omega
  | skipNewlines => exact follows_skipNewlines hat

/-- What the parser does from `σ` is seen from the cursor at `σ`. -/
theorem Follows.proceeds {counted : Bool}
    (h : Follows ts σ.depth counted (fun _ => σ.pos + k) (σ.cursor ts) σ P R) :
    Proceeds ts σ k P R := by
  obtain ⟨⟨r, σ'⟩, hP, hmatches⟩ := h
  refine ⟨r, σ', hP, ?_⟩
  cases hR : R (σ.cursor ts) <;> rw [hR] at hmatches <;> cases hmatches
  · next hcause hdepth hsound => exact ⟨hdepth, hsound, rfl, hcause⟩
  · next hat hle _ => exact ⟨hat.depth, hat.sound, rfl, hat.view, hle⟩

/-- A list that ends with an end of input is seen so from each of its indices. -/
theorem Spot.Sound.at (hsound : σ.Sound ts) (hend : ∃ t, ts.getLast? = some t ∧ t.kind = .eof) :
    σ.At ts σ.depth (σ.cursor ts) := by
  obtain ⟨t, ht, hk⟩ := hend
  have hlt : σ.pos < ts.length := (hsound _ List.mem_cons_self).1
  refine ⟨rfl, rfl, hsound, t, ?_, hk⟩
  have hmin : min σ.pos (ts.length - 1) = σ.pos := by omega
  have hrest : (σ.cursor ts).rest = ts.drop σ.pos := by
    rw [List.drop_eq_getElem_cons hlt]
    simp [Cursor.rest, Spot.cursor, hmin, hlt]
  rw [hrest, List.getLast?_drop, if_neg (by omega), ht]

/-! ## Programs -/

theorem follows_program (hat : σ.At ts 0 c) (hn : ts.length ≤ σ.pos + n) :
    Follows ts 0 false (fun _ => σ.pos) c σ (Tape.program ts) (Reader.program n) := by
  refine Follows.peek hat ?_
  refine (follows_skipNewlines hat).bind fun _ c₁ σ₁ _ hat₁ hp₁ => ?_
  have hn₁ : ts.length ≤ σ₁.pos + n := by omega
  exact (follows_statements (body_tracked ts n) hat₁ hn₁ hn₁ none []).map fun _ => by omega

/-- A program is read up to an end of input. -/
theorem program_here {b : Block} {c' : Cursor} (h : Reader.program n c = .ok (b, c')) :
    c'.here.kind = .eof := by
  obtain ⟨t, c₁, -, h⟩ := Reader.bind_ok.mp h
  obtain ⟨-, c₂, -, h⟩ := Reader.bind_ok.mp h
  obtain ⟨ss, c₃, hread, h⟩ := Reader.bind_ok.mp h
  obtain ⟨-, rfl⟩ := Reader.pure_ok.mp h
  obtain ⟨c₄, hstop⟩ := statementsUntil_stops hread
  exact atEnd_here (show Reader.atEnd none c₄ = _ from hstop)

end

theorem ofTokens_eq_cursor (ts : List Token) :
    Cursor.ofTokens ts = Spot.start.cursor (Cursor.ended ts) := by
  unfold Cursor.ofTokens
  split
  · next t rest h => simp [Spot.cursor, Spot.start, h]
  · next h => simp [Spot.cursor, Spot.start, h]

theorem sound_start (ts : List Token) : Spot.start.Sound (Cursor.ended ts) := by
  obtain ⟨t, ht, -⟩ := Cursor.ended_getLast? ts
  have hpos : 0 < (Cursor.ended ts).length := List.length_pos_of_mem (List.mem_of_getLast? ht)
  simpa [Spot.Sound, Spot.start, Inside] using hpos

/-- The index is that of the first end of input where the token is one. -/
theorem Spot.At.pos_eq_findIdx {ts : List Token} {d : Nat} {c : Cursor} {σ : Spot}
    (hat : σ.At ts d c) (hk : c.here.kind = .eof) : σ.pos = ts.findIdx (·.kind == .eof) := by
  obtain ⟨hlt, hhere⟩ := List.getElem?_eq_some_iff.mp hat.getElem?
  refine ((List.findIdx_eq hlt).mpr ⟨?_, fun j hj => ?_⟩).symm
  · simp [hhere, hk]
  · have hmem : ts[j] ∈ ts.take σ.pos := List.mem_take_iff_getElem.mpr ⟨j, by omega, rfl⟩
    exact beq_eq_false_iff_ne.mpr ((hat.sound _ List.mem_cons_self).2 _ hmem)

/-- The parser in place reads a whole program as the readers do. -/
theorem outcome_program (ts : List Token) :
    ∃ σ, (Tape.program (Cursor.ended ts)).outcome .start = some (parse ts, σ) ∧ σ.depth = 0 ∧
      σ.Sound (Cursor.ended ts) ∧ (∀ e, parse ts = .error e → e.cause ≠ .exhausted) ∧
      ∀ b, parse ts = .ok b → σ.pos = (Cursor.ended ts).findIdx (·.kind == .eof) := by
  have hat : Spot.start.At (Cursor.ended ts) 0 (Cursor.ofTokens ts) := by
    rw [ofTokens_eq_cursor]
    exact (sound_start ts).at (Cursor.ended_getLast? ts)
  have hlength : (Cursor.ended ts).length = (Cursor.ofTokens ts).ahead.length + 1 := by
    rw [← Cursor.rest_ofTokens]
    rfl
  obtain ⟨⟨r, σ⟩, hP, hmatches⟩ :=
    follows_program (n := (Cursor.ofTokens ts).ahead.length + 2) hat (by omega)
  refine ⟨σ, ?_⟩
  unfold parse
  dsimp only
  cases hR : Reader.program ((Cursor.ofTokens ts).ahead.length + 2) (Cursor.ofTokens ts) <;>
    rw [hR] at hmatches <;> cases hmatches
  · next e hcause hdepth hsound =>
    refine ⟨hP, hdepth, hsound, ?_, nofun⟩
    rintro e' ⟨rfl⟩
    exact hcause
  · next b c hat' _ _ =>
    exact ⟨hP, hat'.depth, hat'.sound, nofun, fun _ _ => hat'.pos_eq_findIdx (program_here hR)⟩

/-- The parser in place ends on every list of tokens with the result of `parse`: the depth is zero
again, no index was outside the list with its end of input, an error is one of the program and not
of the bound, and if there is a block, the index is that of the first end of input. From every index
up to there, every production ends, keeps the depth and stays in the list, and moves the index on as
`Production` says if it succeeds. -/
theorem parse_proceeds (ts : List Token) :
    (∃ σ, (Tape.program (Cursor.ended ts)).outcome .start = some (parse ts, σ) ∧
      σ.depth = 0 ∧ (∀ p ∈ σ.pos :: σ.trail, p < (Cursor.ended ts).length) ∧
      (∀ e, parse ts = .error e → e.cause ≠ .exhausted) ∧
      ∀ b, parse ts = .ok b → σ.pos = (Cursor.ended ts).findIdx (·.kind == .eof)) ∧
    ∀ (σ : Spot) (n : Nat), σ.Sound (Cursor.ended ts) → (Cursor.ended ts).length ≤ σ.pos + n →
      ∀ {α : Type} {k : Nat} {P : InPlace α} {R : Reader α},
        Production (Cursor.ended ts) n σ.depth (σ.cursor (Cursor.ended ts)).here.kind k P R →
        Proceeds (Cursor.ended ts) σ k P R := by
  constructor
  · obtain ⟨σ, hP, hdepth, hsound, hcause, hpos⟩ := outcome_program ts
    exact ⟨σ, hP, hdepth, fun p hp => (hsound p hp).1, hcause, hpos⟩
  · intro σ n hsound hn α k P R hproduction
    exact (hproduction.follows (hsound.at (Cursor.ended_getLast? ts)) hn).proceeds

/-- `print "a"`, an end of input, and a word after it. -/
def endedEarly : List Token :=
  [⟨.keyword .print, "print", ⟨1, 1⟩⟩, ⟨.string "a", "\"a\"", ⟨1, 7⟩⟩, ⟨.eof, "", ⟨1, 10⟩⟩,
    ⟨.ident "x", "x", ⟨2, 1⟩⟩]

theorem parse_proceeds_endedEarly :
    Spot.start.Sound (Cursor.ended endedEarly) ∧
    (Cursor.ended endedEarly).length ≤ Spot.start.pos + 5 ∧
    (∃ σ, (Tape.program (Cursor.ended endedEarly)).outcome .start =
      some (.ok (.mk ⟨1, 1⟩ [.print ⟨1, 1⟩ (.literal ⟨1, 7⟩ (.string "a"))]), σ) ∧ σ.pos = 2) ∧
    Proceeds (Cursor.ended endedEarly) .start 1 (Tape.statement (Cursor.ended endedEarly))
      (Reader.statement 5 (Reader.body 5) 0) := by
  have hparse : parse endedEarly =
      .ok (.mk ⟨1, 1⟩ [.print ⟨1, 1⟩ (.literal ⟨1, 7⟩ (.string "a"))]) := rfl
  have hsound := sound_start endedEarly
  have hlength : (Cursor.ended endedEarly).length ≤ Spot.start.pos + 5 := by decide
  obtain ⟨⟨σ, hrun, -, -, -, hpos⟩, hall⟩ := parse_proceeds endedEarly
  rw [hparse] at hrun
  exact ⟨hsound, hlength, ⟨σ, hrun, hpos _ hparse⟩, hall .start 5 hsound hlength .statement⟩

end DeskScript
