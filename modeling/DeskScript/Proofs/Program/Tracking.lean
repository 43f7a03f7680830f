import DeskScript.Proofs.Program.InPlace
import DeskScript.Proofs.Program.Bare

/-!
# The parser in place follows the readers

`Follows` says of a parser in place and a reader that, started at the same place, the first ends and
does what the second does. A lower bound for the index after a success is part of it: how far a
production moves at least is what makes the loops end. `Follows.bind` puts parsers together, and the
rest of this module is about single tokens, names and nesting. `Tracks` is the form for whole
productions:

    σ.At ts d c → ts.length ≤ σ.pos + n → Follows ts d counted (fun _ => σ.pos + k) c σ P (R d)
-/

namespace DeskScript

/-! ## Indices and cursors -/

/-- An index of the list before which the input does not end. -/
def Inside (ts : List Token) (p : Nat) : Prop := p < ts.length ∧ ∀ t ∈ ts.take p, t.kind ≠ .eof

namespace Spot

/-- All indices so far are indices of the list, and none is beyond an end of input. -/
def Sound (ts : List Token) (σ : Spot) : Prop := ∀ p ∈ σ.pos :: σ.trail, Inside ts p

/-- The cursor and the variables are at the same token, at the depth `d`. -/
structure At (ts : List Token) (d : Nat) (c : Cursor) (σ : Spot) : Prop where
  view : σ.cursor ts = { c with bare := σ.bare }
  depth : σ.depth = d
  sound : σ.Sound ts
  ended : c.Ended

variable {ts : List Token} {d : Nat} {c : Cursor} {σ : Spot}

theorem At.lt (h : σ.At ts d c) : σ.pos < ts.length := (h.sound _ List.mem_cons_self).1

theorem At.here (h : σ.At ts d c) : (σ.cursor ts).here = c.here := by rw [h.view]

theorem At.getElem? (h : σ.At ts d c) : ts[σ.pos]? = some c.here := by
  have hlt := h.lt
  have hmin : min σ.pos (ts.length - 1) = σ.pos := by omega
  rw [← h.here]
  simp [cursor, hmin, hlt]

theorem At.ahead (h : σ.At ts d c) : c.ahead = ts.drop (σ.pos + 1) :=
  (congrArg Cursor.ahead h.view).symm

/-- The input does not end with a token other than its end. -/
theorem At.lt_of_ne (h : σ.At ts d c) (hk : c.here.kind ≠ .eof) : σ.pos + 1 < ts.length := by
  obtain ⟨t, ht, htk⟩ := h.ended
  refine Nat.lt_of_not_le fun hge => ?_
  have hnil : c.ahead = [] := by rw [h.ahead, List.drop_eq_nil_iff]; omega
  rw [Cursor.rest, hnil, List.getLast?_singleton, Option.some.injEq] at ht
  exact hk (ht ▸ htk)

theorem sound_moveTo (h : σ.Sound ts) {p : Nat} (hp : Inside ts p) :
    Sound ts { σ with pos := p, trail := p :: σ.trail } := by
  intro q hq
  simp only [List.mem_cons] at hq
  rcases hq with rfl | rfl | hq
  · exact hp
  · exact hp
  · exact h q (List.mem_cons_of_mem _ hq)

theorem At.next (h : σ.At ts d c) (hk : c.here.kind ≠ .eof) :
    At ts d c.next { σ with pos := σ.pos + 1, trail := (σ.pos + 1) :: σ.trail } := by
  have hlt := h.lt_of_ne hk
  have hahead : c.ahead = ts[σ.pos + 1] :: ts.drop (σ.pos + 2) := by
    rw [h.ahead, List.drop_eq_getElem_cons hlt]
  refine ⟨?_, h.depth, sound_moveTo h.sound ⟨hlt, ?_⟩, (Cursor.reads_next h.ended hk).ended h.ended⟩
  · rw [Cursor.next, hahead]
    simp only [cursor]
    congr 1
    · simp [h.getElem?]
    · rw [List.getD_eq_getElem?_getD, List.getElem?_eq_getElem (by omega)]
      simp only [Option.getD_some]
      congr 1
      omega
  · intro t ht
    rw [List.take_add_one, List.mem_append] at ht
    rcases ht with ht | ht
    · exact (h.sound _ List.mem_cons_self).2 t ht
    · rw [h.getElem?, Option.toList_some, List.mem_singleton] at ht
      exact ht ▸ hk

end Spot

namespace InPlace

variable {α β : Type} {σ : Spot}

/-! ## Outcomes -/

theorem outcome_bind (P : InPlace α) (f : α → InPlace β) (σ : Spot) :
    (P >>= f).outcome σ = (P.outcome σ).bind fun x =>
      match x with
      | (.ok a, σ') => (f a).outcome σ'
      | (.error e, σ') => some (.error e, σ') := by
  unfold outcome
  rw [ExceptT.run_bind, StateT.run_bind]
  cases P.run.run σ with
  | none => rfl
  | some x =>
    obtain ⟨r, σ'⟩ := x
    cases r <;> rfl

theorem outcome_held (P : InPlace α) (σ : Spot) :
    (held P).outcome σ = (P.outcome σ).map fun x => (.ok x.1, x.2) := by
  show (Except.ok <$> P.run : StateT Spot Option _).run σ = _
  rw [StateT.run_map]
  rfl

theorem outcome_nested (ts : List Token) (what : Nest) (P : InPlace α) (σ : Spot) :
    (Tape.nested ts what P).outcome σ =
      if Reader.maxNesting ≤ σ.depth then (Tape.fail ts (.tooDeep what) : InPlace α).outcome σ
      else (P.outcome { σ with depth := σ.depth + 1 }).map fun x =>
        (x.1, { x.2 with depth := x.2.depth - 1 }) := by
  show (if Reader.maxNesting ≤ σ.depth then _ else _ : InPlace α).outcome σ = _
  split
  · rfl
  · show (held P >>= _).outcome { σ with depth := σ.depth + 1 } = _
    rw [outcome_bind, outcome_held]
    cases P.outcome { σ with depth := σ.depth + 1 } with
    | none => rfl
    | some x =>
      obtain ⟨r, σ'⟩ := x
      cases r <;> rfl

end InPlace

/-! ## Following a reader -/

/-- What a reader gives from `c` and what a parser in place comes to from `σ`. If they succeed, the
result is the same, the places are the same again, and the index is `p` at least. Success or
failure, the depth is `d`, and no index was outside. A failure is never for want of a bound. Of the
`counted` ones both counted the same number of bare names. -/
inductive Matches {α : Type} (ts : List Token) (d : Nat) (counted : Bool) (p : α → Nat) (c : Cursor)
    (σ : Spot) : Except ParseError (α × Cursor) → Except ParseError α × Spot → Prop
  | ok {a : α} {c' : Cursor} {σ' : Spot} : σ'.At ts d c' → p a ≤ σ'.pos →
      (counted = true → σ'.bare + c.bare = σ.bare + c'.bare) →
      Matches ts d counted p c σ (.ok (a, c')) (.ok a, σ')
  | error {e : ParseError} {σ' : Spot} : e.cause ≠ .exhausted → σ'.depth = d → σ'.Sound ts →
      Matches ts d counted p c σ (.error e) (.error e, σ')

/-- From `σ` the parser `P` ends, and does what the reader `R` does from `c`. -/
def Follows {α : Type} (ts : List Token) (d : Nat) (counted : Bool) (p : α → Nat) (c : Cursor)
    (σ : Spot) (P : InPlace α) (R : Reader α) : Prop :=
  ∃ x, P.outcome σ = some x ∧ Matches ts d counted p c σ (R c) x

section
variable {α β : Type} {ts : List Token} {d : Nat} {counted : Bool} {c : Cursor} {σ : Spot}
  {p : α → Nat} {q : β → Nat}

theorem Follows.bind {P : InPlace α} {R : Reader α} {f : α → InPlace β} {g : α → Reader β}
    (h : Follows ts d counted p c σ P R)
    (hnext : ∀ a c₁ σ₁, R c = .ok (a, c₁) → σ₁.At ts d c₁ → p a ≤ σ₁.pos →
      Follows ts d counted q c₁ σ₁ (f a) (g a)) :
    Follows ts d counted q c σ (P >>= f) (R >>= g) := by
  obtain ⟨⟨r, σ₁⟩, hP, hmatches⟩ := h
  have hR : (R >>= g) c = (R c >>= fun x => g x.1 x.2) := rfl
  unfold Follows
  rw [InPlace.outcome_bind, hP, hR]
  cases hc : R c with
  | error e =>
    rw [hc] at hmatches
    cases hmatches with
    | error hcause hdepth hsound => exact ⟨_, rfl, .error hcause hdepth hsound⟩
  | ok y =>
    obtain ⟨a, c₁⟩ := y
    rw [hc] at hmatches
    cases hmatches with
    | ok hat hp hbare =>
      obtain ⟨⟨r₂, σ₂⟩, hf, hmatches₂⟩ := hnext a c₁ σ₁ hc hat hp
      refine ⟨_, hf, ?_⟩
      show Matches ts d counted q c σ (g a c₁) (r₂, σ₂)
      cases hg : g a c₁ <;> rw [hg] at hmatches₂ <;> cases hmatches₂
      · next hcause hdepth hsound => exact .error hcause hdepth hsound
      · next hat₂ hq hbare₂ =>
        refine .ok hat₂ hq fun hcounted => ?_
        have := hbare hcounted
        have := hbare₂ hcounted
        omega

/-- The reader may be another one that does the same here. -/
theorem Follows.right {P : InPlace α} {R R' : Reader α} (h : Follows ts d counted p c σ P R')
    (heq : R c = R' c) : Follows ts d counted p c σ P R := by
  obtain ⟨x, hP, hmatches⟩ := h
  exact ⟨x, hP, heq ▸ hmatches⟩

/-- Less may be asked for. -/
theorem Follows.weaken {P : InPlace α} {R : Reader α} {counted' : Bool} {p' : α → Nat}
    (h : Follows ts d counted p c σ P R) (hp : ∀ a, p' a ≤ p a)
    (hcounted : counted' = true → counted = true) : Follows ts d counted' p' c σ P R := by
  obtain ⟨x, hP, hmatches⟩ := h
  refine ⟨x, hP, ?_⟩
  generalize R c = r at hmatches
  cases hmatches with
  | ok hat hle hbare => exact .ok hat (Nat.le_trans (hp _) hle) fun h => hbare (hcounted h)
  | error hcause hdepth hsound => exact .error hcause hdepth hsound

theorem Follows.mono {P : InPlace α} {R : Reader α} {p' : α → Nat}
    (h : Follows ts d counted p c σ P R) (hp : ∀ a, p' a ≤ p a) :
    Follows ts d counted p' c σ P R :=
  h.weaken hp id

theorem Follows.uncounted {P : InPlace α} {R : Reader α} (h : Follows ts d counted p c σ P R) :
    Follows ts d false p c σ P R :=
  h.weaken (fun _ => Nat.le_refl _) nofun

theorem Follows.map {P : InPlace α} {R : Reader α} {f : α → β} (h : Follows ts d counted p c σ P R)
    (hq : ∀ a, q (f a) ≤ p a) :
    Follows ts d counted q c σ (P >>= fun a => pure (f a)) (R >>= fun a => pure (f a)) :=
  h.bind fun a _ _ _ hat hp => ⟨_, rfl, .ok hat (Nat.le_trans (hq a) hp) fun _ => rfl⟩

theorem Follows.ite {b : Bool} {P P' : InPlace α} {R R' : Reader α}
    (htrue : b = true → Follows ts d counted p c σ P R)
    (hfalse : b = false → Follows ts d counted p c σ P' R') :
    Follows ts d counted p c σ (if b then P else P') (if b then R else R') := by
  cases b with
  | true => exact htrue rfl
  | false => exact hfalse rfl

variable (hat : σ.At ts d c)
include hat

theorem follows_pure {a : α} (hp : p a ≤ σ.pos) :
    Follows ts d counted p c σ (pure a) (pure a) :=
  ⟨_, rfl, .ok hat hp fun _ => rfl⟩

theorem follows_failAt {cause : ParseCause} (hcause : cause ≠ .exhausted) (pos : Position) :
    Follows ts d counted p c σ (InPlace.failAt cause pos) (Reader.failAt cause pos) :=
  ⟨_, rfl, .error hcause hat.depth hat.sound⟩

theorem Follows.look {f : Cursor → InPlace β} {R : Reader β}
    (h : Follows ts d counted q c σ (f { c with bare := σ.bare }) R) :
    Follows ts d counted q c σ (Tape.look ts >>= f) R := by
  obtain ⟨x, hP, hmatches⟩ := h
  refine ⟨x, ?_, hmatches⟩
  rw [← hP, ← hat.view]
  rfl

/-! The parser always looks at the whole place; the reader asks for what it needs. -/

theorem Follows.get {f : Cursor → InPlace β} {g : Cursor → Reader β}
    (h : Follows ts d counted q c σ (f { c with bare := σ.bare }) (g c)) :
    Follows ts d counted q c σ (Tape.look ts >>= f) (MonadState.get >>= g) :=
  Follows.look hat (h.right (Reader.bind_run (Reader.get_run c)))

theorem Follows.peek {f : Cursor → InPlace β} {g : Token → Reader β}
    (h : Follows ts d counted q c σ (f { c with bare := σ.bare }) (g c.here)) :
    Follows ts d counted q c σ (Tape.look ts >>= f) (Reader.peek >>= g) :=
  Follows.look hat (h.right (Reader.bind_run (Reader.peek_run c)))

theorem Follows.isAt {kind : TokenKind} {f : Cursor → InPlace β} {g : Bool → Reader β}
    (h : Follows ts d counted q c σ (f { c with bare := σ.bare }) (g (c.here.kind == kind))) :
    Follows ts d counted q c σ (Tape.look ts >>= f) (Reader.isAt kind >>= g) :=
  Follows.look hat (h.right (Reader.bind_run (Reader.isAt_run kind c)))

theorem follows_fail {cause : ParseCause} (hcause : cause ≠ .exhausted) :
    Follows ts d counted p c σ (Tape.fail ts cause) (Reader.fail cause) :=
  Follows.look hat ((follows_failAt hat hcause c.here.pos).right rfl)

theorem follows_unexpected (place : Place) :
    Follows ts d counted p c σ (Tape.unexpected ts place) (Reader.unexpected place) := by
  have hcause : ParseCause.unexpected c.found place ≠ .exhausted := nofun
  exact Follows.look hat ((follows_failAt hat hcause c.here.pos).right rfl)

theorem follows_want (w : Wanted) :
    Follows ts d counted p c σ (Tape.want ts w) (Reader.want w) :=
  follows_unexpected hat _

theorem follows_advance (hk : c.here.kind ≠ .eof) :
    Follows ts d counted (fun _ => σ.pos + 1) c σ (Tape.advance ts) Reader.advance := by
  have hlt : σ.pos < ts.length - 1 := by
    have := hat.lt_of_ne hk
    omega
  refine ⟨(.ok c.here, _), ?_, .ok (hat.next hk) (Nat.le_refl _) fun _ => by rw [c.bare_next]⟩
  show (if σ.pos < ts.length - 1 then
    InPlace.moveTo (σ.pos + 1) >>= fun _ => pure (σ.cursor ts).here
    else pure (σ.cursor ts).here : InPlace Token).outcome σ = _
  rw [if_pos hlt, hat.here]
  rfl

/-- Moving on from a token of a known kind. -/
theorem follows_ite_advance {kind : TokenKind} (hk : kind ≠ .eof) {P : InPlace Token}
    {R : Reader Token} (h : Follows ts d counted (fun _ => σ.pos + 1) c σ P R) :
    Follows ts d counted (fun _ => σ.pos + 1) c σ
      (Tape.look ts >>= fun c => if c.here.kind == kind then Tape.advance ts else P)
      (Reader.isAt kind >>= fun b => if b then Reader.advance else R) := by
  refine Follows.isAt hat (Follows.ite (fun hkind => ?_) fun _ => h)
  rw [beq_iff_eq] at hkind
  exact follows_advance hat (hkind ▸ hk)

theorem follows_expect (m : Mark) :
    Follows ts d counted (fun _ => σ.pos + 1) c σ (Tape.expect ts m) (Reader.expect m) :=
  follows_ite_advance hat (by simp) (follows_want hat _)

theorem follows_expectWord (k : Keyword) :
    Follows ts d counted (fun _ => σ.pos + 1) c σ (Tape.expectWord ts k) (Reader.expectWord k) :=
  follows_ite_advance hat (by simp) (follows_want hat _)

theorem follows_accept (m : Mark) :
    Follows ts d counted (fun b => σ.pos + b.toNat) c σ (Tape.accept ts m) (Reader.accept m) := by
  refine Follows.isAt hat (Follows.ite (fun hkind => ?_) fun _ => follows_pure hat (Nat.le_refl _))
  have heof : c.here.kind ≠ .eof := by simp_all
  exact (follows_advance hat heof).bind fun _ _ _ _ hat₁ hp => follows_pure hat₁ hp

end

/-! ## Loops over tokens -/

namespace Cursor

theorem skipWhile_of_false {p : Token → Bool} {c : Cursor} (h : p c.here = false) :
    c.skipWhile p = c := by
  unfold skipWhile
  cases c.ahead with
  | nil => rfl
  | cons t l => simp [skipWhile.go, h]

theorem skipWhile_of_true {p : Token → Bool} {c : Cursor} (hc : c.Ended) (hk : c.here.kind ≠ .eof)
    (h : p c.here = true) : c.skipWhile p = c.next.skipWhile p := by
  have hreads := reads_next hc hk
  unfold skipWhile
  cases ha : c.ahead with
  | nil => simp [Reads, rest, next, ha] at hreads
  | cons t l => simp [skipWhile.go, h, next, ha]

end Cursor

section
variable {α β : Type} {ts : List Token} {d : Nat} {counted : Bool} {c : Cursor} {σ : Spot}
  {p : α → Nat} {q : β → Nat} (hat : σ.At ts d c)
include hat

theorem follows_skipNewlines :
    Follows ts d counted (fun _ => σ.pos) c σ (Tape.skipNewlines ts) Reader.skipNewlines := by
  -- on the number of tokens that are left
  obtain ⟨n, hn⟩ : ∃ n, ts.length ≤ σ.pos + n := ⟨ts.length, by omega⟩
  induction n generalizing c σ with
  | zero =>
    have := hat.lt
    omega
  | succ n ih =>
    rw [Tape.skipNewlines]
    refine Follows.look hat ?_
    by_cases hkind : c.here.kind = .newline
    · have heof : c.here.kind ≠ .eof := by simp [hkind]
      simp only [hkind, beq_self_eq_true, if_true]
      have hskip : Reader.skipNewlines c = (Reader.advance >>= fun _ => Reader.skipNewlines) c := by
        show Except.ok ((), c.skipWhile (·.kind == .newline)) = _
        rw [Cursor.skipWhile_of_true hat.ended heof (by simp [hkind])]
        rfl
      refine Follows.right ?_ hskip
      refine (follows_advance hat heof).bind fun _ _ σ₁ _ hat₁ hp => ?_
      exact (ih hat₁ (by omega)).mono fun _ => by omega
    · simp only [beq_eq_false_iff_ne.mpr hkind, Bool.false_eq_true, if_false]
      have hskip : Reader.skipNewlines c = (pure () : Reader Unit) c := by
        show Except.ok ((), c.skipWhile (·.kind == .newline)) = _
        rw [Cursor.skipWhile_of_false (by simp [hkind])]
        rfl
      exact Follows.right (follows_pure hat (Nat.le_refl _)) hskip

/-! ## Words -/

theorem follows_variableName? :
    Follows ts d counted (fun o => σ.pos + o.toList.length) c σ (Tape.variableName? ts)
      Reader.variableName? := by
  refine Follows.peek hat ?_
  dsimp only
  cases hk : c.here.kind with
  | «variable» name | ident name =>
    exact (follows_advance hat (by simp [hk])).bind fun _ _ _ _ hat₁ hp => follows_pure hat₁ hp
  | _ => exact follows_pure hat (Nat.le_refl _)

theorem follows_variableName (w : Wanted) :
    Follows ts d counted (fun _ => σ.pos + 1) c σ (Tape.variableName ts w)
      (Reader.variableName w) := by
  refine (follows_variableName? hat).bind fun o _ _ _ hat₁ hp => ?_
  cases o with
  | some name => exact follows_pure hat₁ hp
  | none => exact follows_want hat₁ w

theorem follows_propertyName :
    Follows ts d counted (fun _ => σ.pos + 1) c σ (Tape.propertyName ts) Reader.propertyName := by
  refine Follows.peek hat ?_
  dsimp only
  cases hk : c.here.kind with
  | ident name | keyword k =>
    exact (follows_advance hat (by simp [hk])).map fun _ => Nat.le_refl _
  | _ => exact follows_want hat _

theorem follows_objectKey :
    Follows ts d counted (fun _ => σ.pos + 1) c σ (Tape.objectKey ts) Reader.objectKey := by
  refine Follows.peek hat ?_
  dsimp only
  cases hk : c.here.kind with
  | ident name | keyword k | number x =>
    exact (follows_advance hat (by simp [hk])).map fun _ => Nat.le_refl _
  | string s => exact (follows_advance hat (by simp [hk])).map fun _ => Nat.le_refl _
  | _ => exact follows_want hat _

theorem follows_functionName :
    Follows ts d counted (fun _ => σ.pos + 1) c σ (Tape.functionName ts) Reader.functionName := by
  refine Follows.peek hat ?_
  dsimp only
  cases hk : c.here.kind with
  | ident name => exact (follows_advance hat (by simp [hk])).map fun _ => Nat.le_refl _
  | _ => exact follows_want hat _

theorem follows_eventName :
    Follows ts d counted (fun _ => σ.pos + 1) c σ (Tape.eventName ts) Reader.eventName := by
  refine Follows.peek hat ?_
  dsimp only
  cases hk : c.here.kind with
  | ident name | keyword k =>
    exact (follows_advance hat (by simp [hk])).map fun _ => Nat.le_refl _
  | string s => exact (follows_advance hat (by simp [hk])).map fun _ => Nat.le_refl _
  | _ => exact follows_want hat _

end

/-! ## Nesting -/

/-- Where at most `n` tokens are left, `P` does what `R` does, and if it succeeds, `k` tokens are
read at least. -/
def Tracks {α : Type} (ts : List Token) (counted : Bool) (k n : Nat) (P : InPlace α)
    (R : Nat → Reader α) : Prop :=
  ∀ ⦃d : Nat⦄ ⦃c : Cursor⦄ ⦃σ : Spot⦄, σ.At ts d c → ts.length ≤ σ.pos + n →
    Follows ts d counted (fun _ => σ.pos + k) c σ P (R d)

/-- The depth is the same again after what is nested, success or failure. -/
theorem tracks_nested {α : Type} {ts : List Token} {counted : Bool} {k n : Nat} {P : InPlace α}
    {R : Nat → Reader α} (h : Tracks ts counted k n P R) (what : Nest) :
    Tracks ts counted k n (Tape.nested ts what P) fun d => Reader.nested what d R := by
  intro d c σ hat hn
  show Follows ts d counted (fun _ => σ.pos + k) c σ _
    (if Reader.maxNesting ≤ d then Reader.fail (.tooDeep what) else R (d + 1))
  unfold Follows
  rw [InPlace.outcome_nested, hat.depth]
  by_cases hdeep : Reader.maxNesting ≤ d
  · rw [if_pos hdeep, if_pos hdeep]
    exact follows_fail hat (by simp)
  · rw [if_neg hdeep, if_neg hdeep]
    have hat' : Spot.At ts (d + 1) c { σ with depth := d + 1 } :=
      ⟨hat.view, rfl, hat.sound, hat.ended⟩
    obtain ⟨⟨r, σ₁⟩, hP, hmatches⟩ := h hat' hn
    rw [hP]
    refine ⟨_, rfl, ?_⟩
    generalize R (d + 1) c = y at hmatches
    cases hmatches with
    | ok hat₁ hp hbare =>
      exact .ok ⟨hat₁.view, by simp [hat₁.depth], hat₁.sound, hat₁.ended⟩ hp hbare
    | error hcause hdepth hsound => exact .error hcause (by simp [hdepth]) hsound

end DeskScript
