import DeskScript.Program.Sentence

/-!
# What readers read

A reader that succeeds has moved its cursor over some tokens. `c.Reads seg c'` says
that these are `seg`; the list behind a cursor ends with an end-of-input token
(`Ended`), which no reader moves over:

    c.Ended → c.here.kind ≠ .eof → c.Reads [c.here] c.next      (Cursor.reads_next)
-/

namespace DeskScript

namespace Cursor

/-- The tokens from this one on. -/
def rest (c : Cursor) : List Token := c.here :: c.ahead

/-- The tokens end with the end of input. -/
def Ended (c : Cursor) : Prop := ∃ t, c.rest.getLast? = some t ∧ t.kind = .eof

/-- `seg` stands between two cursors. -/
def Reads (c : Cursor) (seg : List Token) (c' : Cursor) : Prop := c.rest = seg ++ c'.rest

theorem Reads.refl (c : Cursor) : c.Reads [] c := rfl

theorem Reads.trans {c c' c'' : Cursor} {s t : List Token} (h : c.Reads s c') (h' : c'.Reads t c'') :
    c.Reads (s ++ t) c'' := by
  rw [Reads, h, h', List.append_assoc]

theorem Reads.ended {c c' : Cursor} {seg : List Token} (h : c.Reads seg c') (hc : c.Ended) :
    c'.Ended := by
  obtain ⟨t, ht, hk⟩ := hc
  refine ⟨t, ?_, hk⟩
  rw [h, List.getLast?_append] at ht
  simpa [rest, List.getLast?_cons] using ht

theorem Reads.suffix {c c' : Cursor} {seg : List Token} (h : c.Reads seg c') :
    c'.rest <:+ c.rest :=
  ⟨seg, h.symm⟩

theorem reads_next {c : Cursor} (hc : c.Ended) (hk : c.here.kind ≠ .eof) :
    c.Reads [c.here] c.next := by
  obtain ⟨t, ht, htk⟩ := hc
  unfold Reads rest next
  cases ha : c.ahead with
  | nil =>
    rw [rest, ha, List.getLast?_singleton, Option.some.injEq] at ht
    exact absurd (ht ▸ htk) hk
  | cons u rest => rfl

theorem skipWhile_reads (p : Token → Bool) (c : Cursor) :
    ∃ seg, c.Reads seg (c.skipWhile p) ∧ ∀ t ∈ seg, p t = true := by
  unfold skipWhile
  generalize hl : c.ahead = l
  induction l generalizing c with
  | nil => exact ⟨[], .refl c, by simp⟩
  | cons t l ih =>
    unfold skipWhile.go
    split
    · next hp =>
      have hnext : c.Reads [c.here] c.next := by simp [Reads, rest, next, hl]
      obtain ⟨seg, hseg, hall⟩ := ih c.next (by simp [next, hl])
      exact ⟨c.here :: seg, hnext.trans hseg, List.forall_mem_cons.mpr ⟨hp, hall⟩⟩
    · exact ⟨[], .refl c, by simp⟩

theorem ended_getLast? (ts : List Token) :
    ∃ t, (ended ts).getLast? = some t ∧ t.kind = .eof := by
  unfold ended
  split
  · next h => simpa [Option.any_eq_true] using h
  · exact ⟨ending ts, by simp, by unfold ending; split <;> rfl⟩

theorem rest_ofTokens (ts : List Token) : (ofTokens ts).rest = ended ts := by
  obtain ⟨t, ht, -⟩ := ended_getLast? ts
  unfold ofTokens
  split
  · next h => exact h.symm
  · next h => simp [h] at ht

end Cursor

theorem exceptMap_ok {ε α β : Type} {x : Except ε α} {f : α → β} {b : β} :
    x.map f = .ok b ↔ ∃ a, x = .ok a ∧ f a = b := by
  cases x <;> simp [Except.map]

/-- Nothing but line breaks. -/
def Blank (ts : List Token) : Prop := ∀ t ∈ ts, t.kind = .newline

namespace Reader

variable {α β : Type} {c c' : Cursor}

/-! ## Success -/

theorem bind_ok {r : Reader α} {f : α → Reader β} {b : β} :
    (r >>= f) c = .ok (b, c') ↔ ∃ a c₁, r c = .ok (a, c₁) ∧ f a c₁ = .ok (b, c') := by
  have heq : (r >>= f) c = (r c >>= fun p => f p.1 p.2) := rfl
  rw [heq]
  cases h : r c with
  | error e => simp [bind, Except.bind]
  | ok p =>
    obtain ⟨a, c₁⟩ := p
    simp only [bind, Except.bind, Except.ok.injEq, Prod.mk.injEq]
    constructor
    · exact fun h => ⟨a, c₁, ⟨rfl, rfl⟩, h⟩
    · rintro ⟨a, c₁, ⟨rfl, rfl⟩, h⟩
      exact h

theorem bind_run {r : Reader α} {f : α → Reader β} {a : α} (h : r c = .ok (a, c')) :
    (r >>= f) c = f a c' := by
  have heq : (r >>= f) c = (r c >>= fun q => f q.1 q.2) := rfl
  rw [heq, h]
  rfl

theorem bind_error {r : Reader α} {e : ParseError} (h : r c = .error e) (f : α → Reader β) :
    (r >>= f) c = .error e := by
  have heq : (r >>= f) c = (r c >>= fun q => f q.1 q.2) := rfl
  rw [heq, h]
  rfl

theorem pure_run (a : α) (c : Cursor) : (pure a : Reader α) c = .ok (a, c) := rfl

theorem get_run (c : Cursor) : (get : Reader Cursor) c = .ok (c, c) := rfl

theorem modify_run (f : Cursor → Cursor) (c : Cursor) :
    (modify f : Reader PUnit) c = .ok (⟨⟩, f c) := rfl

theorem failAt_run (cause : ParseCause) (pos : Position) (c : Cursor) :
    (failAt cause pos : Reader α) c = .error ⟨cause, pos⟩ := rfl

theorem pure_ok {a b : α} : (pure a : Reader α) c = .ok (b, c') ↔ a = b ∧ c = c' := by
  simp [pure_run]

theorem get_ok {d : Cursor} : (get : Reader Cursor) c = .ok (d, c') ↔ c = d ∧ c = c' := by
  simp [get_run]

theorem modify_ok {f : Cursor → Cursor} {u : PUnit} :
    (modify f : Reader PUnit) c = .ok (u, c') ↔ f c = c' := by
  simp [modify_run]

theorem failAt_ok {cause : ParseCause} {pos : Position} {a : α} :
    (failAt cause pos : Reader α) c = .ok (a, c') ↔ False := by
  simp [failAt_run]

theorem fail_ok {cause : ParseCause} {a : α} : (fail cause : Reader α) c = .ok (a, c') ↔ False := by
  simp only [fail, bind_ok, failAt_ok, and_false, exists_false]

theorem unexpected_ok {place : Place} {a : α} :
    (unexpected place : Reader α) c = .ok (a, c') ↔ False := by
  simp only [unexpected, bind_ok, failAt_ok, and_false, exists_false]

theorem want_ok {w : Wanted} {a : α} : (want w : Reader α) c = .ok (a, c') ↔ False := unexpected_ok

/-! ## Looking at a token -/

theorem peek_run (c : Cursor) : peek c = .ok (c.here, c) := rfl

theorem advance_run (c : Cursor) : advance c = .ok (c.here, c.next) := rfl

theorem isAt_run (kind : TokenKind) (c : Cursor) : isAt kind c = .ok (c.here.kind == kind, c) := rfl

theorem isAtMark_run (m : Mark) (c : Cursor) :
    isAtMark m c = .ok (c.here.kind == .mark m, c) := rfl

theorem atFlushParen_run (c : Cursor) :
    atFlushParen c = .ok (c.here.kind == .mark .openParen && c.adjacent, c) := rfl

theorem advance_ok {t : Token} : advance c = .ok (t, c') ↔ c.here = t ∧ c.next = c' := by
  simp [advance_run]

theorem isAt_ok {kind : TokenKind} {b : Bool} :
    isAt kind c = .ok (b, c') ↔ (c.here.kind == kind) = b ∧ c = c' := by
  simp [isAt_run]

theorem isAtMark_ok {m : Mark} {b : Bool} :
    isAtMark m c = .ok (b, c') ↔ (c.here.kind == .mark m) = b ∧ c = c' := isAt_ok

theorem atFlushParen_ok {b : Bool} :
    atFlushParen c = .ok (b, c') ↔
      (c.here.kind == .mark .openParen && c.adjacent) = b ∧ c = c' := by
  simp [atFlushParen_run]

theorem bind_peek_ok {f : Token → Reader β} {b : β} (h : (peek >>= f) c = .ok (b, c')) :
    f c.here c = .ok (b, c') := h

end Reader

end DeskScript
