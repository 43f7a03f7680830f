import Mathlib.Data.Set.Defs
import DeskScript.Proofs.Program.Reading

/-!
# What a reader yields

There is one statement for each production. From a cursor in `ts` on, a reader moves over tokens
that fit its result, and counts some of them as bare names, or it fails at the place of a token:

    r.Yields ts c Q :  r c = ok (a, c') → c.Reads us c' ∧ c'.bare = c.bare + k ∧ Q us k a
                       r c = error e → e is at the place of a token of ts

Readers one after the other yield their tokens one after the other (`Yields.bind`). Where the tokens
do not matter, a reader `Gives ts P` if its results satisfy `P`.
-/

namespace DeskScript

/-- The places where tokens start. -/
def starts (ts : List Token) : Set Position := {pos | ∃ t ∈ ts, t.pos = pos}

/-! ## Places in a list -/

namespace Cursor

/-- The tokens from the cursor on are the last ones of `ts`. -/
def Within (ts : List Token) (c : Cursor) : Prop := c.Ended ∧ c.rest <:+ ts

section
variable {ts : List Token} {c c' : Cursor}

theorem within_ofTokens (ts : List Token) : (ofTokens ts).Within (ended ts) := by
  refine ⟨?_, by simp [rest_ofTokens]⟩
  rw [Ended, rest_ofTokens]
  exact ended_getLast? ts

theorem Within.here_starts (hc : c.Within ts) : c.here.pos ∈ starts ts :=
  ⟨c.here, hc.2.subset List.mem_cons_self, rfl⟩

theorem Reads.within {seg : List Token} (h : c.Reads seg c') (hc : c.Within ts) : c'.Within ts :=
  ⟨h.ended hc.1, h.suffix.trans hc.2⟩

theorem Reads.among {seg : List Token} (h : c.Reads seg c') (hc : c.Within ts) : seg <:+: ts :=
  List.IsInfix.trans ⟨[], c'.rest, h.symm⟩ hc.2.isInfix

theorem next_within (hc : c.Within ts) : c.next.Within ts := by
  cases ha : c.ahead with
  | nil => simpa [next, ha] using hc
  | cons t rest =>
    have hreads : c.Reads [c.here] c.next := by simp [Reads, Cursor.rest, next, ha]
    exact hreads.within hc

theorem skipWhile_within (hc : c.Within ts) (p : Token → Bool) : (c.skipWhile p).Within ts := by
  obtain ⟨seg, hseg, -⟩ := c.skipWhile_reads p
  exact hseg.within hc

theorem bare_next (c : Cursor) : c.next.bare = c.bare := by
  unfold next
  split <;> rfl

theorem bare_skipWhile (p : Token → Bool) (c : Cursor) : (c.skipWhile p).bare = c.bare := by
  unfold skipWhile
  generalize c.ahead = l
  induction l generalizing c with
  | nil => rfl
  | cons t l ih =>
    unfold skipWhile.go
    split
    · rw [ih, bare_next]
    · rfl

end

end Cursor

namespace Reader

section
variable {α β : Type} {ts : List Token} {c : Cursor} {P Q : List Token → Nat → α → Prop}
  {R : List Token → Nat → β → Prop}

/-- From the cursor on, a reader moves over tokens that fit the result, with so many bare names, or
it fails at the place of a token. -/
def Yields (ts : List Token) (c : Cursor) (r : Reader α) (Q : List Token → Nat → α → Prop) : Prop :=
  c.Within ts →
    match r c with
    | .ok (a, c') => ∃ us k, c.Reads us c' ∧ c'.bare = c.bare + k ∧ Q us k a
    | .error e => e.pos ∈ starts ts

theorem Yields.ok {r : Reader α} (h : r.Yields ts c Q) (hc : c.Within ts) {a : α} {c' : Cursor}
    (hok : r c = .ok (a, c')) : ∃ us k, c.Reads us c' ∧ c'.bare = c.bare + k ∧ Q us k a := by
  have hr := h hc
  rwa [hok] at hr

theorem Yields.error {r : Reader α} (h : r.Yields ts c Q) (hc : c.Within ts) {e : ParseError}
    (herror : r c = .error e) : e.pos ∈ starts ts := by
  have hr := h hc
  rwa [herror] at hr

/-- A reader that succeeds. -/
theorem yields_run {r : Reader α} {a : α} {c' : Cursor} {us : List Token} {k : Nat}
    (hrun : r c = .ok (a, c')) (hreads : c.Reads us c') (hbare : c'.bare = c.bare + k)
    (h : Q us k a) : r.Yields ts c Q := by
  intro _
  rw [hrun]
  exact ⟨us, k, hreads, hbare, h⟩

/-- What follows a reader goes on from where that ends. -/
theorem Yields.after {r : Reader α} {f : α → Reader β} {a : α} {c₁ : Cursor} {us : List Token}
    {k : Nat} (hrun : r c = .ok (a, c₁)) (hreads : c.Reads us c₁) (hbare : c₁.bare = c.bare + k)
    (h : (f a).Yields ts c₁ fun vs j => R (us ++ vs) (k + j)) : (r >>= f).Yields ts c R := by
  intro hc
  have hrest := h (hreads.within hc)
  rw [bind_run hrun]
  cases hf : f a c₁ with
  | error e =>
    rw [hf] at hrest
    exact hrest
  | ok p =>
    rw [hf] at hrest
    obtain ⟨vs, j, hreads', hbare', hR⟩ := hrest
    exact ⟨us ++ vs, k + j, hreads.trans hreads', by omega, hR⟩

theorem Yields.bind {r : Reader α} {f : α → Reader β} (hr : r.Yields ts c P)
    (hf : ∀ us k a c', P us k a → (f a).Yields ts c' fun vs j => R (us ++ vs) (k + j)) :
    (r >>= f).Yields ts c R := by
  intro hc
  cases hrun : r c with
  | error e =>
    rw [bind_error hrun]
    exact hr.error hc hrun
  | ok p =>
    obtain ⟨us, k, hreads, hbare, hP⟩ := hr.ok hc hrun
    exact Yields.after hrun hreads hbare (hf us k p.1 p.2 hP) hc

/-- Looking moves nothing. -/
theorem Yields.look {r : Reader α} {f : α → Reader β} {a : α} (hr : r c = .ok (a, c))
    (h : (f a).Yields ts c R) : (r >>= f).Yields ts c R := by
  intro hc
  rw [bind_run hr]
  exact h hc

theorem Yields.mono {r : Reader α} (h : r.Yields ts c P) (hPQ : ∀ us k a, P us k a → Q us k a) :
    r.Yields ts c Q := by
  intro hc
  cases hrun : r c with
  | error e => exact h.error hc hrun
  | ok p =>
    obtain ⟨us, k, hreads, hbare, hP⟩ := h.ok hc hrun
    exact ⟨us, k, hreads, hbare, hPQ us k p.1 hP⟩

theorem yields_pure {a : α} (h : Q [] 0 a) : (pure a : Reader α).Yields ts c Q :=
  yields_run (pure_run a c) (.refl c) rfl h

theorem yields_fail (cause : ParseCause) : (fail cause : Reader α).Yields ts c Q :=
  fun hc => hc.here_starts

theorem yields_unexpected (place : Place) : (unexpected place : Reader α).Yields ts c Q :=
  fun hc => hc.here_starts

theorem yields_want (w : Wanted) : (want w : Reader α).Yields ts c Q := yields_unexpected _

theorem yields_ite {b : Prop} [Decidable b] {r r' : Reader α} (hr : b → r.Yields ts c Q)
    (hr' : ¬b → r'.Yields ts c Q) : (if b then r else r').Yields ts c Q := by
  split
  · next hb => exact hr hb
  · next hb => exact hr' hb

/-- Moving over a token that is known not to be the end of input. -/
theorem yields_advance {f : Token → Reader β} (hk : c.here.kind ≠ .eof)
    (h : (f c.here).Yields ts c.next fun us k => R (c.here :: us) k) :
    (advance >>= f).Yields ts c R := by
  intro hc
  refine Yields.after (k := 0) (advance_run c) (Cursor.reads_next hc.1 hk) c.bare_next ?_ hc
  simpa using h

theorem skipNewlines_yields : skipNewlines.Yields ts c fun us k _ => Blank us ∧ k = 0 := by
  obtain ⟨seg, hseg, hall⟩ := c.skipWhile_reads (·.kind == .newline)
  refine yields_run (modify_run _ c) hseg (c.bare_skipWhile _) ⟨fun t ht => ?_, rfl⟩
  simpa using hall t ht

theorem expect_yields (m : Mark) :
    (expect m).Yields ts c fun us k t => us = [t] ∧ k = 0 ∧ t.kind = .mark m := by
  refine Yields.look (isAtMark_run m c) (yields_ite (fun h => ?_) fun _ => yields_want _)
  have hk : c.here.kind = .mark m := by simpa using h
  intro hc
  exact ⟨_, 0, Cursor.reads_next hc.1 (by simp [hk]), c.bare_next, rfl, rfl, hk⟩

theorem accept_yields (m : Mark) : (accept m).Yields ts c fun us k b =>
    k = 0 ∧ if b = true then ∃ t, us = [t] ∧ t.kind = .mark m else us = [] := by
  refine Yields.look (isAtMark_run m c) (yields_ite (fun h => ?_) fun _ =>
    yields_pure ⟨rfl, by simp⟩)
  have hk : c.here.kind = .mark m := by simpa using h
  exact yields_advance (by simp [hk]) (yields_pure ⟨rfl, by simpa using hk⟩)

theorem nested_yields {inner : Nat → Reader α} (h : ∀ depth, (inner depth).Yields ts c Q)
    (what : Nest) (depth : Nat) : (nested what depth inner).Yields ts c Q :=
  yields_ite (fun _ => yields_fail _) fun _ => h _

end

/-! ## Results -/

section
variable {α β : Type} {ts : List Token} {P P' : α → Prop} {Q : β → Prop}

/-- From the cursor on, a reader has a result that satisfies `P` and stays in `ts`, or it fails at
the place of a token. -/
def GivesAt (ts : List Token) (c : Cursor) (r : Reader α) (P : α → Prop) : Prop :=
  match r c with
  | .ok (a, c') => c'.Within ts ∧ P a
  | .error e => e.pos ∈ starts ts

def Gives (ts : List Token) (r : Reader α) (P : α → Prop) : Prop :=
  ∀ c : Cursor, c.Within ts → r.GivesAt ts c P

def Stays (ts : List Token) (r : Reader α) : Prop := r.Gives ts fun _ => True

theorem GivesAt.ok {r : Reader α} {c c' : Cursor} (h : r.GivesAt ts c P) {a : α}
    (hok : r c = .ok (a, c')) : c'.Within ts ∧ P a := by
  unfold GivesAt at h
  rwa [hok] at h

theorem GivesAt.error {r : Reader α} {c : Cursor} (h : r.GivesAt ts c P) {e : ParseError}
    (herror : r c = .error e) : e.pos ∈ starts ts := by
  unfold GivesAt at h
  rwa [herror] at h

/-- Tokens that fit a result say of it what does not mention them. -/
theorem Yields.gives {r : Reader α} {R : List Token → Nat → α → Prop} (h : ∀ c, r.Yields ts c R)
    (hP : ∀ us k a, us <:+: ts → R us k a → P a) : r.Gives ts P := by
  intro c hc
  unfold GivesAt
  cases hrun : r c with
  | error e => exact (h c).error hc hrun
  | ok p =>
    obtain ⟨us, k, hreads, -, hR⟩ := (h c).ok hc hrun
    exact ⟨hreads.within hc, hP us k p.1 (hreads.among hc) hR⟩

theorem GivesAt.bind {r : Reader α} {f : α → Reader β} {c : Cursor} (hr : r.GivesAt ts c P)
    (hf : ∀ a c', r c = .ok (a, c') → c'.Within ts → P a → (f a).GivesAt ts c' Q) :
    (r >>= f).GivesAt ts c Q := by
  unfold GivesAt
  cases hrun : r c with
  | error e =>
    rw [bind_error hrun]
    exact hr.error hrun
  | ok p =>
    obtain ⟨hc', hP⟩ := hr.ok hrun
    rw [bind_run hrun]
    exact hf p.1 p.2 hrun hc' hP

theorem Gives.bind {r : Reader α} {f : α → Reader β} (hr : r.Gives ts P)
    (hf : ∀ a, P a → (f a).Gives ts Q) : (r >>= f).Gives ts Q :=
  fun c hc => (hr c hc).bind fun a c' _ hc' ha => hf a ha c' hc'

theorem Stays.bind {r : Reader α} {f : α → Reader β} (hr : r.Stays ts)
    (hf : ∀ a, (f a).Gives ts Q) : (r >>= f).Gives ts Q :=
  Gives.bind hr fun a _ => hf a

theorem Gives.mono {r : Reader α} (h : r.Gives ts P) (hP : ∀ a, P a → P' a) : r.Gives ts P' := by
  intro c hc
  unfold GivesAt
  cases hrun : r c with
  | error e => exact (h c hc).error hrun
  | ok p => exact ((h c hc).ok hrun).imp_right (hP p.1)

theorem Gives.stays {r : Reader α} (h : r.Gives ts P) : r.Stays ts := h.mono fun _ _ => trivial

theorem gives_pure {a : α} (h : P a) : (pure a : Reader α).Gives ts P := fun _ hc => ⟨hc, h⟩

theorem gives_failAt (cause : ParseCause) {pos : Position} (hpos : pos ∈ starts ts) :
    (failAt cause pos : Reader α).Gives ts P :=
  fun _ _ => hpos

theorem gives_fail (cause : ParseCause) : (fail cause : Reader α).Gives ts P :=
  fun _ hc => hc.here_starts

theorem gives_unexpected (place : Place) : (unexpected place : Reader α).Gives ts P :=
  fun _ hc => hc.here_starts

theorem gives_want (w : Wanted) : (want w : Reader α).Gives ts P := gives_unexpected _

theorem gives_ite {b : Prop} [Decidable b] {r r' : Reader α} (hr : b → r.Gives ts P)
    (hr' : ¬b → r'.Gives ts P) : (if b then r else r').Gives ts P := by
  split
  · next hb => exact hr hb
  · next hb => exact hr' hb

/-- A check that fails or says nothing. -/
theorem Gives.guarded {b : Prop} [Decidable b] {r : Reader PUnit} {r' : Reader β}
    (hr : r.Gives ts fun _ => False) (hr' : ¬b → r'.Gives ts Q) :
    (if b then r >>= fun _ => r' else r').Gives ts Q :=
  gives_ite (fun _ => hr.bind fun _ h => h.elim) hr'

theorem gives_nested {inner : Nat → Reader α} (h : ∀ depth, (inner depth).Gives ts P) (what : Nest)
    (depth : Nat) : (nested what depth inner).Gives ts P :=
  gives_ite (fun _ => gives_fail _) fun _ => h _

/-! ## Single tokens -/

theorem gives_get : (get : Reader Cursor).Gives ts (·.Within ts) := fun _ hc => ⟨hc, hc⟩

theorem stays_set {d : Cursor} (hd : d.Within ts) : (set d : Reader PUnit).Stays ts :=
  fun _ _ => ⟨hd, trivial⟩

theorem gives_peek : peek.Gives ts (·.pos ∈ starts ts) := fun _ hc => ⟨hc, hc.here_starts⟩

theorem gives_advance : advance.Gives ts (·.pos ∈ starts ts) :=
  fun _ hc => ⟨Cursor.next_within hc, hc.here_starts⟩

theorem stays_advance : advance.Stays ts := gives_advance.stays

theorem stays_isAt (kind : TokenKind) : (isAt kind).Stays ts := fun _ hc => ⟨hc, trivial⟩

theorem stays_isAtMark (m : Mark) : (isAtMark m).Stays ts := stays_isAt _

theorem stays_isAtWord (k : Keyword) : (isAtWord k).Stays ts := stays_isAt _

theorem stays_atStatementEnd : atStatementEnd.Stays ts := fun _ hc => ⟨hc, trivial⟩

theorem stays_skipNewlines : skipNewlines.Stays ts :=
  fun _ hc => ⟨Cursor.skipWhile_within hc _, trivial⟩

theorem gives_expect (m : Mark) : (expect m).Gives ts (·.pos ∈ starts ts) :=
  (stays_isAtMark m).bind fun _ => gives_ite (fun _ => gives_advance) fun _ => gives_want _

theorem stays_expect (m : Mark) : (expect m).Stays ts := (gives_expect m).stays

theorem gives_expectWord (k : Keyword) : (expectWord k).Gives ts (·.pos ∈ starts ts) :=
  (stays_isAtWord k).bind fun _ => gives_ite (fun _ => gives_advance) fun _ => gives_want _

theorem stays_expectWord (k : Keyword) : (expectWord k).Stays ts := (gives_expectWord k).stays

theorem stays_accept (m : Mark) : (accept m).Stays ts :=
  (stays_isAtMark m).bind fun _ =>
    gives_ite (fun _ => stays_advance.bind fun _ => gives_pure trivial) fun _ => gives_pure trivial

end

end Reader

end DeskScript
