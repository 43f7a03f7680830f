import DeskScript.Proofs.Program.Progress

/-!
# An attempt leaves no trace

What follows `print` may be tried as an expression first. If that comes to nothing, the tokens are
read as a text from the same place on. The parser in place then goes back to the index where it
began, and the depth is the same again, but what the attempt has added to the count of bare names
stays. Nothing depends on that: two places are `Alike` if they have the same index and depth, and
from two such places every production comes to the same (`Production.alike`).
-/

namespace DeskScript

/-- The same index and depth, whatever was counted and wherever the index has been. -/
structure Spot.Alike (ts : List Token) (σ τ : Spot) : Prop where
  pos : τ.pos = σ.pos
  depth : τ.depth = σ.depth
  sound : σ.Sound ts
  soundToo : τ.Sound ts

/-- The parser ends with the same result from both places, at the same depth, and after a success at
the same index. -/
def InPlace.Alike {α : Type} (ts : List Token) (σ τ : Spot) (P : InPlace α) : Prop :=
  ∃ r σ' τ', P.outcome σ = some (r, σ') ∧ P.outcome τ = some (r, τ') ∧ σ'.depth = σ.depth ∧
    τ'.depth = σ.depth ∧ ∀ a, r = .ok a → σ'.Alike ts τ'

section
variable {ts : List Token} {d : Nat} {c : Cursor} {σ τ : Spot}

theorem Spot.At.length_eq (h : σ.At ts d c) : σ.pos + 1 + c.ahead.length = ts.length := by
  have hlt := h.lt
  rw [h.ahead, List.length_drop]
  omega

/-- There is one index for each cursor. -/
theorem Spot.At.alike (hσ : σ.At ts d c) (hτ : τ.At ts d c) : σ.Alike ts τ where
  pos := by
    have := hσ.length_eq
    have := hτ.length_eq
    omega
  depth := hτ.depth.trans hσ.depth.symm
  sound := hσ.sound
  soundToo := hτ.sound

theorem Spot.Alike.at (h : σ.Alike ts τ) (hσ : σ.At ts d c) : τ.At ts d c where
  view := by
    have hcursor : τ.cursor ts = { σ.cursor ts with bare := τ.bare } := by simp [cursor, h.pos]
    rw [hcursor, hσ.view]
  depth := h.depth.trans hσ.depth
  sound := h.soundToo
  ended := hσ.ended

variable (hend : ∃ t, ts.getLast? = some t ∧ t.kind = .eof)
include hend

/-- Both follow the same reader from the same cursor. -/
theorem Production.alike {α : Type} {k : Nat} {P : InPlace α} {R : Reader α}
    (h : Production ts ts.length σ.depth (σ.cursor ts).here.kind k P R) (hστ : σ.Alike ts τ) :
    P.Alike ts σ τ := by
  have hσ := hστ.sound.at hend
  obtain ⟨⟨r, σ'⟩, hP, hmatches⟩ := h.follows hσ (by omega)
  obtain ⟨⟨r', τ'⟩, hP', hmatches'⟩ := h.follows (hστ.at hσ) (by omega)
  generalize R (σ.cursor ts) = y at hmatches hmatches'
  cases hmatches with
  | ok hσ' _ _ =>
    cases hmatches' with
    | ok hτ' _ _ =>
      exact ⟨_, σ', τ', hP, hP', hσ'.depth, hτ'.depth, fun _ _ => hσ'.alike hτ'⟩
  | error _ hdepth _ =>
    cases hmatches' with
    | error _ hdepth' _ => exact ⟨_, σ', τ', hP, hP', hdepth, hdepth', nofun⟩

/-- An attempt always ends, and if it comes to nothing, its place is like the one before it. -/
theorem Spot.Sound.attempt (hσ : σ.Sound ts) :
    ∃ o τ, (Tape.wholeExpression? ts).outcome σ = some (.ok o, τ) ∧ (o = none → σ.Alike ts τ) := by
  have hat := hσ.at hend
  obtain ⟨⟨r, τ⟩, hP, hmatches⟩ := (Production.wholeExpression? (n := ts.length)).follows hat
    (by omega)
  rcases Reader.wholeExpression?_cases (Reader.expression ts.length σ.depth) (σ.cursor ts) with
    hR | ⟨e, c', -, -, -, hR⟩
  · rw [hR] at hmatches
    cases hmatches with
    | ok hτ _ _ => exact ⟨none, τ, hP, fun _ => hat.alike hτ⟩
  · rw [hR] at hmatches
    cases hmatches with
    | ok _ _ _ => exact ⟨some e, τ, hP, nofun⟩

end

namespace Reader

/-- **A print leaves no trace of an attempt.** After `print`, where no expression is demanded, there
is always a result up to the end of the statement: nothing, an expression that was read there
without counting a bare name, so that all its variables have their `$`, or what reading a text gives.

The parser in place, which keeps what an attempt has counted, reads every program as `parse` does,
where an attempt that comes to nothing gives back the cursor. It goes back to the same index and
depth, and from there on each production comes to the same. -/
theorem print_leaves_no_trace :
    (∀ (n depth : Nat) (pos : Position) (c : Cursor), c.Ended → startsQuoted c.here.kind = false →
      ∃ e seg c', printed (expression n depth) pos c = .ok (e, c') ∧ c.Reads seg c' ∧
        c'.atStatementEnd = true ∧
        ((c.atStatementEnd = true ∧ e = .literal pos (.string "") ∧ c' = c) ∨
          (expression n depth c = .ok (e, c') ∧ c'.bare = c.bare ∧
            e.vars.Sublist (seg.filterMap Token.var?)) ∨
          plainText pos c = .ok (e, c'))) ∧
    ∀ ts : List Token,
      (∃ σ, (Tape.program (Cursor.ended ts)).outcome .start = some (parse ts, σ)) ∧
      (∀ σ : Spot, σ.Sound (Cursor.ended ts) →
        ∃ o τ, (Tape.wholeExpression? (Cursor.ended ts)).outcome σ = some (.ok o, τ) ∧
          (o = none → σ.Alike (Cursor.ended ts) τ)) ∧
      ∀ σ τ : Spot, σ.Alike (Cursor.ended ts) τ →
        ∀ {α : Type} {k : Nat} {P : InPlace α} {R : Reader α},
          Production (Cursor.ended ts) (Cursor.ended ts).length σ.depth
            (σ.cursor (Cursor.ended ts)).here.kind k P R →
          P.Alike (Cursor.ended ts) σ τ := by
  refine ⟨fun n depth pos c hc hkind => ?_, fun ts => ⟨?_, ?_, ?_⟩⟩
  · rcases printed_cases (expression n depth) hkind pos with
      ⟨hend, h⟩ | ⟨e, c', h, hread, hend, hbare⟩ | h
    · exact ⟨_, [], c, h, .refl c, hend, .inl ⟨hend, rfl, rfl⟩⟩
    · obtain ⟨seg, hseg, hvars⟩ := expression_dollars hc hread hbare
      exact ⟨e, seg, c', h, hseg, hend, .inr (.inl ⟨hread, hbare, hvars⟩)⟩
    · obtain ⟨e, seg, c', htext, hseg, hend⟩ := plainText_ends hc pos
      exact ⟨e, seg, c', h.trans htext, hseg, hend, .inr (.inr htext)⟩
  · obtain ⟨σ, hprogram, -⟩ := outcome_program ts
    exact ⟨σ, hprogram⟩
  · intro σ hσ
    exact hσ.attempt (Cursor.ended_getLast? ts)
  · intro σ τ hστ α k P R hproduction
    exact hproduction.alike (Cursor.ended_getLast? ts) hστ

/-- The tokens of `print $a + b`. -/
def sumOfBare : List Token :=
  [⟨.keyword .print, "print", ⟨1, 1⟩⟩, ⟨.variable "a", "$a", ⟨1, 7⟩⟩, ⟨.mark .plus, "+", ⟨1, 10⟩⟩,
    ⟨.ident "b", "b", ⟨1, 12⟩⟩, ⟨.eof, "", ⟨1, 13⟩⟩]

/-- The attempt reads the whole sum, with a name that has no `$`. So it is read as a text, and what
is read after it does not depend on the name that was counted. -/
theorem print_leaves_no_trace_bare :
    let c := (Cursor.ofTokens sumOfBare).next
    let E := Cursor.ended sumOfBare
    let text := Expr.template ⟨1, 1⟩ [.var "a", .text " + b"]
    c.Ended ∧ startsQuoted c.here.kind = false ∧
    (∃ e c', expression 6 0 c = .ok (e, c') ∧ c'.atStatementEnd = true ∧ c'.bare = c.bare + 1) ∧
    (∃ c', printed (expression 6 0) ⟨1, 1⟩ c = .ok (text, c') ∧ c'.atStatementEnd = true) ∧
    (∃ σ, (Tape.program E).outcome .start = some (.ok (.mk ⟨1, 1⟩ [.print ⟨1, 1⟩ text]), σ)) ∧
    Spot.Alike E ⟨4, 0, 0, []⟩ ⟨4, 0, 1, []⟩ ∧
    (Tape.statements E none []).Alike E ⟨4, 0, 0, []⟩ ⟨4, 0, 1, []⟩ := by
  intro c E text
  have hended : c.Ended := ⟨_, rfl, rfl⟩
  have hkind : startsQuoted c.here.kind = false := rfl
  obtain ⟨e, -, c', hprinted, -, hend, -⟩ := print_leaves_no_trace.1 6 0 ⟨1, 1⟩ c hended hkind
  obtain ⟨⟨σ, hprogram⟩, -, hproductions⟩ := print_leaves_no_trace.2 sumOfBare
  have hsound (bare : Nat) : Spot.Sound E ⟨4, 0, bare, []⟩ := by
    have hinside : Inside E 4 := ⟨by decide, by decide⟩
    intro p hp
    obtain rfl := List.mem_singleton.mp hp
    exact hinside
  have halike : Spot.Alike E ⟨4, 0, 0, []⟩ ⟨4, 0, 1, []⟩ := ⟨rfl, rfl, hsound 0, hsound 1⟩
  have htext : e = text := by
    obtain ⟨d, hrun⟩ : ∃ d, printed (expression 6 0) ⟨1, 1⟩ c = .ok (text, d) := ⟨_, rfl⟩
    exact (Prod.mk.inj (Except.ok.inj (hprinted.symm.trans hrun))).1
  exact ⟨hended, hkind, ⟨_, _, rfl, rfl, rfl⟩, ⟨c', htext ▸ hprinted, hend⟩, ⟨σ, hprogram⟩, halike,
    hproductions _ _ halike (.statements none [])⟩

end Reader

end DeskScript
