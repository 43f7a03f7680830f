import DeskScript.Proofs.Program.Spelling

/-!
# Names without `$`

A cursor counts the names that were read as variables although they have no `$`. If the
count is the same before and after an expression, all its variables are written with `$`:
they are variables among the tokens read, in the same order (`expression_dollars`).

After `print`, this decides between an expression and plain text, and one of them is there
always (`printed_cases`).
-/

namespace DeskScript

/-- The variable that an expression is. -/
def Expr.var? : Expr → Option (Position × String)
  | .var pos x => some (pos, x)
  | _ => none

/-- The variables in an expression, from left to right. -/
def Expr.vars (e : Expr) : List (Position × String) := e.nodes.filterMap var?

theorem Expr.vars_eq (e : Expr) : e.vars = e.var?.toList ++ e.children.flatMap vars := by
  unfold vars
  rw [nodes_eq, List.filterMap_cons, List.filterMap_flatMap]
  cases e.var? <;> rfl

/-- The variable that a token is, with its `$`. -/
def Token.var? (t : Token) : Option (Position × String) :=
  match t.kind with
  | .variable x => some (t.pos, x)
  | _ => none

/-! ## Variables among the tokens -/

theorem Listed.vars {α : Type} {R : List Token → Nat → α → Prop}
    {vars : α → List (Position × String)} {ts : List Token} {k : Nat} {xs : List α}
    (h : Listed R ts k xs) (hk : k = 0)
    (hR : ∀ us, ∀ x ∈ xs, R us 0 x → (vars x).Sublist (us.filterMap Token.var?)) :
    (xs.flatMap vars).Sublist (ts.filterMap Token.var?) := by
  induction h with
  | nil _ => simp
  | @cons gap us rest i j x xs _ hx _ ih =>
    obtain ⟨rfl, rfl⟩ : i = 0 ∧ j = 0 := by omega
    have hfirst := hR us x List.mem_cons_self hx
    have hrest := ih rfl fun vs y hy => hR vs y (List.mem_cons_of_mem _ hy)
    rw [List.flatMap_cons, List.append_assoc, List.filterMap_append, List.filterMap_append]
    exact (hfirst.append hrest).trans (List.sublist_append_right _ _)

/-- Without a bare name, the variables of an expression are those of its tokens, in order. -/
theorem Written.dollars {ts : List Token} {k : Nat} {e : Expr} (h : Written ts k e) (hk : k = 0) :
    e.vars.Sublist (ts.filterMap Token.var?) := by
  induction e using Expr.induction generalizing ts k with
  | h e ih =>
    have hwithin {us vs : List Token} {xs : List (Position × String)}
        (hxs : xs.Sublist (us.filterMap Token.var?)) (hus : us.Sublist vs) :
        xs.Sublist (vs.filterMap Token.var?) := hxs.trans (hus.filterMap _)
    have hlist {us vs : List Token} (hus : us <:+: vs) (hxs : Listed Written us k e.children) :
        (e.children.flatMap Expr.vars).Sublist (vs.filterMap Token.var?) :=
      hwithin (hxs.vars hk fun ws x hx hws => ih x hx hws rfl) hus.sublist
    rw [Expr.vars_eq]
    cases h with
    | literal | template => simp [Expr.var?, Expr.children]
    | var ht => simp [Expr.var?, Expr.children, Token.var?, ht]
    | bare => cases hk
    | @binary ls rs i j t op l r hl _ hr =>
      obtain ⟨rfl, rfl⟩ : i = 0 ∧ j = 0 := by omega
      have hboth := (ih l (by simp [Expr.children]) hl rfl).append
        (ih r (by simp [Expr.children]) hr rfl)
      rw [← List.filterMap_append] at hboth
      simpa [Expr.var?, Expr.children] using
        hwithin hboth ((List.sublist_cons_self t rs).append_left ls)
    | @index ts us gap gap' i j a b e x he _ _ hx _ _ =>
      obtain ⟨rfl, rfl⟩ : i = 0 ∧ j = 0 := by omega
      have hboth := (ih e (by simp [Expr.children]) he rfl).append
        (ih x (by simp [Expr.children]) hx rfl)
      rw [← List.filterMap_append] at hboth
      have hus : us <:+: a :: (gap ++ us ++ gap' ++ [b]) := ⟨a :: gap, gap' ++ [b], by simp⟩
      simpa [Expr.var?, Expr.children] using hwithin hboth (hus.sublist.append_left ts)
    | @unary t ts k op e _ he =>
      simpa [Expr.var?, Expr.children] using
        hwithin (ih e (by simp [Expr.children]) he hk) (List.sublist_cons_self t ts)
    | @member ts k d p e he _ =>
      simpa [Expr.var?, Expr.children] using
        hwithin (ih e (by simp [Expr.children]) he hk) (List.sublist_append_left ts [d, p])
    | @group a b ts gap gap' k e _ _ he _ _ =>
      have hts : ts <:+: a :: (gap ++ ts ++ gap' ++ [b]) := ⟨a :: gap, gap' ++ [b], by simp⟩
      simpa [Expr.var?, Expr.children] using
        hwithin (ih e (by simp [Expr.children]) he hk) hts.sublist
    | @callParen t f a b ts k x args _ _ _ hargs _ => exact hlist ⟨[t, f, a], [b], by simp⟩ hargs
    | @callBare t f ts k x args _ _ hargs => exact hlist ⟨[t, f], [], by simp⟩ hargs
    | @named f a b ts k x args _ _ hargs _ => exact hlist ⟨[f, a], [b], by simp⟩ hargs
    | @array a b ts k items _ hitems _ => exact hlist ⟨[a], [b], by simp⟩ hitems
    | @object a b ts k fields _ hfields _ =>
      have hts : ts <:+: a :: (ts ++ [b]) := ⟨[a], [b], by simp⟩
      have hvars : (fields.flatMap fun p => p.2.vars).Sublist (ts.filterMap Token.var?) := by
        refine hfields.vars hk fun us p hp hfield => ?_
        cases hfield with
        | @mk t d gap vs _ x y _ _ _ hy =>
          have hvs : vs <:+: t :: d :: (gap ++ vs) := ⟨t :: d :: gap, [], by simp⟩
          exact hwithin (ih y (List.mem_map.mpr ⟨(x, y), hp, rfl⟩) hy rfl) hvs.sublist
      simpa [Expr.var?, Expr.children, List.flatMap_map] using hwithin hvars hts.sublist

namespace Reader

/-- An expression that adds nothing to the count has only variables with `$`. -/
theorem expression_dollars {n depth : Nat} {c c' : Cursor} (hc : c.Ended) {e : Expr}
    (h : expression n depth c = .ok (e, c')) (hbare : c'.bare = c.bare) :
    ∃ seg, c.Reads seg c' ∧ e.vars.Sublist (seg.filterMap Token.var?) := by
  have hyields : (expression n depth).Yields c.rest c Spelled := expression_yields n depth c
  obtain ⟨seg, k, hseg, hk, hspelled⟩ := hyields.ok ⟨hc, List.suffix_rfl⟩ h
  exact ⟨seg, hseg, hspelled.written.dollars (by omega)⟩

/-! ## Print -/

theorem Cursor.skipWhile_stops {p : Token → Bool} (hp : ∀ t : Token, t.kind = .eof → p t = false)
    {c : Cursor} (hc : c.Ended) : p (c.skipWhile p).here = false := by
  unfold Cursor.skipWhile
  generalize hl : c.ahead = l
  induction l generalizing c with
  | nil =>
    obtain ⟨t, ht, hk⟩ := hc
    rw [Cursor.rest, hl, List.getLast?_singleton, Option.some.injEq] at ht
    exact hp _ (ht ▸ hk)
  | cons t l ih =>
    unfold Cursor.skipWhile.go
    split
    · have hreads : c.Reads [c.here] c.next := by
        simp [Cursor.Reads, Cursor.rest, Cursor.next, hl]
      exact ih (hreads.ended hc) (by simp [Cursor.next, hl])
    · next hstop => simpa using hstop

/-- A text ends where the statement does. -/
theorem plainText_ends {c : Cursor} (hc : c.Ended) (pos : Position) :
    ∃ e seg c', plainText pos c = .ok (e, c') ∧ c.Reads seg c' ∧ c'.atStatementEnd = true := by
  let inside (t : Token) : Bool := !{ c with here := t }.atStatementEnd
  obtain ⟨seg, hseg, -⟩ := c.skipWhile_reads inside
  refine ⟨_, seg, c.skipWhile inside, rfl, hseg, ?_⟩
  have hstops : inside (c.skipWhile inside).here = false := by
    refine Cursor.skipWhile_stops (fun t ht => ?_) hc
    simp [inside, Cursor.atStatementEnd, ht]
  have hend : { c with here := (c.skipWhile inside).here }.atStatementEnd = true := by
    simpa [inside] using hstops
  exact hend

theorem wholeExpression?_cases (expr : Reader Expr) (c : Cursor) :
    wholeExpression? expr c = .ok (none, c) ∨
    ∃ e c', expr c = .ok (e, c') ∧ c'.atStatementEnd = true ∧ c'.bare = c.bare ∧
      wholeExpression? expr c = .ok (some e, c') := by
  unfold wholeExpression?
  cases hread : expr c with
  | error f => exact .inl rfl
  | ok p =>
    obtain ⟨e, c'⟩ := p
    by_cases hwhole : (c'.atStatementEnd && c'.bare == c.bare) = true
    · obtain ⟨hend, hbare⟩ := Bool.and_eq_true_iff.mp hwhole
      exact .inr ⟨e, c', rfl, hend, by simpa using hbare, if_pos hwhole⟩
    · exact .inl (if_neg hwhole)

/-- What follows `print` is nothing, an expression up to the end of the statement without bare names,
or it is read as a text. -/
theorem printed_cases (expr : Reader Expr) {c : Cursor} (hkind : startsQuoted c.here.kind = false)
    (pos : Position) :
    (c.atStatementEnd = true ∧ printed expr pos c = .ok (.literal pos (.string ""), c)) ∨
    (∃ e c', printed expr pos c = .ok (e, c') ∧ expr c = .ok (e, c') ∧ c'.atStatementEnd = true ∧
      c'.bare = c.bare) ∨
    printed expr pos c = plainText pos c := by
  unfold printed
  rw [bind_run (get_run c)]
  cases hend : c.atStatementEnd with
  | true => exact .inl ⟨rfl, by simp [pure_run]⟩
  | false =>
    refine .inr ?_
    simp only [hkind, Bool.false_eq_true, if_false]
    cases mayStartExpression c with
    | false => exact .inr rfl
    | true =>
      simp only [if_true]
      rcases wholeExpression?_cases expr c with hnone | ⟨e, c', hread, hend', hbare, hsome⟩
      · rw [bind_run hnone]
        exact .inr rfl
      · rw [bind_run hsome]
        exact .inl ⟨e, c', rfl, hread, hend', hbare⟩

end Reader

end DeskScript
