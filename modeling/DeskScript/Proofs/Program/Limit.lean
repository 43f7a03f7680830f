import DeskScript.Proofs.Program.Cut

/-!
# The depth limit of programs

A program is read only up to a depth, which all steps count for but those into the
arguments of a call without parentheses and those to a printed text without quotes:

    parse ts = .ok b → b.depth (uncounted ts) ≤ maxNesting

What is deeper, as `parseFreely` reads it, is refused, and what is not is read the
same. An exception is what follows `print` and is only worth a try: too deep as an
expression, it is a text. If that is the first thing beyond the limit, what comes
after the text is read in another way (`Block.CutOff`). No limit holds for calls in
calls without parentheses (`parse_callChain`).
-/

namespace DeskScript

/-! ## What is only tried -/

/-- Begins with a variable or a call, so that it is only worth a try after `print`. -/
def Expr.leads : Expr → Bool
  | .var _ _ | .call _ _ _ => true
  | .binary _ _ e _ | .member _ e _ | .index _ e _ => e.leads
  | _ => false

/-- A variable, a name or the word `call`. -/
def TokenKind.startsName : TokenKind → Bool
  | .variable _ | .ident _ | .keyword .call => true
  | _ => false

theorem Reader.startsName_of_may {c : Cursor} (h : mayStartExpression c = true) :
    c.here.kind.startsName = true := by
  unfold mayStartExpression at h
  split at h
  · next hk => rw [hk]; rfl
  · next hk => rw [hk]; rfl
  · next hk => rw [hk]; rfl
  · cases h

theorem Written.leads {ts us : List Token} {k : Nat} {e : Expr} {t : Token} (h : Written ts k e)
    (hts : ts = t :: us) (ht : t.kind.startsName = true) : e.leads = true := by
  induction e using Expr.induction generalizing ts us k with
  | h e ih =>
    -- the tokens of a first part begin with the same token
    have hfirst {vs ws : List Token} {j : Nat} {x : Expr} (hx : Written vs j x)
        (heq : vs ++ ws = t :: us) (hmem : x ∈ e.children) : x.leads = true := by
      obtain ⟨t', vs', rfl, -⟩ := hx.head
      obtain ⟨rfl, -⟩ := List.cons.inj heq
      exact ih x hmem hx rfl
    -- any other token says what the expression is
    have htoken {t' : Token} {vs : List Token} (heq : t' :: vs = t :: us) :
        t'.kind.startsName = true := (List.cons.inj heq).1 ▸ ht
    cases h with
    | var | bare | callParen | callBare | named => rfl
    | @binary ls rs i j t' op l r hl _ _ =>
      show l.leads = true
      exact hfirst hl hts (by simp [Expr.children])
    | @member es k d p e he _ =>
      show e.leads = true
      exact hfirst he hts (by simp [Expr.children])
    | @index es xs gap gap' i j a b e x he _ _ _ _ _ =>
      show e.leads = true
      exact hfirst he hts (by simp [Expr.children])
    | literal hv =>
      have hname := htoken hts
      unfold TokenKind.literal? at hv
      split at hv <;> simp_all [TokenKind.startsName]
    | unary hop _ =>
      have hname := htoken hts
      unfold Reader.prefixOp? at hop
      split at hop <;> simp_all [TokenKind.startsName]
    | template hk => simpa [hk, TokenKind.startsName] using htoken hts
    | array hk _ _ => simpa [hk, TokenKind.startsName] using htoken hts
    | object hk _ _ => simpa [hk, TokenKind.startsName] using htoken hts
    | group hk _ _ _ _ => simpa [hk, TokenKind.startsName] using htoken hts

/-- The first thing in the block beyond the limit is what a `print` only tries; all that is read
before it fits. -/
inductive Block.CutOff (u : Uncounted) : Nat → Block → Prop
  | print {d : Nat} {b : Block} {before after : List Stmt} {pos : Position} {e : Expr} :
      b.body = before ++ .print pos e :: after →
      (∀ s ∈ before, s.depth u + d ≤ Reader.maxNesting) →
      e.leads = true → Reader.maxNesting < e.depth .none + (d + 1) → Block.CutOff u d b
  | inside {d : Nat} {b inner : Block} {before after : List Stmt} {s : Stmt}
      {bs rest : List Block} :
      b.body = before ++ s :: after → (∀ x ∈ before, x.depth u + d ≤ Reader.maxNesting) →
      (∀ p ∈ s.parts u, p.2.depth u + (d + p.1) ≤ Reader.maxNesting) →
      s.blocks = bs ++ inner :: rest → (∀ x ∈ bs, x.depth u + (d + 1) ≤ Reader.maxNesting) →
      Block.CutOff u (d + 1) inner → Block.CutOff u d b

/-- What is cut off is too deep for a count of all steps. -/
theorem Block.CutOff.deep {u : Uncounted} {d : Nat} {b : Block} (h : b.CutOff u d) :
    Reader.maxNesting < b.depth .none + d := by
  induction h with
  | @print d b before after pos e hbody _ _ hdeep =>
    have hstmt := Block.depth_le.mp (Nat.le_refl (b.depth .none)) (.print pos e) (by simp [hbody])
    have hpart : 1 + e.depth .none ≤ _ := (Stmt.depth_le.mp hstmt).1 (1, e) List.mem_cons_self
    omega
  | @inside d b inner before after s bs rest hbody _ _ hblocks _ _ ih =>
    have hstmt := Block.depth_le.mp (Nat.le_refl (b.depth .none)) s (by simp [hbody])
    have hblock := (Stmt.depth_le.mp hstmt).2 inner (by simp [hblocks])
    omega

/-! ## Bounds of statements -/

/-- The bound of a block whose statements are at depth `d`. -/
def Block.bound (u : Uncounted) (d : Nat) (b : Block) : Bound where
  fits := b.depth u + d ≤ Reader.maxNesting
  deep := Reader.maxNesting < b.depth .none + d
  cut := b.CutOff u d

/-- The bound of a statement at depth `d`. -/
def Stmt.bound (u : Uncounted) (d : Nat) (s : Stmt) : Bound where
  fits := s.depth u + d ≤ Reader.maxNesting
  deep := Reader.maxNesting < s.depth .none + d
  cut :=
    (∃ pos e, s = .print pos e ∧ e.leads = true ∧ Reader.maxNesting < e.depth .none + (d + 1)) ∨
    (∀ p ∈ s.parts u, p.2.depth u + (d + p.1) ≤ Reader.maxNesting) ∧
      (Bound.all (Block.bound u (d + 1)) s.blocks).cut

/-- The bound of what a `print` at `pos` takes, at depth `d`. -/
def printBound (u : Uncounted) (d : Nat) (pos : Position) (e : Expr) : Bound where
  fits := (Expr.bound u (d + Stmt.printStep u pos e) e).fits
  deep := (Expr.bound u (d + 1) e).deep
  cut := e.leads = true ∧ (Expr.bound u (d + 1) e).deep

section

variable {u : Uncounted} {d : Nat}

theorem Stmt.bound_le {k : Bound} {s : Stmt} (hd : d ≤ Reader.maxNesting)
    (hparts : k.fits → ∀ p ∈ s.parts u, p.2.depth u + (d + p.1) ≤ Reader.maxNesting)
    (hblocks : k.fits → ∀ b ∈ s.blocks, (Block.bound u (d + 1) b).fits)
    (hdeep : k.deep → (∃ e ∈ s.exprs, (Expr.bound u (d + 1) e).deep) ∨
      ∃ b ∈ s.blocks, (Block.bound u (d + 1) b).deep)
    (hcut : k.cut → (bound u d s).cut) : k ≤ bound u d s := by
  refine ⟨fun hk => ?_, fun hk => ?_, hcut⟩
  · have hle : s.depth u ≤ Reader.maxNesting - d := by
      rw [depth_le]
      constructor
      · intro p hp
        have := hparts hk p hp
        omega
      · intro b hb
        have hblock : b.depth u + (d + 1) ≤ Reader.maxNesting := hblocks hk b hb
        omega
    show s.depth u + d ≤ Reader.maxNesting
    omega
  · have hall := depth_le.mp (Nat.le_refl (s.depth .none))
    show Reader.maxNesting < s.depth .none + d
    rcases hdeep hk with ⟨e, he, hdeep⟩ | ⟨b, hb, hdeep⟩
    · have hpart : (1, e) ∈ s.parts .none := by
        rw [show s.parts .none = s.exprs.map (1, ·) by cases s <;> rfl]
        exact List.mem_map.mpr ⟨e, he, rfl⟩
      have hle : 1 + e.depth .none ≤ _ := hall.1 _ hpart
      have he : Reader.maxNesting < e.depth .none + (d + 1) := hdeep
      omega
    · have hle := hall.2 b hb
      have hb : Reader.maxNesting < b.depth .none + (d + 1) := hdeep
      omega

/-- A part of a statement is one of its expressions, at most one step in. -/
theorem Stmt.exprs_of_part {s : Stmt} {p : Nat × Expr} (hp : p ∈ s.parts u) :
    p.2 ∈ s.exprs ∧ p.1 ≤ 1 := by
  cases s with
  | print pos e =>
    obtain rfl := List.mem_singleton.mp hp
    refine ⟨List.mem_singleton_self e, ?_⟩
    show Stmt.printStep u pos e ≤ 1
    unfold Stmt.printStep
    split <;> omega
  | call pos x args =>
    obtain ⟨e, he, rfl⟩ := List.mem_map.mp hp
    exact ⟨he, u.call_le pos⟩
  | _ =>
    obtain ⟨e, he, rfl⟩ := List.mem_map.mp hp
    exact ⟨he, Nat.le_refl _⟩

/-- A statement is bounded by its expressions, one step in, and then by its blocks. -/
theorem Stmt.parts_le (hd : d ≤ Reader.maxNesting) (s : Stmt) :
    Bound.all (Expr.bound u (d + 1)) s.exprs ++ Bound.all (Block.bound u (d + 1)) s.blocks ≤
      bound u d s := by
  have hparts (hk : (Bound.all (Expr.bound u (d + 1)) s.exprs).fits) :
      ∀ p ∈ s.parts u, p.2.depth u + (d + p.1) ≤ Reader.maxNesting := by
    intro p hp
    obtain ⟨he, hle⟩ := exprs_of_part hp
    have hfits : p.2.depth u + (d + 1) ≤ Reader.maxNesting := Bound.fits_all.mp hk p.2 he
    omega
  refine bound_le hd (fun hk => hparts hk.1) (fun hk => Bound.fits_all.mp hk.2)
    (Or.imp Bound.deep_all.mp Bound.deep_all.mp) fun hk => ?_
  rcases hk with hcut | ⟨hfits, hcut⟩
  · exact (Expr.not_cut_all _ hcut).elim
  · exact .inr ⟨hparts hfits, hcut⟩

theorem Stmt.print_le (hd : d ≤ Reader.maxNesting) (pos : Position) (e : Expr) :
    printBound u d pos e ≤ bound u d (.print pos e) := by
  refine bound_le hd (fun hk p hp => ?_) (fun _ => List.forall_mem_nil _)
    (fun hk => .inl ⟨e, List.mem_singleton_self e, hk⟩) fun hk => .inl ⟨pos, e, rfl, hk.1, hk.2⟩
  obtain rfl := List.mem_singleton.mp hp
  exact hk

theorem Stmt.call_le (hd : d ≤ Reader.maxNesting) (pos : Position) (x : String) (args : List Expr) :
    callBound u d pos args ≤ bound u d (.call pos x args) := by
  refine bound_le hd (fun hk p hp => ?_) (fun _ => List.forall_mem_nil _) .inl fun hk => hk.elim
  obtain ⟨e, he, rfl⟩ := List.mem_map.mp hp
  exact hk e he

theorem Block.stmts_le {ss : List Stmt}
    (hd : (Bound.all (Stmt.bound u d) ss).fits → d ≤ Reader.maxNesting) (pos : Position) :
    Bound.all (Stmt.bound u d) ss ≤ bound u d (.mk pos ss) := by
  refine ⟨fun hk => ?_, fun hk => ?_, fun hk => ?_⟩
  · have hd := hd hk
    have hle : (Block.mk pos ss).depth u ≤ Reader.maxNesting - d := by
      rw [depth_le]
      intro s hs
      have hstmt : s.depth u + d ≤ Reader.maxNesting := Bound.fits_all.mp hk s hs
      omega
    show (Block.mk pos ss).depth u + d ≤ Reader.maxNesting
    omega
  · obtain ⟨s, hs, hdeep⟩ := Bound.deep_all.mp hk
    have hle : s.depth .none ≤ (Block.mk pos ss).depth .none := depth_le.mp (Nat.le_refl _) s hs
    have hstmt : Reader.maxNesting < s.depth .none + d := hdeep
    show Reader.maxNesting < (Block.mk pos ss).depth .none + d
    omega
  · obtain ⟨before, s, after, hss, hbefore, hcut⟩ := Bound.cut_all.mp hk
    rcases hcut with ⟨p, e, rfl, hleads, hdeep⟩ | ⟨hparts, hcut⟩
    · exact .print hss hbefore hleads hdeep
    · obtain ⟨bs, inner, rest, hblocks, hbs, hcut⟩ := Bound.cut_all.mp hcut
      exact .inside hss hbefore hparts hblocks hbs hcut

end

namespace Reader

variable {ts : List Token} {S : Prop} {u : Uncounted} {d : Nat} {expr free : Reader Expr}

theorem Cuts.weaken {α : Type} {k : Bound} {B : α → Bound} {r f : Reader α}
    (h : r.Cuts ts True k f B) : r.Cuts ts S k f B := by
  intro c hc
  obtain ⟨hgives, hkeeps, hfollows, hsound⟩ := h c hc
  exact ⟨hgives, hkeeps, hfollows, fun _ => hsound trivial⟩

/-! ## Print -/

theorem text_le (hd : d ≤ maxNesting) {pos : Position} (hpos : pos ∈ u.texts) {e : Expr}
    (htext : Stmt.isText e = true) (hparts : e.parts .none = []) :
    Bound.empty ≤ printBound u d pos e := by
  have hstep : Stmt.printStep u pos e = 0 := if_pos ⟨hpos, htext⟩
  refine ⟨fun hk => ?_, False.elim, False.elim⟩
  show (Expr.bound u (d + Stmt.printStep u pos e) e).fits
  rw [hstep]
  exact (Expr.leaf_le hd hparts).1 hk

theorem print_le (pos : Position) (e : Expr) :
    Expr.bound u (d + 1) e ≤ printBound u d pos e := by
  refine ⟨fun hk => ?_, id, False.elim⟩
  have hle : e.depth u + (d + 1) ≤ maxNesting := hk
  have hstep := (Stmt.exprs_of_part (s := .print pos e) (u := u) List.mem_cons_self).2
  show e.depth u + (d + Stmt.printStep u pos e) ≤ maxNesting
  omega

theorem not_quoted_of_end {c : Cursor} (h : c.atStatementEnd = true) :
    startsQuoted c.here.kind = false := by
  unfold Cursor.atStatementEnd at h
  split at h
  · next hk => rw [hk]; rfl
  · next hk => rw [hk]; rfl
  · next hk => rw [hk]; rfl
  · cases h

theorem plainText_cuts (hd : d ≤ maxNesting) {pos : Position} (hpos : pos ∈ u.texts) :
    (plainText pos).Cuts ts S .empty (plainText pos) (printBound u d pos) :=
  gives_get.cuts fun _ hc => (stays_set (Cursor.skipWhile_within hc _)).cuts fun _ =>
    cuts_pure (text_le hd hpos rfl rfl)

/-- A try: the whole expression that `r` reads, or else a text. -/
def orText (pos : Position) (r : Reader Expr) : Reader Expr := do
  match ← wholeExpression? r with
  | some e => return e
  | none => plainText pos

section
variable {pos : Position} {r : Reader Expr} {c c₁ : Cursor}

theorem orText_ok {e : Expr} (h : r c = .ok (e, c₁)) : orText pos r c =
    if c₁.atStatementEnd && c₁.bare == c.bare then .ok (e, c₁) else plainText pos c := by
  show (wholeExpression? r c >>= _) = _
  rw [wholeExpression?, h]
  simp only
  split <;> rfl

theorem orText_error {err : ParseError} (h : r c = .error err) :
    orText pos r c = plainText pos c := by
  show (wholeExpression? r c >>= _) = _
  rw [wholeExpression?, h]
  rfl

end

/-- Only a try is refused without a failure: it is cut to a text. -/
theorem orText_cuts (hd : d ≤ maxNesting)
    (hexpr : expr.Cuts ts True .empty free (Expr.bound u (d + 1)))
    (hfree : ∀ c, free.Yields ts c Spelled) {pos : Position} (hpos : pos ∈ u.texts) {c : Cursor}
    (hc : c.Within ts) (hstart : mayStartExpression c = true) :
    CutAt ts False .empty (orText pos expr) (orText pos free) (printBound u d pos) c := by
  have hat := hexpr c hc
  have htext := plainText_cuts (S := True) hd hpos c hc
  refine ⟨fun a c' hok => ?_, fun a c' hok => ?_, fun _ a c' hok => ?_, False.elim⟩
  · cases hr : expr c with
    | error err => exact htext.gives a c' (orText_error hr ▸ hok)
    | ok p =>
      rw [orText_ok hr] at hok
      split at hok
      · obtain ⟨rfl, rfl⟩ := Prod.mk.inj (Except.ok.inj hok)
        exact (hat.gives _ _ hr).imp_right ((print_le pos _).1 ∘ ·)
      · exact htext.gives a c' hok
  · cases hf : free c with
    | error err => exact htext.keeps a c' (orText_error hf ▸ hok)
    | ok p =>
      rw [orText_ok hf] at hok
      split at hok
      · obtain ⟨rfl, rfl⟩ := Prod.mk.inj (Except.ok.inj hok)
        exact ⟨(hat.keeps _ _ hf).1, False.elim, False.elim⟩
      · exact htext.keeps a c' hok
  · cases hf : free c with
    | error err =>
      cases hr : expr c with
      | error err' =>
        rw [orText_error hf] at hok
        exact .inl (orText_error hr ▸ hok)
      | ok p =>
        have hsound := hat.sound trivial _ _ hr
        rw [hf] at hsound
        cases hsound
    | ok p =>
      obtain ⟨e, c₁⟩ := p
      rw [orText_ok hf] at hok
      rcases hat.follows trivial _ _ hf with hr | ⟨⟨what, p, hr⟩, hdeep⟩ | hx
      · exact .inl (orText_ok hr ▸ hok)
      · split at hok
        · obtain ⟨rfl, -⟩ := Prod.mk.inj (Except.ok.inj hok)
          obtain ⟨us, k, hreads, -, hspelled⟩ := (hfree c).ok hc hf
          obtain ⟨t, vs, rfl, -⟩ := hspelled.written.head
          have hhere : c.here = t := (List.cons.inj hreads).1
          refine .inr (.inr ⟨hspelled.written.leads rfl ?_, hdeep⟩)
          rw [← hhere]
          exact startsName_of_may hstart
        · exact .inl (orText_error hr ▸ hok)
      · exact hx.elim

theorem printed_cuts (hd : d ≤ maxNesting)
    (hexpr : expr.Cuts ts True .empty free (Expr.bound u (d + 1)))
    (hfree : ∀ c, free.Yields ts c Spelled) {pos : Position} {c : Cursor} (hc : c.Within ts)
    (hpos : startsQuoted c.here.kind = false → pos ∈ u.texts) :
    CutAt ts False .empty (printed expr pos) (printed free pos) (printBound u d pos) c := by
  refine (gives_get c hc).cuts fun c' c₁ hget _ _ => ?_
  obtain ⟨rfl, rfl⟩ := get_ok.mp hget
  by_cases hend : c.atStatementEnd = true
  · simp only [hend, if_true]
    exact cuts_pure (text_le hd (hpos (not_quoted_of_end hend)) rfl rfl) c hc
  · simp only [hend]
    by_cases hquoted : startsQuoted c.here.kind = true
    · simp only [hquoted, if_true]
      exact hexpr.weaken.mono (print_le pos) c hc
    · simp only [hquoted]
      have hpos := hpos (Bool.eq_false_iff.mpr hquoted)
      by_cases hstart : mayStartExpression c = true
      · simp only [hstart, if_true]
        exact orText_cuts hd hexpr hfree hpos hc hstart
      · simp only [hstart]
        exact plainText_cuts hd hpos c hc

/-- A print statement from its word on. -/
theorem printStatement_cuts (hd : d ≤ maxNesting)
    (hexpr : expr.Cuts ts True .empty free (Expr.bound (uncounted ts) (d + 1)))
    (hfree : ∀ c, free.Yields ts c Spelled) {c : Cursor} (hc : c.Within ts)
    (hk : c.here.kind = .keyword .print) :
    CutAt ts False .empty
      (do let _ ← advance; return .print c.here.pos (← printed expr c.here.pos))
      (do let _ ← advance; return .print c.here.pos (← printed free c.here.pos))
      (Stmt.bound (uncounted ts) d) c := by
  -- what is not quoted after the word does not count if it is a text
  have hpos (hquoted : startsQuoted c.next.here.kind = false) :
      c.here.pos ∈ (uncounted ts).texts := by
    have hrest : c.rest = c.here :: c.next.here :: c.next.ahead :=
      Cursor.reads_next hc.1 (by simp [hk])
    have hts : c.here :: c.next.here :: c.next.ahead <:+ ts := hrest ▸ hc.2
    exact mem_placesWhere hts (decide_eq_true ⟨hk, hquoted⟩)
  refine (stays_advance c hc).cuts fun t c₁ hadvance hc₁ _ => ?_
  obtain ⟨-, rfl⟩ := advance_ok.mp hadvance
  refine (printed_cuts hd hexpr hfree hc₁ hpos).bind fun e c₂ hc₂ => ?_
  exact cuts_pure (Stmt.print_le hd _ e) c₂ hc₂

/-! ## Simple statements -/

/-- For expressions the order does not matter. -/
theorem append_le (xs : List Expr) (e : Expr) :
    Bound.all (Expr.bound u d) xs ++ Expr.bound u d e ≤ Bound.all (Expr.bound u d) (e :: xs) := by
  refine ⟨And.symm, Or.symm, fun hk => ?_⟩
  rcases hk with hcut | ⟨-, hcut⟩
  · exact (Expr.not_cut_all xs hcut).elim
  · exact hcut.elim

section

variable (hexpr : expr.Cuts ts S .empty free (Expr.bound u (d + 1)))
include hexpr

theorem accessors_cuts (n : Nat) (read : List Accessor) :
    (accessors expr n read).Cuts ts S
      (.all (Expr.bound u (d + 1)) (read.reverse.filterMap Accessor.key?)) (accessors free n read)
      fun path => .all (Expr.bound u (d + 1)) (path.filterMap Accessor.key?) := by
  induction n generalizing read with
  | zero => exact cuts_none (gives_fail _)
  | succ n ih =>
    refine (stays_accept _).cuts fun _ => cuts_ite (fun _ => ?_) fun _ => ?_
    · refine stays_propertyName.cuts fun x => ?_
      simpa [List.filterMap_cons, Accessor.key?] using ih (.member x :: read)
    · refine (stays_accept _).cuts fun _ =>
        cuts_ite (fun _ => ?_) fun _ => cuts_pure (Bound.le_refl _)
      refine (hexpr.frame _).bind fun e => (stays_expect _).cuts fun _ => ?_
      simpa [List.filterMap_cons, Accessor.key?, Bound.all_append] using ih (.index e :: read)

theorem hostArgs_cuts (n : Nat) (read : List Expr) :
    (hostArgs expr n read).Cuts ts S (.all (Expr.bound u (d + 1)) read.reverse)
      (hostArgs free n read) (.all (Expr.bound u (d + 1))) := by
  induction n generalizing read with
  | zero => exact cuts_none (gives_fail _)
  | succ n ih =>
    refine stays_atStatementEnd.cuts fun _ => (stays_isAtWord _).cuts fun _ =>
      cuts_ite (fun _ => cuts_pure (Bound.le_refl _)) fun _ => ?_
    refine (hexpr.frame _).bind fun arg => ?_
    rw [Bound.all_next]
    exact (stays_accept _).cuts fun _ => ih (arg :: read)

theorem optionalExpression_cuts :
    (optionalExpression expr).Cuts ts S .empty (optionalExpression free)
      fun o => .all (Expr.bound u (d + 1)) o.toList := by
  refine stays_atStatementEnd.cuts fun _ =>
    cuts_ite (fun _ => cuts_pure (Bound.le_refl _)) fun _ => ?_
  refine hexpr.bind fun e => cuts_pure ?_
  simpa using Bound.le_refl _

variable (hd : d ≤ maxNesting)
include hd

theorem assignment_cuts (n : Nat) (pos : Position) :
    (assignment n expr pos).Cuts ts S .empty (assignment n free pos) (Stmt.bound u d) := by
  refine (stays_variableName _).cuts fun x => (accessors_cuts hexpr n []).bind fun path =>
    (stays_expect _).cuts fun _ => (hexpr.frame _).bind fun e => ?_
  refine (cuts_pure ?_).of_le (append_le _ e)
  simpa [Stmt.exprs, Stmt.blocks] using Stmt.parts_le (u := u) hd (.set pos x path e)

theorem hostStatement_cuts (n : Nat) (verb : Verb) {pos : Position} (hpos : pos ∈ starts ts) :
    (hostStatement n expr verb pos).Cuts ts S .empty (hostStatement n free verb pos)
      (Stmt.bound u d) := by
  refine (hostArgs_cuts hexpr n []).bind fun args => ?_
  refine (answerVariable_gives verb).cuts fun into _ => cuts_ite (fun _ => ?_) fun _ => ?_
  · exact cuts_none (Gives.bind (gives_failAt _ hpos) fun _ (h : False) => h.elim)
  · refine cuts_pure ?_
    simpa [Stmt.exprs, Stmt.blocks] using Stmt.parts_le (u := u) hd (.host pos verb args into)

theorem callStatement_cuts (n : Nat) (pos : Position) (name : String) :
    (callStatement n expr pos name).Cuts ts S .empty (callStatement n free pos name)
      (Stmt.bound u d) := by
  refine stays_advance.cuts fun _ => gives_get.cuts fun c _ => cuts_ite (fun _ => ?_) fun _ => ?_
  · exact cuts_none (Gives.bind (gives_want _) fun _ (h : False) => h.elim)
  · refine (parenArgs_cuts hexpr n).bind fun args => ?_
    exact (cuts_pure (Stmt.call_le hd pos name args)).of_le paren_le

end

/-! ## Statements with blocks -/

theorem stmt_deep_beyond (d : Nat) (hd : maxNesting < d) (s : Stmt) : (Stmt.bound u d s).deep :=
  Nat.lt_of_lt_of_le hd (Nat.le_add_left _ _)

/-- Expressions, blocks and branches of any depth are read in the same way. -/
def Body.flat (fe fu : Reader Expr) (fb : Reader Block) (fs : Reader Stmt) : Body :=
  ⟨.flat fe fu, fun _ => fb, fun _ => fs⟩

/-- The ways to read what is inside a statement agree up to the limit. -/
structure Body.Cuts (ts : List Token) (body : Body) (fe fu : Reader Expr) (fb : Reader Block)
    (fs : Reader Stmt) : Prop where
  inner : ∀ {S : Prop}, body.inner.Cuts ts S fe fu
  spelled : ∀ c, fe.Yields ts c Spelled
  block : ∀ d, (body.block d).Cuts ts False .empty fb (Block.bound (uncounted ts) (d + 1))
  branch : ∀ d ≤ maxNesting,
    (body.branch d).Cuts ts False .empty fs (Stmt.bound (uncounted ts) d)

section

variable {body : Body} {fe fu : Reader Expr} {fb : Reader Block} {fs : Reader Stmt}
  (hbody : body.Cuts ts fe fu fb fs)
include hbody

theorem elseBlock_cuts (d : Nat) :
    (elseBlock body d).Cuts ts False .empty (elseBlock (.flat fe fu fb fs) 0)
      fun o => .all (Block.bound (uncounted ts) (d + 1)) o.toList := by
  refine gives_get.cuts fun c hc => stays_skipNewlines.cuts fun _ =>
    (stays_isAtWord _).cuts fun _ => cuts_ite (fun _ => stays_advance.cuts fun t =>
      (stays_isAtWord _).cuts fun _ => cuts_ite (fun _ => ?_) fun _ => ?_) fun _ => ?_
  · have hnested := nested_cuts hbody.branch stmt_deep_beyond .block d
    refine Cuts.bind hnested fun s => cuts_pure ?_
    have hblock : Bound.all (Stmt.bound (uncounted ts) (d + 1)) [s] ≤
        Block.bound (uncounted ts) (d + 1) (.mk t.pos [s]) :=
      Block.stmts_le (fun hfits => Nat.le_trans (Nat.le_add_left _ _)
        (Bound.fits_all.mp hfits s (List.mem_singleton_self s))) t.pos
    simpa using hblock
  · refine (hbody.block d).bind fun b => cuts_pure ?_
    simpa using Bound.le_refl _
  · exact (stays_set hc).cuts fun _ => cuts_pure (Bound.le_refl _)

section
variable {d : Nat} (hd : d ≤ maxNesting)
include hd

theorem branchWith_cuts :
    (branchWith body d).Cuts ts False .empty (branchWith (.flat fe fu fb fs) 0)
      (Stmt.bound (uncounted ts) d) := by
  refine (stays_expectWord _).cuts fun t => (hbody.inner.expression d).bind fun e => ?_
  have hrest : (do
      let yes ← body.block d
      let no ← elseBlock body d
      return .branch t.pos e yes no : Reader Stmt).Cuts ts False
      (Expr.bound (uncounted ts) (d + 1) e) (do
      let yes ← (Body.flat fe fu fb fs).block 0
      let no ← elseBlock (.flat fe fu fb fs) 0
      return .branch t.pos e yes no) (Stmt.bound (uncounted ts) d) := by
    refine ((hbody.block d).frame _).bind fun yes => ((elseBlock_cuts hbody d).frame _).bind
      fun no => cuts_pure ?_
    simpa [Stmt.exprs, Stmt.blocks, Bound.all_cons, Bound.append_assoc] using
      Stmt.parts_le (u := uncounted ts) hd (.branch t.pos e yes no)
  exact (stays_isAtWord _).cuts fun _ =>
    cuts_ite (fun _ => stays_advance.cuts fun _ => hrest) fun _ => hrest

/-- A statement with an expression and then a block. -/
theorem headed_cuts (make : Expr → Block → Stmt) (hexprs : ∀ e b, (make e b).exprs = [e])
    (hblocks : ∀ e b, (make e b).blocks = [b]) :
    (do
      let e ← body.inner.expression d
      return make e (← body.block d) : Reader Stmt).Cuts ts False .empty (do
      let e ← (Body.flat fe fu fb fs).inner.expression 0
      return make e (← (Body.flat fe fu fb fs).block 0)) (Stmt.bound (uncounted ts) d) := by
  refine (hbody.inner.expression d).bind fun e => ((hbody.block d).frame _).bind fun b =>
    cuts_pure ?_
  simpa [hexprs, hblocks] using Stmt.parts_le (u := uncounted ts) hd (make e b)

/-- A statement that is only a block with names. -/
theorem bodied_cuts (make : Block → Stmt) (hexprs : ∀ b, (make b).exprs = [])
    (hblocks : ∀ b, (make b).blocks = [b]) :
    (do return make (← body.block d) : Reader Stmt).Cuts ts False .empty
      (do return make (← (Body.flat fe fu fb fs).block 0)) (Stmt.bound (uncounted ts) d) := by
  refine (hbody.block d).bind fun b => cuts_pure ?_
  simpa [hexprs, hblocks] using Stmt.parts_le (u := uncounted ts) hd (make b)

theorem attemptStatement_cuts (pos : Position) :
    (attemptStatement body d pos).Cuts ts False .empty (attemptStatement (.flat fe fu fb fs) 0 pos)
      (Stmt.bound (uncounted ts) d) := by
  refine (hbody.block d).bind fun tried => stays_skipNewlines.cuts fun _ =>
    (stays_expectWord _).cuts fun _ => stays_variableName?.cuts fun x =>
      ((hbody.block d).frame _).bind fun b => cuts_pure ?_
  simpa [Stmt.exprs, Stmt.blocks, Bound.all_cons] using
    Stmt.parts_le (u := uncounted ts) hd (.attempt pos tried (x.getD "error") b)

/-- A statement with an optional expression and nothing else. -/
theorem optional_cuts (make : Option Expr → Stmt) (hexprs : ∀ o, (make o).exprs = o.toList)
    (hblocks : ∀ o, (make o).blocks = []) :
    (do return make (← optionalExpression (body.inner.expression d)) : Reader Stmt).Cuts ts False
      .empty (do return make (← optionalExpression ((Body.flat fe fu fb fs).inner.expression 0)))
      (Stmt.bound (uncounted ts) d) := by
  refine (optionalExpression_cuts (hbody.inner.expression d)).bind fun o => cuts_pure ?_
  simpa [hexprs, hblocks] using Stmt.parts_le (u := uncounted ts) hd (make o)

theorem wordStatement_cuts (n : Nat) {k : Keyword} {c : Cursor} (hc : c.Within ts)
    (hk : c.here.kind = .keyword k) :
    CutAt ts False .empty (wordStatement n body d c.here.pos k)
      (wordStatement n (.flat fe fu fb fs) 0 c.here.pos k) (Stmt.bound (uncounted ts) d) c := by
  have hexpr : (body.inner.expression d).Cuts ts False .empty fe
      (Expr.bound (uncounted ts) (d + 1)) := hbody.inner.expression d
  have hparts (s : Stmt) := Stmt.parts_le (u := uncounted ts) hd s
  -- what is read from the next token on
  have hcuts {r f : Reader Stmt} (h : r.Cuts ts False .empty f (Stmt.bound (uncounted ts) d)) :
      CutAt ts False .empty (advance >>= fun _ => r) (advance >>= fun _ => f)
        (Stmt.bound (uncounted ts) d) c :=
    stays_advance.cuts (fun _ => h) c hc
  unfold wordStatement
  split
  · exact hcuts (assignment_cuts hexpr hd n _)
  · exact printStatement_cuts hd (hbody.inner.expression d) hbody.spelled hc hk
  · exact branchWith_cuts hbody hd c hc
  · exact hcuts (headed_cuts hbody hd (fun e b => .loop c.here.pos e b) (fun _ _ => rfl)
      fun _ _ => rfl)
  · exact hcuts (headed_cuts hbody hd (fun e b => .while_ c.here.pos e b) (fun _ _ => rfl)
      fun _ _ => rfl)
  · refine hcuts ((stays_variableName _).cuts fun x => (stays_expectWord _).cuts fun _ => ?_)
    exact headed_cuts hbody hd (fun e b => .foreach c.here.pos x e b) (fun _ _ => rfl)
      fun _ _ => rfl
  · refine hcuts (cuts_pure ?_)
    simpa [Stmt.exprs, Stmt.blocks] using hparts (.break_ c.here.pos)
  · refine hcuts (cuts_pure ?_)
    simpa [Stmt.exprs, Stmt.blocks] using hparts (.continue_ c.here.pos)
  · exact hcuts (optional_cuts hbody hd (fun o => .return_ c.here.pos o) (fun _ => rfl)
      fun _ => rfl)
  · refine hcuts (stays_functionName.cuts fun x => (stays_parameters n).cuts fun xs => ?_)
    exact bodied_cuts hbody hd (fun b => .define c.here.pos x xs b) (fun _ => rfl) fun _ => rfl
  · exact call_cuts hexpr (hbody.inner.unary d hd) n hc hk fun x args => Stmt.call_le hd _ x args
  · exact hcuts (attemptStatement_cuts hbody hd _)
  · refine hcuts (hexpr.bind fun e => cuts_pure ?_)
    simpa [Stmt.exprs, Stmt.blocks] using hparts (.throw c.here.pos e)
  · refine hcuts (stays_eventName.cuts fun x => ?_)
    exact bodied_cuts hbody hd (fun b => .on c.here.pos x b) (fun _ => rfl) fun _ => rfl
  · refine hcuts (stays_eventName.cuts fun x => ?_)
    exact optional_cuts hbody hd (fun o => .emit c.here.pos x o) (fun _ => rfl) fun _ => rfl
  · split
    · exact hcuts (hostStatement_cuts hexpr hd n _ hc.here_starts)
    · exact cuts_none (gives_unexpected _) c hc

theorem statement_cuts (n : Nat) :
    (statement n body d).Cuts ts False .empty (statement n (.flat fe fu fb fs) 0)
      (Stmt.bound (uncounted ts) d) := by
  intro c hc
  refine (gives_get c hc).cuts fun c' c₁ hget _ _ => ?_
  obtain ⟨rfl, rfl⟩ := get_ok.mp hget
  simp only
  split
  · next k hk => exact wordStatement_cuts hbody hd n hc hk
  · exact assignment_cuts (hbody.inner.expression d) hd n _ c hc
  · exact cuts_ite (fun _ => callStatement_cuts (hbody.inner.expression d) hd n _ _)
      (fun _ => cuts_none (gives_unexpected _)) c hc
  · exact bodied_cuts hbody hd (fun b => .block c.here.pos b) (fun _ => rfl) (fun _ => rfl) c hc
  · exact cuts_none (gives_unexpected _) c hc

end

end

/-! ## Programs -/

theorem statementsUntil_cuts {stop : Reader Bool} {stmt free : Reader Stmt} {B : Stmt → Bound}
    (hstop : stop.Stays ts) (hstmt : stmt.Cuts ts S .empty free B) (n : Nat) (read : List Stmt) :
    (statementsUntil stop stmt n read).Cuts ts S (.all B read.reverse)
      (statementsUntil stop free n read) (.all B) := by
  induction n generalizing read with
  | zero => exact cuts_none (gives_fail _)
  | succ n ih =>
    refine hstop.cuts fun _ => cuts_ite (fun _ => cuts_pure (Bound.le_refl _)) fun _ => ?_
    refine (hstmt.frame _).bind fun s => ?_
    rw [Bound.all_next]
    exact stays_endStatement.cuts fun _ => ih (s :: read)

theorem blockWith_cuts {body : Body} {fe fu : Reader Expr} {fb : Reader Block} {fs : Reader Stmt}
    (hbody : body.Cuts ts fe fu fb fs) (n d : Nat) (hd : d ≤ maxNesting) :
    (blockWith n body d).Cuts ts False .empty (blockWith n (.flat fe fu fb fs) 0)
      (Block.bound (uncounted ts) d) := by
  refine stays_skipNewlines.cuts fun _ => (gives_expect _).cuts fun t ht =>
    stays_skipNewlines.cuts fun _ => (statementsUntil_cuts (stays_atBlockEnd ht)
      (statement_cuts hbody hd n) n []).bind fun ss => ?_
  exact stays_advance.cuts fun _ => cuts_pure (Block.stmts_le (fun _ => hd) t.pos)

mutual

/-- A block of any depth. -/
def freeBlock : Nat → Reader Block
  | 0 => fail .exhausted
  | n + 1 =>
    blockWith n (.flat (freeExpression n) (freeUnary n) (freeBlock n) (freeBranch n)) 0

/-- A branch of any depth. -/
def freeBranch : Nat → Reader Stmt
  | 0 => fail .exhausted
  | n + 1 => branchWith (.flat (freeExpression n) (freeUnary n) (freeBlock n) (freeBranch n)) 0

end

def freeProgram (n : Nat) : Reader Block := do
  let pos := (← peek).pos
  skipNewlines
  let inside := Body.flat (freeExpression n) (freeUnary n) (freeBlock n) (freeBranch n)
  let stmts ← statementsUntil (isAt .eof) (statement n inside 0) n []
  return .mk pos stmts

theorem body_cuts (n : Nat) :
    (body n).Cuts ts (freeExpression n) (freeUnary n) (freeBlock n) (freeBranch n) := by
  induction n with
  | zero =>
    exact ⟨inner_cuts 0, (freeInner_yields 0).expression 0, fun _ => cuts_none (gives_fail _),
      fun _ _ => cuts_none (gives_fail _)⟩
  | succ n ih =>
    refine ⟨inner_cuts (n + 1), (freeInner_yields (n + 1)).expression 0, fun d => ?_,
      fun d hd => branchWith_cuts ih hd⟩
    exact nested_cuts (blockWith_cuts ih n)
      (fun d hd b => Nat.lt_of_lt_of_le hd (Nat.le_add_left _ _)) .block d

theorem program_cuts (n : Nat) :
    (program n).Cuts ts False .empty (freeProgram n) (Block.bound (uncounted ts) 0) := by
  refine gives_peek.cuts fun t _ => stays_skipNewlines.cuts fun _ =>
    (statementsUntil_cuts (stays_isAt _) (statement_cuts (body_cuts n) (Nat.zero_le _) n) n []).bind
      fun ss => ?_
  exact cuts_pure (Block.stmts_le (fun _ => Nat.zero_le _) t.pos)

/-- What is only worth a try and too deep as an expression is a text. -/
theorem printed_tooDeep {c : Cursor} {pos : Position} (hstart : mayStartExpression c = true)
    (hdeep : TooDeep (expr c)) : printed expr pos c = plainText pos c := by
  obtain ⟨what, p, hexpr⟩ := hdeep
  have hend : c.atStatementEnd = false ∧ startsQuoted c.here.kind = false := by
    unfold mayStartExpression at hstart
    unfold Cursor.atStatementEnd
    split at hstart <;> simp_all [startsQuoted]
  rw [printed, bind_run (get_run c)]
  simp only [hend.1, hend.2, hstart, Bool.false_eq_true, if_false, if_true]
  exact orText_error hexpr

end Reader

/-- The program written by a list of tokens, whatever its depth. -/
def parseFreely (ts : List Token) : Except ParseError Block :=
  let c := Cursor.ofTokens ts
  (Reader.freeProgram (c.ahead.length + 2) c).map (·.1)

theorem parse_cut (ts : List Token) :
    (∀ b, parse ts = .ok b → b.depth (uncounted (Cursor.ended ts)) ≤ Reader.maxNesting) ∧
    ∀ b, parseFreely ts = .ok b → parse ts = .ok b ∨
      (TooDeep (parse ts) ∧ Reader.maxNesting < b.depth .none) ∨
      b.CutOff (uncounted (Cursor.ended ts)) 0 := by
  have hcut := Reader.program_cuts ((Cursor.ofTokens ts).ahead.length + 2) (Cursor.ofTokens ts)
    (Cursor.within_ofTokens ts)
  constructor
  · intro b hb
    obtain ⟨⟨b', c⟩, hok, rfl⟩ := exceptMap_ok.mp hb
    exact (hcut.gives _ _ hok).2 trivial
  · intro b hb
    obtain ⟨⟨b', c⟩, hok, rfl⟩ := exceptMap_ok.mp hb
    rcases hcut.follows trivial _ _ hok with hsame | ⟨hdeep, hb⟩ | hcut
    · exact .inl (exceptMap_ok.mpr ⟨_, hsame, rfl⟩)
    · exact .inr (.inl ⟨tooDeep_map hdeep _, hb⟩)
    · exact .inr (.inr hcut)

/-- **The depth limit.** What is read keeps to it, counting all but the uncounted steps. What can be
read without the limit is read if all its steps keep to the limit, and is refused if the counted
ones do not, unless the first thing beyond the limit follows a `print` that only tries it: that is
taken for a text. What is quoted after `print` counts like any other expression. -/
theorem parse_depth (ts : List Token) :
    (∀ b, parse ts = .ok b → b.depth (uncounted (Cursor.ended ts)) ≤ Reader.maxNesting) ∧
    (∀ b, parseFreely ts = .ok b → b.depth .none ≤ Reader.maxNesting → parse ts = .ok b) ∧
    (∀ b, parseFreely ts = .ok b → Reader.maxNesting < b.depth (uncounted (Cursor.ended ts)) →
      TooDeep (parse ts) ∨ b.CutOff (uncounted (Cursor.ended ts)) 0) ∧
    ∀ n d pos (c : Cursor), Reader.mayStartExpression c = true → TooDeep (Reader.expression n d c) →
      Reader.printed (Reader.expression n d) pos c = Reader.plainText pos c := by
  obtain ⟨hfits, hfollows⟩ := parse_cut ts
  refine ⟨hfits, fun b hb hdepth => ?_, fun b hb hdeep => ?_, ?_⟩
  · rcases hfollows b hb with hsame | ⟨-, hdeep⟩ | hcut
    · exact hsame
    · omega
    · have := hcut.deep
      omega
  · rcases hfollows b hb with hsame | ⟨htoo, -⟩ | hcut
    · have := hfits b hsame
      omega
    · exact .inl htoo
    · exact .inr hcut
  · exact fun n d pos c hstart hdeep => Reader.printed_tooDeep hstart hdeep

end DeskScript
