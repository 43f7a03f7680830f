import DeskScript.Proofs.Program.Depth
import DeskScript.Proofs.Program.Formed

/-!
# Expressions under the depth limit

`freeExpression` reads expressions of any depth by the same productions. The reader
with the limit gives the same result where it gives one, which then fits; and where
it refuses one as too deep, that is so (`inner_cuts`).

A `Bound` says of what has been read whether it fits, whether something in it is too
deep, and whether the first thing too deep is cut off without a refusal, which only
happens in statements. If `k` bounds what was read before, and `B a` all up to the
result `a`:

    (r.Cuts ts S k f B) :  k.fits, r gives a → (B a).fits
                           k.fits, f gives a → r gives a, or r fails as too deep and
                             (B a).deep, or (B a).cut
-/

namespace DeskScript

/-! ## Readers with and without the limit -/

/-- The input is rejected as too deep. -/
def TooDeep {α : Type} (x : Except ParseError α) : Prop :=
  ∃ what pos, x = .error ⟨.tooDeep what, pos⟩

theorem tooDeep_map {α β : Type} {x : Except ParseError α} (h : TooDeep x) (f : α → β) :
    TooDeep (x.map f) := by
  obtain ⟨what, pos, rfl⟩ := h
  exact ⟨what, pos, rfl⟩

/-- What the limit says of something: it fits, something in it is too deep, or the first thing in it
that does not fit is cut off. -/
@[ext] structure Bound where
  fits : Prop
  deep : Prop
  cut : Prop

namespace Bound

variable {α β : Type} {k k' : Bound} {B : α → Bound}

/-- Nothing was read. -/
def empty : Bound := ⟨True, False, False⟩

/-- One thing after another. -/
instance : Append Bound where
  append k k' := ⟨k.fits ∧ k'.fits, k.deep ∨ k'.deep, k.cut ∨ k.fits ∧ k'.cut⟩

instance : LE Bound where
  le k k' := (k.fits → k'.fits) ∧ (k.deep → k'.deep) ∧ (k.cut → k'.cut)

theorem le_refl (k : Bound) : k ≤ k := ⟨id, id, id⟩

@[simp] theorem append_empty (k : Bound) : k ++ empty = k := by
  ext
  · exact and_iff_left trivial
  · exact or_iff_left id
  · exact ⟨fun h => h.resolve_right fun hx => hx.2, .inl⟩

@[simp] theorem empty_append (k : Bound) : empty ++ k = k := by
  ext
  · exact and_iff_right trivial
  · exact or_iff_right id
  · exact ⟨fun h => h.elim False.elim (·.2), fun h => .inr ⟨trivial, h⟩⟩

theorem append_assoc (k k' k'' : Bound) : k ++ k' ++ k'' = k ++ (k' ++ k'') := by
  ext
  · exact and_assoc
  · exact or_assoc
  · show (k.cut ∨ k.fits ∧ k'.cut) ∨ (k.fits ∧ k'.fits) ∧ k''.cut ↔
      k.cut ∨ k.fits ∧ (k'.cut ∨ k'.fits ∧ k''.cut)
    rw [or_assoc, and_assoc, ← and_or_left]

/-- All things of a list, one after the other. -/
def all (B : α → Bound) (xs : List α) : Bound := xs.foldr (fun x k => B x ++ k) empty

@[simp] theorem all_nil : all B [] = empty := rfl

theorem all_cons (x : α) (xs : List α) : all B (x :: xs) = B x ++ all B xs := rfl

@[simp] theorem all_singleton (x : α) : all B [x] = B x := append_empty _

theorem all_append (xs ys : List α) : all B (xs ++ ys) = all B xs ++ all B ys := by
  induction xs with
  | nil => simp
  | cons x xs ih => rw [List.cons_append, all_cons, all_cons, ih, append_assoc]

theorem fits_all {xs : List α} : (all B xs).fits ↔ ∀ x ∈ xs, (B x).fits := by
  induction xs with
  | nil => exact iff_of_true trivial (List.forall_mem_nil _)
  | cons x xs ih =>
    have hcons : (all B (x :: xs)).fits ↔ (B x).fits ∧ (all B xs).fits := Iff.rfl
    rw [hcons, ih, List.forall_mem_cons]

theorem deep_all {xs : List α} : (all B xs).deep ↔ ∃ x ∈ xs, (B x).deep := by
  induction xs with
  | nil => exact iff_of_false id (by simp)
  | cons x xs ih =>
    have hcons : (all B (x :: xs)).deep ↔ (B x).deep ∨ (all B xs).deep := Iff.rfl
    rw [hcons, ih]
    simp

/-- What is cut off comes after things that fit. -/
theorem cut_all {xs : List α} : (all B xs).cut ↔
    ∃ before x after, xs = before ++ x :: after ∧ (∀ y ∈ before, (B y).fits) ∧ (B x).cut := by
  induction xs with
  | nil => exact iff_of_false id (by simp)
  | cons x xs ih =>
    have hcons : (all B (x :: xs)).cut ↔ (B x).cut ∨ (B x).fits ∧ (all B xs).cut := Iff.rfl
    rw [hcons, ih]
    constructor
    · rintro (h | ⟨hx, before, y, after, rfl, hbefore, hy⟩)
      · exact ⟨[], x, xs, rfl, List.forall_mem_nil _, h⟩
      · exact ⟨x :: before, y, after, rfl, List.forall_mem_cons.mpr ⟨hx, hbefore⟩, hy⟩
    · rintro ⟨before, y, after, heq, hbefore, hy⟩
      cases before with
      | nil =>
        obtain ⟨rfl, rfl⟩ := List.cons.inj heq
        exact .inl hy
      | cons z before =>
        obtain ⟨rfl, rfl⟩ := List.cons.inj heq
        obtain ⟨hz, hbefore⟩ := List.forall_mem_cons.mp hbefore
        exact .inr ⟨hz, before, y, after, rfl, hbefore, hy⟩

theorem all_map (g : β → α) (xs : List β) : all B (xs.map g) = all (fun x => B (g x)) xs := by
  rw [all, List.foldr_map]
  rfl

/-- The next thing after those read so far. -/
theorem all_next (read : List α) (x : α) :
    all B read.reverse ++ B x = all B (x :: read).reverse := by
  rw [List.reverse_cons, all_append, all_singleton]

end Bound

namespace Reader

variable {α β : Type} {ts : List Token} {S : Prop} {k k' : Bound} {B : α → Bound} {B' : β → Bound}

/-- How the outcome `x` under the limit and the outcome `y` without it are related, after what `k`
bounds. With `S`, a success under the limit is one without it. -/
structure CutTo (ts : List Token) (S : Prop) (k : Bound) (x y : Except ParseError (α × Cursor))
    (B : α → Bound) : Prop where
  gives : ∀ a c', x = .ok (a, c') → c'.Within ts ∧ (k.fits → (B a).fits)
  keeps : ∀ a c', y = .ok (a, c') → c'.Within ts ∧ (k.deep → (B a).deep) ∧ (k.cut → (B a).cut)
  follows : k.fits → ∀ a c', y = .ok (a, c') →
    x = .ok (a, c') ∨ (TooDeep x ∧ (B a).deep) ∨ (B a).cut
  sound : S → ∀ a c', x = .ok (a, c') → y = .ok (a, c')

/-- So are `r`, which has the limit, and `f`, which has none, from the cursor on. -/
def CutAt (ts : List Token) (S : Prop) (k : Bound) (r f : Reader α) (B : α → Bound) (c : Cursor) :
    Prop :=
  CutTo ts S k (r c) (f c) B

def Cuts (ts : List Token) (S : Prop) (k : Bound) (r f : Reader α) (B : α → Bound) : Prop :=
  ∀ c, c.Within ts → CutAt ts S k r f B c

theorem cutTo_error (e e' : ParseError) : CutTo ts S k (.error e) (.error e') B where
  gives _ _ h := by cases h
  keeps _ _ h := by cases h
  follows _ _ _ h := by cases h
  sound _ _ _ h := by cases h

theorem tooDeep_bind {r : Reader α} {c : Cursor} (h : TooDeep (r c)) (g : α → Reader β) :
    TooDeep ((r >>= g) c) := by
  obtain ⟨what, pos, hr⟩ := h
  exact ⟨what, pos, bind_error hr g⟩

theorem CutAt.bind {r f : Reader α} {g h : α → Reader β} {c : Cursor}
    (hr : CutAt ts S k r f B c)
    (hg : ∀ a c₁, c₁.Within ts → CutAt ts S (B a) (g a) (h a) B' c₁) :
    CutAt ts S k (r >>= g) (f >>= h) B' c where
  gives b c' hok := by
    obtain ⟨a, c₁, ha, hb⟩ := bind_ok.mp hok
    obtain ⟨hc₁, hfits⟩ := hr.gives a c₁ ha
    obtain ⟨hc', hfits'⟩ := (hg a c₁ hc₁).gives b c' hb
    exact ⟨hc', hfits' ∘ hfits⟩
  keeps b c' hok := by
    obtain ⟨a, c₁, ha, hb⟩ := bind_ok.mp hok
    obtain ⟨hc₁, hdeep, hcut⟩ := hr.keeps a c₁ ha
    obtain ⟨hc', hdeep', hcut'⟩ := (hg a c₁ hc₁).keeps b c' hb
    exact ⟨hc', hdeep' ∘ hdeep, hcut' ∘ hcut⟩
  follows hk b c' hok := by
    obtain ⟨a, c₁, ha, hb⟩ := bind_ok.mp hok
    obtain ⟨-, hdeep, hcut⟩ := (hg a c₁ (hr.keeps a c₁ ha).1).keeps b c' hb
    rcases hr.follows hk a c₁ ha with hra | ⟨htoo, hd⟩ | hx
    · obtain ⟨hc₁, hfits⟩ := hr.gives a c₁ hra
      rw [bind_run hra]
      exact (hg a c₁ hc₁).follows (hfits hk) b c' hb
    · exact .inr (.inl ⟨tooDeep_bind htoo g, hdeep hd⟩)
    · exact .inr (.inr (hcut hx))
  sound hS b c' hok := by
    obtain ⟨a, c₁, ha, hb⟩ := bind_ok.mp hok
    have hrest := hg a c₁ (hr.gives a c₁ ha).1
    exact bind_ok.mpr ⟨a, c₁, hr.sound hS a c₁ ha, hrest.sound hS b c' hb⟩

theorem Cuts.bind {r f : Reader α} {g h : α → Reader β} (hr : r.Cuts ts S k f B)
    (hg : ∀ a, (g a).Cuts ts S (B a) (h a) B') : (r >>= g).Cuts ts S k (f >>= h) B' :=
  fun c hc => (hr c hc).bind fun a c₁ hc₁ => hg a c₁ hc₁

/-- Both go on after the same step. -/
theorem GivesAt.cuts {r : Reader α} {g h : α → Reader β} {P : α → Prop} {c : Cursor}
    (hr : r.GivesAt ts c P)
    (hg : ∀ a c₁, r c = .ok (a, c₁) → c₁.Within ts → P a → CutAt ts S k (g a) (h a) B' c₁) :
    CutAt ts S k (r >>= g) (r >>= h) B' c := by
  unfold CutAt
  cases hrun : r c with
  | error e =>
    rw [bind_error hrun, bind_error hrun]
    exact cutTo_error e e
  | ok p =>
    obtain ⟨hc₁, hP⟩ := hr.ok hrun
    rw [bind_run hrun, bind_run hrun]
    exact hg p.1 p.2 hrun hc₁ hP

theorem Gives.cuts {r : Reader α} {g h : α → Reader β} {P : α → Prop} (hr : r.Gives ts P)
    (hg : ∀ a, P a → (g a).Cuts ts S k (h a) B') : (r >>= g).Cuts ts S k (r >>= h) B' :=
  fun c hc => (hr c hc).cuts fun a c₁ _ hc₁ ha => hg a ha c₁ hc₁

theorem Stays.cuts {r : Reader α} {g h : α → Reader β} (hr : r.Stays ts)
    (hg : ∀ a, (g a).Cuts ts S k (h a) B') : (r >>= g).Cuts ts S k (r >>= h) B' :=
  Gives.cuts hr fun a _ => hg a

/-- The same reader, with results that are bounded by what was read before. -/
theorem cuts_same {r : Reader α} {P : α → Prop} (h : r.Gives ts P) (hB : ∀ a, P a → k ≤ B a) :
    r.Cuts ts S k r B := by
  intro c hc
  refine ⟨fun a c' hok => ?_, fun a c' hok => ?_, fun _ _ _ hok => .inl hok, fun _ _ _ hok => hok⟩
  · obtain ⟨hc', ha⟩ := (h c hc).ok hok
    exact ⟨hc', (hB a ha).1⟩
  · obtain ⟨hc', ha⟩ := (h c hc).ok hok
    exact ⟨hc', (hB a ha).2⟩

theorem cuts_pure {a : α} (h : k ≤ B a) : (pure a : Reader α).Cuts ts S k (pure a) B :=
  cuts_same (gives_pure rfl) fun b (hb : a = b) => hb ▸ h

/-- Both fail. -/
theorem cuts_none {r : Reader α} (h : r.Gives ts fun _ => False) : r.Cuts ts S k r B :=
  cuts_same h fun _ hb => hb.elim

theorem cuts_ite {b : Prop} [Decidable b] {r r' f f' : Reader α} (h : b → r.Cuts ts S k f B)
    (h' : ¬b → r'.Cuts ts S k f' B) :
    (if b then r else r').Cuts ts S k (if b then f else f') B := by
  split
  · next hb => exact h hb
  · next hb => exact h' hb

/-- What was read before is read still. -/
theorem Cuts.frame {r f : Reader α} (h : r.Cuts ts S .empty f B) (k : Bound) :
    r.Cuts ts S k f fun a => k ++ B a := by
  intro c hc
  obtain ⟨hgives, hkeeps, hfollows, hsound⟩ := h c hc
  refine ⟨fun a c' hok => ?_, fun a c' hok => ⟨(hkeeps a c' hok).1, .inl, .inl⟩,
    fun hk a c' hok => ?_, hsound⟩
  · obtain ⟨hc', hfits⟩ := hgives a c' hok
    exact ⟨hc', fun hk => ⟨hk, hfits trivial⟩⟩
  · rcases hfollows trivial a c' hok with hsame | ⟨htoo, hdeep⟩ | hcut
    · exact .inl hsame
    · exact .inr (.inl ⟨htoo, .inr hdeep⟩)
    · exact .inr (.inr (.inr ⟨hk, hcut⟩))

theorem Cuts.mono {r f : Reader α} {C : α → Bound} (h : r.Cuts ts S k f B) (hB : ∀ a, B a ≤ C a) :
    r.Cuts ts S k f C := by
  intro c hc
  obtain ⟨hgives, hkeeps, hfollows, hsound⟩ := h c hc
  refine ⟨fun a c' hok => ?_, fun a c' hok => ?_, fun hk a c' hok => ?_, hsound⟩
  · exact (hgives a c' hok).imp_right ((hB a).1 ∘ ·)
  · obtain ⟨hc', hdeep, hcut⟩ := hkeeps a c' hok
    exact ⟨hc', (hB a).2.1 ∘ hdeep, (hB a).2.2 ∘ hcut⟩
  · exact (hfollows hk a c' hok).imp_right (Or.imp (And.imp_right (hB a).2.1) (hB a).2.2)

theorem Cuts.of_le {r f : Reader α} (h : r.Cuts ts S k' f B) (hk : k ≤ k') : r.Cuts ts S k f B := by
  intro c hc
  obtain ⟨hgives, hkeeps, hfollows, hsound⟩ := h c hc
  refine ⟨fun a c' hok => ?_, fun a c' hok => ?_, fun h => hfollows (hk.1 h), hsound⟩
  · exact (hgives a c' hok).imp_right (· ∘ hk.1)
  · obtain ⟨hc', hdeep, hcut⟩ := hkeeps a c' hok
    exact ⟨hc', hdeep ∘ hk.2.1, hcut ∘ hk.2.2⟩

/-- One level further in, unless that is too deep. -/
theorem nested_cuts {inner : Nat → Reader α} {f : Reader α} {B : Nat → α → Bound}
    (h : ∀ d ≤ maxNesting, (inner d).Cuts ts S .empty f (B d))
    (hdeep : ∀ d, maxNesting < d → ∀ a, (B d a).deep) (what : Nest) (d : Nat) :
    (nested what d inner).Cuts ts S .empty f (B (d + 1)) := by
  intro c hc
  unfold nested
  split
  · next hd =>
    have htoo : TooDeep ((fail (.tooDeep what) : Reader α) c) := ⟨what, c.here.pos, rfl⟩
    refine ⟨fun a c' hok => (fail_ok.mp hok).elim, fun a c' hok => ?_, fun _ a c' _ => ?_,
      fun _ a c' hok => (fail_ok.mp hok).elim⟩
    · exact ⟨((h 0 (Nat.zero_le _) c hc).keeps a c' hok).1, False.elim, False.elim⟩
    · exact .inr (.inl ⟨htoo, hdeep (d + 1) (Nat.lt_succ_of_le hd) a⟩)
  · next hd => exact h (d + 1) (Nat.lt_of_not_le hd) c hc

end Reader

/-! ## Bounds of expressions -/

namespace Expr

variable {u : Uncounted} {d : Nat}

/-- The bound of an expression at depth `d`. -/
def bound (u : Uncounted) (d : Nat) (e : Expr) : Bound where
  fits := e.depth u + d ≤ Reader.maxNesting
  deep := Reader.maxNesting < e.depth .none + d
  cut := False

theorem not_cut_all (xs : List Expr) : ¬ (Bound.all (bound u d) xs).cut := by
  rw [Bound.cut_all]
  rintro ⟨_, _, _, _, _, h⟩
  exact h

theorem bound_le {k : Bound} {e : Expr} (hd : d ≤ Reader.maxNesting)
    (hfits : k.fits → ∀ p ∈ e.parts u, (bound u (d + p.1) p.2).fits)
    (hdeep : k.deep → ∃ p ∈ e.parts .none, (bound u (d + p.1) p.2).deep) (hcut : ¬ k.cut) :
    k ≤ bound u d e := by
  refine ⟨fun hk => ?_, fun hk => ?_, hcut⟩
  · have hle : e.depth u ≤ Reader.maxNesting - d := by
      rw [depth_le]
      intro p hp
      have hpart : p.2.depth u + (d + p.1) ≤ Reader.maxNesting := hfits hk p hp
      omega
    show e.depth u + d ≤ Reader.maxNesting
    omega
  · obtain ⟨p, hp, hdeep⟩ := hdeep hk
    have hle : p.1 + p.2.depth .none ≤ e.depth .none := depth_le.mp (Nat.le_refl _) p hp
    have hpart : Reader.maxNesting < p.2.depth .none + (d + p.1) := hdeep
    show Reader.maxNesting < e.depth .none + d
    omega

theorem parts_none {e : Expr} {p : Nat × Expr} (hp : p ∈ e.parts u) :
    ∃ q ∈ e.parts .none, q.2 = p.2 ∧ p.1 ≤ q.1 := by
  cases e with
  | call pos x args =>
    obtain ⟨a, ha, rfl⟩ := List.mem_map.mp hp
    exact ⟨(1, a), List.mem_map.mpr ⟨a, ha, rfl⟩, rfl, u.call_le pos⟩
  | _ => exact ⟨p, hp, rfl, Nat.le_refl _⟩

/-- An expression is bounded by its parts, where all steps count. -/
theorem parts_le (hd : d ≤ Reader.maxNesting) (e : Expr) :
    Bound.all (fun p => bound u (d + p.1) p.2) (e.parts .none) ≤ bound u d e := by
  refine bound_le hd (fun hk p hp => ?_) Bound.deep_all.mp fun hk => ?_
  · obtain ⟨q, hq, heq, hle⟩ := parts_none hp
    have hpart : q.2.depth u + (d + q.1) ≤ Reader.maxNesting := Bound.fits_all.mp hk q hq
    rw [heq] at hpart
    show p.2.depth u + (d + p.1) ≤ Reader.maxNesting
    omega
  · obtain ⟨_, _, _, _, _, h⟩ := Bound.cut_all.mp hk
    exact h

/-- An expression without parts. -/
theorem leaf_le (hd : d ≤ Reader.maxNesting) {e : Expr} (he : e.parts .none = []) :
    Bound.empty ≤ bound u d e := by
  have hparts := parts_le (u := u) hd e
  rwa [he] at hparts

end Expr

/-- The bound of the arguments of a call at `pos`. -/
def callBound (u : Uncounted) (d : Nat) (pos : Position) (args : List Expr) : Bound where
  fits := ∀ e ∈ args, (Expr.bound u (d + u.call pos) e).fits
  deep := ∃ e ∈ args, (Expr.bound u (d + 1) e).deep
  cut := False

section
variable {u : Uncounted} {d : Nat} {pos : Position} {args : List Expr}

theorem paren_le : Bound.all (Expr.bound u (d + 1)) args ≤ callBound u d pos args := by
  refine ⟨fun hk e he => ?_, Bound.deep_all.mp, Expr.not_cut_all args⟩
  have hle : e.depth u + (d + 1) ≤ Reader.maxNesting := Bound.fits_all.mp hk e he
  have hcall := u.call_le pos
  show e.depth u + (d + u.call pos) ≤ Reader.maxNesting
  omega

/-- The step into arguments that does not count. -/
theorem bare_le (hbare : u.call pos = 0) :
    Bound.all (Expr.bound u d) args ≤ callBound u d pos args := by
  refine ⟨fun hk e he => ?_, fun hk => ?_, Expr.not_cut_all args⟩
  · rw [hbare]
    exact Bound.fits_all.mp hk e he
  · obtain ⟨e, he, hdeep⟩ := Bound.deep_all.mp hk
    exact ⟨e, he, Nat.lt_of_lt_of_le hdeep (Nat.add_le_add_left (Nat.le_succ d) _)⟩

theorem callBound_le (hd : d ≤ Reader.maxNesting) (x : String) :
    callBound u d pos args ≤ Expr.bound u d (.call pos x args) := by
  refine Expr.bound_le hd (fun hk => ?_) (fun ⟨e, he, hdeep⟩ => ?_) id
  · simp only [Expr.parts, List.forall_mem_map]
    exact hk
  · exact ⟨(1, e), List.mem_map.mpr ⟨e, he, rfl⟩, hdeep⟩

end

namespace Reader

variable {ts : List Token} {S : Prop} {u : Uncounted} {d : Nat} {expr free : Reader Expr}

/-! ## Chains of operators -/

theorem chainRest_cuts (hd : d ≤ maxNesting) (op? : TokenKind → Option BinaryOp)
    (hoperand : expr.Cuts ts S .empty free (Expr.bound u d)) (n : Nat) (left : Expr) :
    (chainRest op? expr n left).Cuts ts S (Expr.bound u d left) (chainRest op? free n left)
      (Expr.bound u d) := by
  induction n generalizing left with
  | zero => exact cuts_none (gives_fail _)
  | succ n ih =>
    refine gives_peek.cuts fun t _ => ?_
    split
    · exact cuts_pure (Bound.le_refl _)
    · next op _ =>
      refine stays_advance.cuts fun _ => (hoperand.frame _).bind fun right => (ih _).of_le ?_
      simpa [Expr.parts, Bound.all_cons] using
        Expr.parts_le (u := u) hd (.binary left.pos op left right)

theorem chains_cuts (hd : d ≤ maxNesting) (n : Nat)
    (hoperand : expr.Cuts ts S .empty free (Expr.bound u d))
    (levels : List (TokenKind → Option BinaryOp)) :
    (chains n expr levels).Cuts ts S .empty (chains n free levels) (Expr.bound u d) := by
  induction levels with
  | nil => exact hoperand
  | cons op? tighter ih => exact ih.bind fun left => chainRest_cuts hd op? ih n left

/-! ## Lists -/

section

variable {α : Type} {B : α → Bound} {item item' : Reader α}

theorem itemsUntil_cuts (hitem : item.Cuts ts S .empty item' B) (close : Mark) (n : Nat)
    (read : List α) :
    (itemsUntil close item n read).Cuts ts S (.all B read.reverse) (itemsUntil close item' n read)
      (.all B) := by
  induction n generalizing read with
  | zero => exact cuts_none (gives_fail _)
  | succ n ih =>
    refine (stays_isAtMark _).cuts fun _ =>
      cuts_ite (fun _ => cuts_pure (Bound.le_refl _)) fun _ => ?_
    refine (hitem.frame _).bind fun x => ?_
    rw [Bound.all_next]
    refine stays_skipNewlines.cuts fun _ => (stays_accept _).cuts fun _ => cuts_ite (fun _ => ?_)
      fun _ => cuts_pure (Bound.le_refl _)
    exact stays_skipNewlines.cuts fun _ => ih (x :: read)

theorem bracketed_cuts (hitem : item.Cuts ts S .empty item' B) (n : Nat) (close : Mark) :
    (bracketed n close item).Cuts ts S .empty (bracketed n close item') (.all B) :=
  stays_skipNewlines.cuts fun _ => (itemsUntil_cuts hitem close n []).bind fun _ =>
    (stays_expect _).cuts fun _ => cuts_pure (Bound.le_refl _)

theorem parenArgs_cuts (hexpr : expr.Cuts ts S .empty free (Expr.bound u d)) (n : Nat) :
    (parenArgs n expr).Cuts ts S .empty (parenArgs n free) (.all (Expr.bound u d)) :=
  (stays_expect _).cuts fun _ => bracketed_cuts hexpr n _

end

theorem objectField_cuts (hexpr : expr.Cuts ts S .empty free (Expr.bound u d)) :
    (objectField expr).Cuts ts S .empty (objectField free) fun p => Expr.bound u d p.2 := by
  have hkey : objectKey.Stays ts := Yields.gives objectKey_yields fun _ _ _ _ _ => trivial
  exact hkey.cuts fun _ => (stays_expect _).cuts fun _ => stays_skipNewlines.cuts fun _ =>
    hexpr.bind fun _ => cuts_pure (Bound.le_refl _)

/-! ## Calls -/

theorem bareArgs_cuts (hunary : expr.Cuts ts S .empty free (Expr.bound u d)) (n : Nat)
    (read : List Expr) :
    (bareArgs expr n read).Cuts ts S (.all (Expr.bound u d) read.reverse) (bareArgs free n read)
      (.all (Expr.bound u d)) := by
  induction n generalizing read with
  | zero => exact cuts_none (gives_fail _)
  | succ n ih =>
    refine gives_get.cuts fun c _ => cuts_ite (fun _ => ?_) fun _ => cuts_pure (Bound.le_refl _)
    refine (hunary.frame _).bind fun arg => ?_
    rw [Bound.all_next]
    exact (stays_accept _).cuts fun _ => ih (arg :: read)

theorem variableName_next {w : Wanted} {c c' : Cursor} {x : String}
    (h : variableName w c = .ok (x, c')) : c' = c.next ∧ c.here.kind ≠ .eof := by
  obtain ⟨o, c₁, ho, h⟩ := bind_ok.mp h
  replace ho := bind_peek_ok ho
  cases hk : c.here.kind <;> simp only [hk] at ho
  case «variable» | ident =>
    obtain ⟨t, c₂, hadvance, ho⟩ := bind_ok.mp ho
    obtain ⟨-, rfl⟩ := advance_ok.mp hadvance
    obtain ⟨rfl, rfl⟩ := pure_ok.mp ho
    exact ⟨(pure_ok.mp h).2.symm, by simp⟩
  all_goals
    obtain ⟨rfl, rfl⟩ := pure_ok.mp ho
    exact (want_ok.mp h).elim

theorem next_before {c : Cursor} (hc : c.Ended) (hk : c.here.kind ≠ .eof) :
    c.next.before = some c.here := by
  have hreads := Cursor.reads_next hc hk
  cases ha : c.ahead with
  | nil =>
    have hnext : c.next = c := by simp [Cursor.next, ha]
    simp [hnext, Cursor.Reads, Cursor.rest] at hreads
  | cons t rest => simp [Cursor.next, ha]

variable {inner : Inner} {fe fu : Reader Expr}

/-- Expressions of any depth are read in the same way. -/
def Inner.flat (expression unary : Reader Expr) : Inner := ⟨fun _ => expression, fun _ => unary⟩

/-- The arguments of a call right after its word `t`. -/
theorem callTail_cuts
    (he : (inner.expression d).Cuts ts S .empty fe (Expr.bound (uncounted ts) (d + 1)))
    (hu : (inner.unary d).Cuts ts S .empty fu (Expr.bound (uncounted ts) d)) (n : Nat) {t : Token}
    (ht : t.kind = .keyword .call) {c : Cursor} (hc : c.Within ts) (hts : t :: c.rest <:+ ts) :
    CutAt ts S .empty (callTail n inner d) (callTail n (.flat fe fu) 0)
      (fun p => callBound (uncounted ts) d t.pos p.2) c := by
  refine (stays_variableName _ c hc).cuts fun x c₁ hx hc₁ _ => ?_
  obtain ⟨rfl, hk⟩ := variableName_next hx
  have hflush : atFlushParen.Stays ts := gives_get.bind fun _ _ => gives_pure trivial
  refine (hflush _ hc₁).cuts fun b c₂ hb hc₂ _ => ?_
  obtain ⟨hparen, rfl⟩ := atFlushParen_ok.mp hb
  cases b with
  | true =>
    refine (parenArgs_cuts he n).bind (fun args => ?_) _ hc₂
    exact cuts_pure paren_le
  | false =>
    -- no `(` is flush with the name, so this is one of the calls that do not count
    have hbare : (uncounted ts).call t.pos = 0 := by
      have hcall : t :: c.here :: c.next.here :: c.next.ahead <:+ ts := by
        have hrest : c.rest = c.here :: c.next.rest := Cursor.reads_next hc.1 hk
        rwa [hrest] at hts
      refine if_pos (mem_placesWhere hcall (decide_eq_true ⟨ht, ?_⟩))
      rintro ⟨ha, hadjacent⟩
      simp [ha, Cursor.adjacent, next_before hc.1 hk, hadjacent] at hparen
    refine (bareArgs_cuts hu n []).bind (fun args => ?_) _ hc₂
    exact cuts_pure (bare_le hbare)

/-- A call from its word on, whatever it is made into. -/
theorem call_cuts {α : Type} {B : α → Bound} {make : String → List Expr → α}
    (he : (inner.expression d).Cuts ts S .empty fe (Expr.bound (uncounted ts) (d + 1)))
    (hu : (inner.unary d).Cuts ts S .empty fu (Expr.bound (uncounted ts) d)) (n : Nat) {c : Cursor}
    (hc : c.Within ts) (hk : c.here.kind = .keyword .call)
    (hmake : ∀ x args, callBound (uncounted ts) d c.here.pos args ≤ B (make x args)) :
    CutAt ts S .empty
      (do
        let _ ← advance
        let (name, args) ← callTail n inner d
        return make name args)
      (do
        let _ ← advance
        let (name, args) ← callTail n (.flat fe fu) 0
        return make name args) B c := by
  have hreads := Cursor.reads_next hc.1 (by simp [hk])
  have hrest : c.rest = c.here :: c.next.rest := hreads
  refine (stays_advance c hc).cuts fun t c₁ hadvance hc₁ _ => ?_
  obtain ⟨-, rfl⟩ := advance_ok.mp hadvance
  refine (callTail_cuts he hu n hk hc₁ (hrest ▸ hc.2)).bind fun p c₂ hc₂ => ?_
  exact cuts_pure (hmake p.1 p.2) c₂ hc₂

/-! ## Operands -/

theorem bareName_cuts (hd : d ≤ maxNesting)
    (he : (inner.expression d).Cuts ts S .empty fe (Expr.bound u (d + 1))) (n : Nat)
    (pos : Position) (name : String) :
    (bareName n inner d pos name).Cuts ts S .empty (bareName n (.flat fe fu) 0 pos name)
      (Expr.bound u d) := by
  have hflush : atFlushParen.Stays ts := gives_get.bind fun _ _ => gives_pure trivial
  refine hflush.cuts fun _ => cuts_ite (fun _ => ?_) fun _ => ?_
  · refine (parenArgs_cuts he n).bind fun args => (cuts_pure (callBound_le hd name)).of_le paren_le
  · have hbare : (modify fun c => { c with bare := c.bare + 1 } : Reader PUnit).Stays ts :=
      fun c hc => ⟨hc, trivial⟩
    exact hbare.cuts fun _ => cuts_pure (Expr.leaf_le hd rfl)

theorem primary_cuts (hd : d ≤ maxNesting)
    (he : (inner.expression d).Cuts ts S .empty fe (Expr.bound (uncounted ts) (d + 1)))
    (hu : (inner.unary d).Cuts ts S .empty fu (Expr.bound (uncounted ts) d)) (n : Nat) :
    (primary n inner d).Cuts ts S .empty (primary n (.flat fe fu) 0)
      (Expr.bound (uncounted ts) d) := by
  have hatom (e : Expr) (hparts : e.parts .none = []) :
      (do let _ ← advance; return e : Reader Expr).Cuts ts S .empty (do let _ ← advance; return e)
        (Expr.bound (uncounted ts) d) :=
    stays_advance.cuts fun _ => cuts_pure (Expr.leaf_le hd hparts)
  have hparts (e : Expr) := Expr.parts_le (u := uncounted ts) hd e
  intro c hc
  refine (gives_peek c hc).cuts fun t c₁ hpeek _ _ => ?_
  obtain ⟨rfl, rfl⟩ : c.here = t ∧ c = c₁ := by simpa [peek_run] using hpeek
  split
  case h_1 | h_2 | h_3 | h_4 | h_5 | h_6 | h_8 => exact hatom _ rfl c hc
  case h_7 hk => exact call_cuts he hu n hc hk fun x args => callBound_le hd x
  case h_9 => exact stays_advance.cuts (fun _ => bareName_cuts hd he n _ _) c hc
  case h_10 =>
    refine stays_advance.cuts (fun _ => stays_skipNewlines.cuts fun _ => he.bind fun e => ?_) c hc
    refine stays_skipNewlines.cuts fun _ => (stays_expect _).cuts fun _ => cuts_pure ?_
    simpa [Expr.parts] using hparts (.group c.here.pos e)
  case h_11 =>
    refine stays_advance.cuts (fun _ => (bracketed_cuts he n _).bind fun items => cuts_pure ?_) c hc
    simpa [Expr.parts, Bound.all_map] using hparts (.array c.here.pos items)
  case h_12 =>
    refine stays_advance.cuts (fun _ => (bracketed_cuts (objectField_cuts he) n _).bind
      fun fields => cuts_pure ?_) c hc
    simpa [Expr.parts, Bound.all_map] using hparts (.object c.here.pos fields)
  case h_13 => exact cuts_none (gives_unexpected _) c hc

theorem suffixes_cuts (hd : d ≤ maxNesting)
    (hexpr : expr.Cuts ts S .empty free (Expr.bound u (d + 1))) (n : Nat) (e : Expr) :
    (suffixes expr n e).Cuts ts S (Expr.bound u d e) (suffixes free n e) (Expr.bound u d) := by
  induction n generalizing e with
  | zero => exact cuts_none (gives_fail _)
  | succ n ih =>
    refine gives_get.cuts fun c _ => cuts_ite (fun _ => ?_) fun _ => cuts_ite (fun _ => ?_) fun _ =>
      cuts_pure (Bound.le_refl _)
    · refine stays_advance.cuts fun _ => stays_propertyName.cuts fun x => (ih _).of_le ?_
      simpa [Expr.parts] using Expr.parts_le (u := u) hd (.member e.pos e x)
    · refine stays_advance.cuts fun _ => stays_skipNewlines.cuts fun _ =>
        (hexpr.frame _).bind fun i => stays_skipNewlines.cuts fun _ =>
          (stays_expect _).cuts fun _ => (ih _).of_le ?_
      simpa [Expr.parts, Bound.all_cons] using Expr.parts_le (u := u) hd (.index e.pos e i)

/-! ## The grammar without the limit -/

mutual

/-- An expression of any depth. -/
def freeExpression : Nat → Reader Expr
  | 0 => fail .exhausted
  | n + 1 => chains n (unaryWith n (.flat (freeExpression n) (freeUnary n)) 0) operatorLevels

/-- An operand of any depth. -/
def freeUnary : Nat → Reader Expr
  | 0 => fail .exhausted
  | n + 1 => unaryWith n (.flat (freeExpression n) (freeUnary n)) 0

end

/-- The same tokens write an expression of any depth. -/
theorem freeInner_yields (n : Nat) : (Inner.flat (freeExpression n) (freeUnary n)).Yields ts := by
  induction n with
  | zero => exact ⟨fun _ _ => yields_fail _, fun _ _ => yields_fail _⟩
  | succ n ih =>
    refine ⟨fun _ c => ?_, fun _ => unaryWith_yields ih n 0⟩
    exact (chains_yields operatorLevels_leveled (unaryWith_yields ih n 0) c).mono
      fun _ _ _ he => he.toSpelled

/-- The ways to read an inner expression agree up to the limit. -/
structure Inner.Cuts (ts : List Token) (S : Prop) (inner : Inner) (fe fu : Reader Expr) : Prop where
  expression : ∀ d, (inner.expression d).Cuts ts S .empty fe (Expr.bound (uncounted ts) (d + 1))
  unary : ∀ d ≤ maxNesting, (inner.unary d).Cuts ts S .empty fu (Expr.bound (uncounted ts) d)

/-- Everything is too deep beyond the limit. -/
theorem deep_beyond (d : Nat) (hd : maxNesting < d) (e : Expr) : (Expr.bound u d e).deep :=
  Nat.lt_of_lt_of_le hd (Nat.le_add_left _ _)

theorem unaryWith_cuts (hinner : inner.Cuts ts S fe fu) (n : Nat) {d : Nat} (hd : d ≤ maxNesting) :
    (unaryWith n inner d).Cuts ts S .empty (unaryWith n (.flat fe fu) 0)
      (Expr.bound (uncounted ts) d) := by
  refine gives_peek.cuts fun t _ => ?_
  split
  · next op _ =>
    have hnested := nested_cuts hinner.unary deep_beyond .expression d
    refine stays_advance.cuts fun _ => Cuts.bind hnested fun e => cuts_pure ?_
    simpa [Expr.parts] using Expr.parts_le (u := uncounted ts) hd (.unary t.pos op e)
  · exact (primary_cuts hd (hinner.expression d) (hinner.unary d hd) n).bind fun e =>
      suffixes_cuts hd (hinner.expression d) n e

/-- Both ways to read an inner expression, by induction on the bound that they share. -/
theorem inner_cuts (n : Nat) :
    Inner.Cuts ts S ⟨expression n, unary n⟩ (freeExpression n) (freeUnary n) := by
  induction n with
  | zero => exact ⟨fun _ => cuts_none (gives_fail _), fun _ _ => cuts_none (gives_fail _)⟩
  | succ n ih =>
    refine ⟨fun d => ?_, fun d hd => unaryWith_cuts ih n hd⟩
    show (expression (n + 1) d).Cuts ts S _ (freeExpression (n + 1)) _
    rw [expression, freeExpression]
    exact nested_cuts (fun d hd => chains_cuts hd n (unaryWith_cuts ih n hd) operatorLevels)
      deep_beyond .expression d

end Reader

end DeskScript
