import DeskScript.Proofs.Program.Shape
import Mathlib.Data.Set.Defs

/-!
# Where statements stand

A `break` or `continue` belongs to the nearest loop around it, and the way outwards
ends with the function body, handler body or program that it is in. `sites` has the
statements of a block at any depth, each with whether there is a loop on that way:

    p ∈ b.sites l ↔ ∃ s ∈ b.body, p = (l, s) ∨ ∃ q ∈ s.bodies l, p ∈ q.2.sites q.1     (mem_sites)

A jump at a site without a loop is a stray one. The sites of some blocks also say
which places the code has: those of its statements, and of the nodes of their
expressions.
-/

namespace DeskScript

namespace Stmt

/-- The blocks right inside a statement, each with whether a jump in it has a loop to go to, if
`looped` says so of the statement. -/
def bodies (looped : Bool) : Stmt → List (Bool × Block)
  | block _ b => [(looped, b)]
  | branch _ _ yes no => (looped, yes) :: no.toList.map fun b => (looped, b)
  | attempt _ b _ handler => [(looped, b), (looped, handler)]
  | loop _ _ b | while_ _ _ b | foreach _ _ _ b => [(true, b)]
  | define _ _ _ b | on _ _ b => [(false, b)]
  | _ => []

theorem bodies_blocks (looped : Bool) (s : Stmt) : (s.bodies looped).map (·.2) = s.blocks := by
  cases s <;> simp [bodies, blocks, Function.comp_def]

/-- The places of a statement and of all nodes of its expressions. -/
def places (s : Stmt) : List Position := s.pos :: s.exprs.flatMap fun e => e.nodes.map Expr.pos

end Stmt

namespace Block

/-- The statements of a block at any depth, each with whether a jump there has a loop to go to. -/
def sites (looped : Bool) (b : Block) : List (Bool × Stmt) :=
  b.body.attach.flatMap fun s =>
    (looped, s.1) :: (s.1.bodies looped).attach.flatMap fun c => sites c.1.1 c.1.2
termination_by sizeOf b
decreasing_by
  have h1 := sizeOf_stmt s.2
  have h2 := Stmt.sizeOf_block (s.1.bodies_blocks looped ▸ List.mem_map_of_mem c.2)
  omega

theorem mem_sites {b : Block} {looped : Bool} {p : Bool × Stmt} :
    p ∈ b.sites looped ↔
      ∃ s ∈ b.body, p = (looped, s) ∨ ∃ q ∈ s.bodies looped, p ∈ q.2.sites q.1 := by
  rw [sites]
  simp only [List.mem_flatMap, List.mem_cons, List.mem_attach, true_and, Subtype.exists]
  constructor
  · rintro ⟨s, hs, hp | ⟨q, hq, hp⟩⟩
    · exact ⟨s, hs, .inl hp⟩
    · exact ⟨s, hs, .inr ⟨q, hq, hp⟩⟩
  · rintro ⟨s, hs, hp | ⟨q, hq, hp⟩⟩
    · exact ⟨s, hs, .inl hp⟩
    · exact ⟨s, hs, .inr ⟨q, hq, hp⟩⟩

/-- Induction on a block along the blocks right inside its statements. -/
theorem induction {P : Block → Prop} (h : ∀ b, (∀ s ∈ b.body, ∀ c ∈ s.blocks, P c) → P b)
    (b : Block) : P b :=
  h b fun s _ c _ => induction h c
termination_by sizeOf b
decreasing_by
  have h1 := sizeOf_stmt ‹s ∈ b.body›
  have h2 := Stmt.sizeOf_block ‹c ∈ s.blocks›
  omega

/-- The expressions of a block are those of its statements. -/
theorem exprs_site {b : Block} {e : Expr} (h : e ∈ b.exprs) (looped : Bool) :
    ∃ q ∈ b.sites looped, e ∈ q.2.exprs := by
  induction b using induction generalizing looped with
  | h b ih =>
    obtain ⟨s, hs, he | ⟨c, hc, he⟩⟩ := mem_exprs.mp h
    · exact ⟨(looped, s), mem_sites.mpr ⟨s, hs, .inl rfl⟩, he⟩
    · obtain ⟨p, hp, rfl⟩ := List.mem_map.mp (s.bodies_blocks looped ▸ hc)
      obtain ⟨q, hq, he⟩ := ih s hs p.2 hc he p.1
      exact ⟨q, mem_sites.mpr ⟨s, hs, .inr ⟨p, hp, hq⟩⟩, he⟩

/-- The sites of a body right inside a site are sites. -/
theorem sites_body {b c : Block} {looped : Bool} {q : Bool × Stmt} (hq : q ∈ b.sites looped)
    {l : Bool} (hc : (l, c) ∈ q.2.bodies q.1) : c.sites l ⊆ b.sites looped := by
  induction b using induction generalizing looped with
  | h b ih =>
    obtain ⟨s, hs, rfl | ⟨p, hp, hq⟩⟩ := mem_sites.mp hq
    · exact fun r hr => mem_sites.mpr ⟨s, hs, .inr ⟨(l, c), hc, hr⟩⟩
    · have hblock : p.2 ∈ s.blocks := s.bodies_blocks looped ▸ List.mem_map_of_mem hp
      exact fun r hr => mem_sites.mpr ⟨s, hs, .inr ⟨p, hp, ih s hs p.2 hblock hq hr⟩⟩

/-- What stands in a body right inside a site is a site. -/
theorem sites_inside {b : Block} {looped l : Bool} {s : Stmt} (h : (l, s) ∈ b.sites looped)
    {q : Bool × Block} (hq : q ∈ s.bodies l) {s' : Stmt} (hs' : s' ∈ q.2.body) :
    (q.1, s') ∈ b.sites looped :=
  sites_body h hq (mem_sites.mpr ⟨s', hs', .inl rfl⟩)

end Block

/-! ## Code -/

/-- The sites of some code: of programs and of bodies of functions. -/
def sitesOf (code : Set Block) : Set (Bool × Stmt) := {p | ∃ b ∈ code, p ∈ b.sites false}

/-- All places of some code. -/
def placesOf (code : Set Block) : Set Position := {pos | ∃ p ∈ sitesOf code, pos ∈ p.2.places}

section
variable {code : Set Block} {l : Bool} {s : Stmt}

theorem pos_mem_places (h : (l, s) ∈ sitesOf code) : s.pos ∈ placesOf code :=
  ⟨_, h, List.mem_cons_self⟩

/-- The statements of a body stand in the code, with a loop to go to or without one. -/
def BodyOf (code : Set Block) (looped : Bool) (body : List Stmt) : Prop :=
  ∀ s ∈ body, (looped, s) ∈ sitesOf code

theorem BodyOf.site {body : List Stmt} (h : BodyOf code l (s :: body)) : (l, s) ∈ sitesOf code :=
  h s List.mem_cons_self

theorem BodyOf.tail {body : List Stmt} (h : BodyOf code l (s :: body)) : BodyOf code l body :=
  fun x hx => h x (List.mem_cons_of_mem _ hx)

theorem bodyOf_of_mem {b : Block} (h : b ∈ code) : BodyOf code false b.body :=
  fun s hs => ⟨b, h, Block.mem_sites.mpr ⟨s, hs, .inl rfl⟩⟩

theorem bodyOf_inside (h : (l, s) ∈ sitesOf code) {q : Bool × Block} (hq : q ∈ s.bodies l) :
    BodyOf code q.1 q.2.body := by
  intro s' hs'
  obtain ⟨b, hb, hsite⟩ := h
  exact ⟨b, hb, Block.sites_inside hsite hq hs'⟩

end

/-! ## Expressions in code -/

namespace Expr

/-- All nodes of an expression have places in `S`. -/
def StartsIn (S : Set Position) (e : Expr) : Prop := ∀ n ∈ e.nodes, n.pos ∈ S

section
variable {S : Set Position}

theorem startsIn_iff {e : Expr} :
    e.StartsIn S ↔ e.pos ∈ S ∧ ∀ x ∈ e.children, x.StartsIn S := by
  unfold StartsIn
  rw [nodes_eq, List.forall_mem_cons]
  refine and_congr_right fun _ => ⟨fun h x hx n hn => ?_, fun h n hn => ?_⟩
  · exact h n (List.mem_flatMap.mpr ⟨x, hx, hn⟩)
  · obtain ⟨x, hx, hn⟩ := List.mem_flatMap.mp hn
    exact h x hx n hn

theorem StartsIn.pos {e : Expr} (h : e.StartsIn S) : e.pos ∈ S := (startsIn_iff.mp h).1

theorem StartsIn.child {e x : Expr} (h : e.StartsIn S) (hx : x ∈ e.children) : x.StartsIn S :=
  (startsIn_iff.mp h).2 x hx

end

/-- All nodes of an expression have places in the code. -/
abbrev PartOf (code : Set Block) (e : Expr) : Prop := e.StartsIn (placesOf code)

theorem partOf_site {code : Set Block} {l : Bool} {s : Stmt} (h : (l, s) ∈ sitesOf code) {e : Expr}
    (he : e ∈ s.exprs) : e.PartOf code := by
  intro n hn
  refine ⟨_, h, List.mem_cons_of_mem _ ?_⟩
  exact List.mem_flatMap.mpr ⟨e, he, List.mem_map_of_mem hn⟩

end Expr

end DeskScript
