import DeskScript.Proofs.Scope.Reach
import DeskScript.Proofs.Value.Rename

/-!
# Sound arenas

What every operation on an arena relies on. `Sound a ladder` says that the scopes
in use hang together: slot 0 has the root, every other scope lies in one that is
there, a function leads to a scope that is there and marked as captured, and the
marks go all the way out. `ladder` has the running scopes, the latest first.
Opening a scope, binding names and keeping scopes leave an arena sound:

    Sound a ladder → a.Captured p ∨ p ∈ ladder →
      Sound (a.child p).2 ((a.child p).1 :: ladder)                       (Sound.child)
-/

namespace DeskScript

namespace Arena

/-- A function was made in the scope or inside it. -/
def Captured (a : Arena) (e : ScopeId) : Prop :=
  ∃ s, a.scope? e = some s ∧ s.captured = true

/-- The scope is kept for an event handler. -/
def Pinned (a : Arena) (e : ScopeId) : Prop :=
  ∃ s, a.scope? e = some s ∧ s.captured = true ∧ s.pinned = true

theorem Pinned.captured {a : Arena} {e : ScopeId} (h : a.Pinned e) : a.Captured e := by
  obtain ⟨s, hs, hc, -⟩ := h
  exact ⟨s, hs, hc⟩

/-- Every running scope lies in a captured one or in one that began before it. -/
def Rungs (a : Arena) : List ScopeId → Prop
  | [] => True
  | e :: l =>
    (∀ s p, a.scope? e = some s → s.parent = some p → a.Captured p ∨ p ∈ l) ∧ Rungs a l

/-- Every scope of `a` is in `b`, at its place and with its marks. -/
def Grows (a b : Arena) : Prop :=
  ∀ x s, a.scope? x = some s → ∃ t, b.scope? x = some t ∧ t.parent = s.parent ∧
    (s.captured = true → t.captured = true) ∧ (s.pinned = true → t.pinned = true)

structure Sound (a : Arena) (ladder : List ScopeId) : Prop where
  tidy : a.Tidy
  root : a.Pinned root
  root_mem : Arena.root ∈ ladder
  /-- Only the root has no scope around it. -/
  top : ∀ e s, a.scope? e = some s → (s.parent = none ↔ e = Arena.root)
  around : ∀ e s, a.scope? e = some s → ∃ l, a.Around e l
  outward : ∀ e s p, a.scope? e = some s → s.captured = true → s.parent = some p → a.Captured p
  /-- A scope that nothing captured is there only while it is running. -/
  running : ∀ e s, a.scope? e = some s → s.captured = false → s.active = true
  functions : ∀ e s, a.scope? e = some s → ∀ b ∈ s.bindings, ∀ f ∈ b.2.scopes, a.Captured f
  active : ∀ e, (∃ s, a.scope? e = some s ∧ s.active = true) ↔ e ∈ ladder
  nodup : ladder.Nodup
  rungs : a.Rungs ladder

/-! ## Growing arenas -/

namespace Grows

variable {a b c : Arena}

theorem refl (a : Arena) : a.Grows a := fun _ s hs => ⟨s, hs, rfl, id, id⟩

theorem trans (h : a.Grows b) (h' : b.Grows c) : a.Grows c := by
  intro x s hs
  obtain ⟨t, ht, hp, hc, hn⟩ := h x s hs
  obtain ⟨u, hu, hp', hc', hn'⟩ := h' x t ht
  exact ⟨u, hu, hp'.trans hp, hc' ∘ hc, hn' ∘ hn⟩

theorem captured (h : a.Grows b) {x : ScopeId} (hx : a.Captured x) : b.Captured x := by
  obtain ⟨s, hs, hc⟩ := hx
  obtain ⟨t, ht, -, hc', -⟩ := h x s hs
  exact ⟨t, ht, hc' hc⟩

theorem pinned (h : a.Grows b) {x : ScopeId} (hx : a.Pinned x) : b.Pinned x := by
  obtain ⟨s, hs, hc, hn⟩ := hx
  obtain ⟨t, ht, -, hc', hn'⟩ := h x s hs
  exact ⟨t, ht, hc' hc, hn' hn⟩

theorem around (h : a.Grows b) {e : ScopeId} {l : List ScopeId} (hl : a.Around e l) :
    b.Around e l :=
  hl.transport fun x _ s hs => by
    obtain ⟨t, ht, hp, -⟩ := h x s hs
    exact ⟨t, ht, hp⟩

end Grows

theorem grows_child {a : Arena} (h : a.Tidy) (p : ScopeId) : a.Grows (a.child p).2 := by
  intro x s hs
  refine ⟨s, ?_, rfl, id, id⟩
  rw [scope?_child h, if_neg, hs]
  rintro rfl
  rw [child_empty h p] at hs
  cases hs

theorem grows_update (a : Arena) (e : ScopeId) (f : Scope → Scope)
    (hf : ∀ s, (f s).parent = s.parent ∧ (s.captured = true → (f s).captured = true) ∧
      (s.pinned = true → (f s).pinned = true)) : a.Grows (a.update e f) := by
  intro x s hs
  rw [scope?_update, hs]
  by_cases hx : x = e
  · exact ⟨f s, by simp [hx], hf s⟩
  · exact ⟨s, by simp [hx], rfl, id, id⟩

/-! ## Ladders -/

theorem Rungs.mono {a b : Arena} {l : List ScopeId} (h : a.Rungs l)
    (hparent : ∀ e ∈ l, ∀ t, b.scope? e = some t →
      ∃ s, a.scope? e = some s ∧ s.parent = t.parent)
    (hcaptured : ∀ e ∈ l, ∀ s p, a.scope? e = some s → s.parent = some p → a.Captured p →
      b.Captured p) : b.Rungs l := by
  induction l with
  | nil => trivial
  | cons e l ih =>
    refine ⟨fun t p ht hp => ?_, ih h.2 (fun x hx => hparent x (List.mem_cons_of_mem _ hx))
      (fun x hx => hcaptured x (List.mem_cons_of_mem _ hx))⟩
    obtain ⟨s, hs, hps⟩ := hparent e List.mem_cons_self t ht
    rcases h.1 s p hs (hps.trans hp) with hc | hm
    · exact Or.inl (hcaptured e List.mem_cons_self s p hs (hps.trans hp) hc)
    · exact Or.inr hm

theorem Rungs.parent {a : Arena} {l : List ScopeId} (h : a.Rungs l) {e p : ScopeId} {s : Scope}
    (he : e ∈ l) (hs : a.scope? e = some s) (hp : s.parent = some p) : a.Captured p ∨ p ∈ l := by
  induction l with
  | nil => cases he
  | cons x l ih =>
    rcases List.mem_cons.mp he with rfl | he
    · rcases h.1 s p hs hp with hc | hm
      · exact Or.inl hc
      · exact Or.inr (List.mem_cons_of_mem _ hm)
    · rcases ih h.2 he with hc | hm
      · exact Or.inl hc
      · exact Or.inr (List.mem_cons_of_mem _ hm)

namespace Sound

variable {a b : Arena} {ladder : List ScopeId}

theorem scope_of_mem (h : a.Sound ladder) {e : ScopeId} (he : e ∈ ladder) :
    ∃ s, a.scope? e = some s := by
  obtain ⟨s, hs, -⟩ := (h.active e).mpr he
  exact ⟨s, hs⟩

/-- A scope that may be opened in: captured, or running. -/
theorem scope_of_open (h : a.Sound ladder) {p : ScopeId} (hp : a.Captured p ∨ p ∈ ladder) :
    ∃ s, a.scope? p = some s := by
  rcases hp with ⟨s, hs, -⟩ | hp
  · exact ⟨s, hs⟩
  · exact h.scope_of_mem hp

/-- The scope around one is there. -/
theorem parent_scope (h : a.Sound ladder) {e p : ScopeId} {s : Scope} (hs : a.scope? e = some s)
    (hp : s.parent = some p) : ∃ t, a.scope? p = some t := by
  obtain ⟨l, hl⟩ := h.around e s hs
  cases hl with
  | last hs' hp' =>
    obtain rfl := Option.some.inj (hs.symm.trans hs')
    rw [hp] at hp'
    cases hp'
  | inside hs' hp' hl =>
    obtain rfl := Option.some.inj (hs.symm.trans hs')
    rw [hp] at hp'
    obtain rfl := Option.some.inj hp'
    exact hl.scope

/-- Everything a scope leads to is there. -/
theorem link_scope (h : a.Sound ladder) {e x : ScopeId} {s : Scope} (hs : a.scope? e = some s)
    (hx : x ∈ s.links) : ∃ t, a.scope? x = some t := by
  rcases List.mem_append.mp hx with hx | hx
  · exact h.parent_scope hs (Option.mem_toList.mp hx)
  · obtain ⟨b, hb, hx⟩ := List.mem_flatMap.mp hx
    obtain ⟨t, ht, -⟩ := h.functions e s hs b hb x hx
    exact ⟨t, ht⟩

/-! ## Opening a scope -/

theorem child (h : a.Sound ladder) {p : ScopeId} (hp : a.Captured p ∨ p ∈ ladder) :
    (a.child p).2.Sound ((a.child p).1 :: ladder) := by
  have hgrows := grows_child h.tidy p
  have hnew := child_empty h.tidy p
  have hscope := scope?_child h.tidy p
  generalize (a.child p).1 = e at hnew hscope ⊢
  have hcases : ∀ {x s}, (a.child p).2.scope? x = some s →
      x = e ∧ s = .opened p ∨ x ≠ e ∧ a.scope? x = some s := by
    intro x s hs
    rw [hscope] at hs
    by_cases hx : x = e
    · rw [if_pos hx] at hs
      exact Or.inl ⟨hx, (Option.some.inj hs).symm⟩
    · rw [if_neg hx] at hs
      exact Or.inr ⟨hx, hs⟩
  have hne : ∀ {x s}, a.scope? x = some s → x ≠ e := by
    rintro x s hs rfl
    rw [hnew] at hs
    cases hs
  have hnotin : e ∉ ladder := by
    intro he
    obtain ⟨s, hs⟩ := h.scope_of_mem he
    exact hne hs rfl
  refine
    { tidy := h.tidy.child p
      root := hgrows.pinned h.root
      root_mem := List.mem_cons_of_mem _ h.root_mem
      top := fun x s hs => ?_
      around := fun x s hs => ?_
      outward := fun x s q hs hc hq => ?_
      running := fun x s hs hc => ?_
      functions := fun x s hs b hb f hf => ?_
      active := fun x => ?_
      nodup := List.nodup_cons.mpr ⟨hnotin, h.nodup⟩
      rungs := ⟨fun s q hs hq => ?_, ?_⟩ }
  · rcases hcases hs with ⟨rfl, rfl⟩ | ⟨hx, hs⟩
    · simp only [Scope.opened, reduceCtorEq, false_iff]
      rintro rfl
      obtain ⟨r, hr, -⟩ := h.root
      exact hne hr rfl
    · exact h.top x s hs
  · rcases hcases hs with ⟨rfl, rfl⟩ | ⟨hx, hs⟩
    · obtain ⟨t, ht⟩ := h.scope_of_open hp
      obtain ⟨l, hl⟩ := h.around p t ht
      exact ⟨_, .inside hs rfl (hgrows.around hl)⟩
    · obtain ⟨l, hl⟩ := h.around x s hs
      exact ⟨l, hgrows.around hl⟩
  · rcases hcases hs with ⟨rfl, rfl⟩ | ⟨hx, hs⟩
    · cases hc
    · exact hgrows.captured (h.outward x s q hs hc hq)
  · rcases hcases hs with ⟨rfl, rfl⟩ | ⟨hx, hs⟩
    · rfl
    · exact h.running x s hs hc
  · rcases hcases hs with ⟨rfl, rfl⟩ | ⟨hx, hs⟩
    · cases hb
    · exact hgrows.captured (h.functions x s hs b hb f hf)
  · constructor
    · rintro ⟨s, hs, ha⟩
      rcases hcases hs with ⟨rfl, rfl⟩ | ⟨hx, hs⟩
      · exact List.mem_cons_self
      · exact List.mem_cons_of_mem _ ((h.active x).mp ⟨s, hs, ha⟩)
    · intro hx
      rcases List.mem_cons.mp hx with rfl | hx
      · exact ⟨.opened p, by rw [hscope, if_pos rfl], rfl⟩
      · obtain ⟨s, hs, ha⟩ := (h.active x).mpr hx
        exact ⟨s, by rw [hscope, if_neg (hne hs), hs], ha⟩
  · rcases hcases hs with ⟨-, rfl⟩ | ⟨hx, -⟩
    · obtain rfl := Option.some.inj hq
      exact hp.imp hgrows.captured id
    · exact absurd rfl hx
  · refine h.rungs.mono (fun x hx t ht => ?_) (fun _ _ _ _ _ _ hc => hgrows.captured hc)
    rcases hcases ht with ⟨rfl, -⟩ | ⟨-, ht⟩
    · exact absurd hx hnotin
    · exact ⟨t, ht, rfl⟩

/-! ## Changing scopes in place -/

/-- An arena whose scopes stay at their places is sound, with those of `rest` running, if the marks
go all the way out and functions lead to captured scopes. -/
theorem reshape (h : a.Sound ladder) {rest : List ScopeId} (hgrows : a.Grows b) (htidy : b.Tidy)
    (hback : ∀ x t, b.scope? x = some t → ∃ s, a.scope? x = some s)
    (houtward : ∀ e s p, b.scope? e = some s → s.captured = true → s.parent = some p →
      b.Captured p)
    (hfunctions : ∀ e s, b.scope? e = some s → ∀ p ∈ s.bindings, ∀ f ∈ p.2.scopes,
      b.Captured f)
    (hrunning : ∀ e s, b.scope? e = some s → s.captured = false → s.active = true)
    (hactive : ∀ e, (∃ s, b.scope? e = some s ∧ s.active = true) ↔ e ∈ rest)
    (hroot_mem : Arena.root ∈ rest) (hnodup : rest.Nodup) (hrungs : a.Rungs rest) :
    b.Sound rest := by
  have hsame : ∀ {x t}, b.scope? x = some t → ∃ s, a.scope? x = some s ∧ t.parent = s.parent := by
    intro x t ht
    obtain ⟨s, hs⟩ := hback x t ht
    obtain ⟨t', ht', hp, -⟩ := hgrows x s hs
    obtain rfl := Option.some.inj (ht.symm.trans ht')
    exact ⟨s, hs, hp⟩
  refine
    { tidy := htidy
      root := hgrows.pinned h.root
      root_mem := hroot_mem
      top := fun x t ht => ?_
      around := fun x t ht => ?_
      outward := houtward
      running := hrunning
      functions := hfunctions
      active := hactive
      nodup := hnodup
      rungs := hrungs.mono (fun x _ t ht => ?_) (fun _ _ _ _ _ _ hc => hgrows.captured hc) }
  · obtain ⟨s, hs, hp⟩ := hsame ht
    rw [hp]
    exact h.top x s hs
  · obtain ⟨s, hs, -⟩ := hsame ht
    obtain ⟨l, hl⟩ := h.around x s hs
    exact ⟨l, hgrows.around hl⟩
  · obtain ⟨s, hs, hp⟩ := hsame ht
    exact ⟨s, hs, hp.symm⟩

/-- The case of `reshape` where the same scopes are running. -/
theorem retouch (h : a.Sound ladder) (hgrows : a.Grows b) (htidy : b.Tidy)
    (hback : ∀ x t, b.scope? x = some t → ∃ s, a.scope? x = some s ∧ t.active = s.active)
    (houtward : ∀ e s p, b.scope? e = some s → s.captured = true → s.parent = some p →
      b.Captured p)
    (hfunctions : ∀ e s, b.scope? e = some s → ∀ p ∈ s.bindings, ∀ f ∈ p.2.scopes,
      b.Captured f) : b.Sound ladder := by
  refine h.reshape hgrows htidy (fun x t ht => (hback x t ht).imp fun _ hs => hs.1) houtward
    hfunctions (fun x t ht hc => ?_) (fun x => ?_) h.root_mem h.nodup h.rungs
  · obtain ⟨s, hs, ha⟩ := hback x t ht
    obtain ⟨t', ht', -, hcap, -⟩ := hgrows x s hs
    obtain rfl := Option.some.inj (ht.symm.trans ht')
    rw [ha]
    apply h.running x s hs
    cases hsc : s.captured with
    | false => rfl
    | true =>
      rw [hcap hsc] at hc
      cases hc
  · rw [← h.active x]
    constructor
    · rintro ⟨t, ht, hta⟩
      obtain ⟨s, hs, ha⟩ := hback x t ht
      exact ⟨s, hs, ha.symm.trans hta⟩
    · rintro ⟨s, hs, hsa⟩
      obtain ⟨t, ht, -⟩ := hgrows x s hs
      obtain ⟨s', hs', ha⟩ := hback x t ht
      obtain rfl := Option.some.inj (hs.symm.trans hs')
      exact ⟨t, ht, ha.trans hsa⟩

end Sound

/-! ## Bindings -/

theorem grows_define (a : Arena) (e : ScopeId) (x : String) (v : Value) :
    a.Grows (a.define e x v) :=
  grows_update a e _ fun _ => ⟨rfl, id, id⟩

theorem Sound.define {a : Arena} {ladder : List ScopeId} (h : a.Sound ladder) (e : ScopeId)
    (x : String) {v : Value} (hv : ∀ f ∈ v.scopes, a.Captured f) :
    (a.define e x v).Sound ladder := by
  have hgrows := grows_define a e x v
  have hback : ∀ {y t}, (a.define e x v).scope? y = some t → ∃ s, a.scope? y = some s ∧
      t.active = s.active ∧ t.captured = s.captured ∧ t.parent = s.parent ∧
      ∀ b ∈ t.bindings, b = (x, v) ∨ b ∈ s.bindings := by
    intro y t ht
    rw [Arena.define, scope?_update] at ht
    split at ht
    · obtain ⟨s, hs, rfl⟩ := Option.map_eq_some_iff.mp ht
      exact ⟨s, hs, rfl, rfl, rfl, fun b hb => Table.mem_put hb⟩
    · exact ⟨t, ht, rfl, rfl, rfl, fun b hb => Or.inr hb⟩
  refine h.retouch hgrows (h.tidy.update _ _) (fun y t ht => ?_) (fun y t p ht hc hp => ?_)
    (fun y t ht b hb f hf => ?_)
  · obtain ⟨s, hs, ha, -⟩ := hback ht
    exact ⟨s, hs, ha⟩
  · obtain ⟨s, hs, -, hsc, hsp, -⟩ := hback ht
    exact hgrows.captured (h.outward y s p hs (hsc.symm.trans hc) (hsp.symm.trans hp))
  · obtain ⟨s, hs, -, -, -, hbs⟩ := hback ht
    apply hgrows.captured
    rcases hbs b hb with rfl | hb
    · exact hv f hf
    · exact h.functions y s hs b hb f hf

/-! ## Capturing -/

theorem Around.parent_mem {a : Arena} {e : ScopeId} {l : List ScopeId} (h : a.Around e l)
    {x p : ScopeId} {s : Scope} (hx : x ∈ l) (hs : a.scope? x = some s) (hp : s.parent = some p) :
    p ∈ l := by
  induction h with
  | last hs' hp' =>
    rw [List.mem_singleton.mp hx, hs'] at hs
    obtain rfl := Option.some.inj hs
    rw [hp'] at hp
    cases hp
  | inside hs' hp' hl ih =>
    rcases List.mem_cons.mp hx with rfl | hx
    · obtain rfl := Option.some.inj (hs'.symm.trans hs)
      rw [hp'] at hp
      obtain rfl := Option.some.inj hp
      exact List.mem_cons_of_mem _ hl.self_mem
    · exact List.mem_cons_of_mem _ (ih hx)

/-- Marks that go all the way out go from every scope to all those around it. -/
theorem Around.pairwise_captured {a : Arena} {e : ScopeId} {l : List ScopeId} (h : a.Around e l)
    (hout : ∀ e s p, a.scope? e = some s → s.captured = true → s.parent = some p →
      a.Captured p) :
    l.Pairwise (fun x y => a.Captured x → a.Captured y) ∧ (a.Captured e → ∀ x ∈ l, a.Captured x) := by
  induction h with
  | @last e s hs hp => simp
  | @inside e p s l hs hp hl ih =>
    have hall : a.Captured e → ∀ x ∈ l, a.Captured x := by
      rintro ⟨t, ht, hc⟩
      obtain rfl := Option.some.inj (hs.symm.trans ht)
      exact ih.2 (hout e s p hs hc hp)
    refine ⟨List.pairwise_cons.mpr ⟨fun x hx hc => hall hc x hx, ih.1⟩, fun hc x hx => ?_⟩
    rcases List.mem_cons.mp hx with rfl | hx
    · exact hc
    · exact hall hc x hx

theorem mark_captured_eq {a : Arena} {x : ScopeId} (h : a.Captured x) :
    (a.scope? x).map (fun s => { s with captured := true }) = a.scope? x := by
  obtain ⟨s, hs, hc⟩ := h
  rw [hs, Option.map_some, ← hc]

/-- Capturing a scope marks it and all scopes around it. The early stop is right because the marks
beyond are there already. -/
theorem scope?_captureFrom {a : Arena} {e : ScopeId} {l : List ScopeId} (n : Nat)
    (hl : a.Around e l) (hn : l.length ≤ n)
    (hpw : l.Pairwise fun x y => a.Captured x → a.Captured y) (x : ScopeId) :
    (captureFrom n e a).scope? x =
      if x ∈ l then (a.scope? x).map (fun s => { s with captured := true }) else a.scope? x := by
  induction n generalizing a e l with
  | zero => cases hl <;> simp at hn
  | succ n ih =>
    obtain ⟨s, hs⟩ := hl.scope
    by_cases hc : s.captured = true
    · have hall : ∀ y ∈ l, a.Captured y := by
        intro y hy
        cases hl with
        | last _ _ => exact List.mem_singleton.mp hy ▸ ⟨s, hs, hc⟩
        | inside _ _ _ =>
          rcases List.mem_cons.mp hy with rfl | hy
          · exact ⟨s, hs, hc⟩
          · exact (List.pairwise_cons.mp hpw).1 y hy ⟨s, hs, hc⟩
      simp only [captureFrom, hs, hc, if_true]
      split
      · next hx => rw [mark_captured_eq (hall x hx)]
      · rfl
    · simp only [captureFrom, hs, hc, Bool.false_eq_true, if_false]
      cases hl with
      | last hs' hp' =>
        obtain rfl := Option.some.inj (hs.symm.trans hs')
        rw [hp', scope?_update]
        simp
      | @inside _ p _ l hs' hp' hl' =>
        obtain rfl := Option.some.inj (hs.symm.trans hs')
        have hnd := (Around.inside hs hp' hl').nodup
        rw [List.nodup_cons] at hnd
        have hne : ∀ y ∈ l, y ≠ e := fun y hy hye => hnd.1 (hye ▸ hy)
        have hsame : ∀ y ∈ l, (a.update e fun s => { s with captured := true }).scope? y =
            a.scope? y := fun y hy => by rw [scope?_update, if_neg (hne y hy)]
        have hcap : ∀ y ∈ l, (a.update e fun s => { s with captured := true }).Captured y ↔
            a.Captured y := fun y hy => by simp only [Captured, hsame y hy]
        have hl'' : (a.update e fun s => { s with captured := true }).Around p l :=
          hl'.transport fun y hy t ht => ⟨t, by rw [hsame y hy, ht], rfl⟩
        have hpw' := (List.pairwise_cons.mp hpw).2.imp_of_mem (S := fun x y =>
            (a.update e fun s => { s with captured := true }).Captured x →
              (a.update e fun s => { s with captured := true }).Captured y)
          fun hy hz h hcy => (hcap _ hz).mpr (h ((hcap _ hy).mp hcy))
        rw [hp']
        show (captureFrom n p _).scope? x = _
        rw [ih hl'' (by simpa using hn) hpw', scope?_update]
        by_cases hx : x = e
        · subst hx
          simp [hnd.1]
        · simp [hx]

theorem captureFrom_slots (n : Nat) (e : ScopeId) (a : Arena) (h : a.Tidy) :
    (captureFrom n e a).Tidy ∧ (captureFrom n e a).keepsAll = a.keepsAll := by
  induction n generalizing a e with
  | zero => exact ⟨h, rfl⟩
  | succ n ih =>
    unfold captureFrom
    split
    · exact ⟨h, rfl⟩
    · split
      · exact ⟨h, rfl⟩
      · have hu := h.update e fun s => { s with captured := true }
        split
        · exact ih _ _ hu
        · exact ⟨hu, rfl⟩

namespace Sound

variable {a b : Arena} {ladder : List ScopeId} {e : ScopeId}

theorem scope?_capture (h : a.Sound ladder) {l : List ScopeId} (hl : a.Around e l) (x : ScopeId) :
    (a.capture e).scope? x =
      if x ∈ l then (a.scope? x).map (fun s => { s with captured := true }) else a.scope? x :=
  scope?_captureFrom _ hl hl.length_le (hl.pairwise_captured h.outward).1 x

theorem grows_capture (h : a.Sound ladder) {s : Scope} (hs : a.scope? e = some s) :
    a.Grows (a.capture e) := by
  obtain ⟨l, hl⟩ := h.around e s hs
  intro x s hs
  rw [h.scope?_capture hl, hs]
  split
  · exact ⟨_, rfl, rfl, fun _ => rfl, id⟩
  · exact ⟨s, rfl, rfl, id, id⟩

theorem captured_capture (h : a.Sound ladder) {s : Scope} (hs : a.scope? e = some s) :
    (a.capture e).Captured e := by
  obtain ⟨l, hl⟩ := h.around e s hs
  exact ⟨_, by rw [h.scope?_capture hl, if_pos hl.self_mem, hs, Option.map_some], rfl⟩

theorem capture (h : a.Sound ladder) {s : Scope} (hs : a.scope? e = some s) :
    (a.capture e).Sound ladder := by
  have hgrows := h.grows_capture hs
  obtain ⟨l, hl⟩ := h.around e s hs
  have hback : ∀ {x t}, (a.capture e).scope? x = some t → ∃ u, a.scope? x = some u ∧
      t.active = u.active ∧ t.parent = u.parent ∧ t.bindings = u.bindings ∧
      (x ∈ l ∨ t.captured = u.captured) := by
    intro x t ht
    rw [h.scope?_capture hl] at ht
    split at ht
    · next hx =>
      obtain ⟨u, hu, rfl⟩ := Option.map_eq_some_iff.mp ht
      exact ⟨u, hu, rfl, rfl, rfl, Or.inl hx⟩
    · exact ⟨t, ht, rfl, rfl, rfl, Or.inr rfl⟩
  refine h.retouch hgrows (captureFrom_slots _ e a h.tidy).1 (fun x t ht => ?_)
    (fun x t p ht hc hp => ?_) (fun x t ht b hb f hf => ?_)
  · obtain ⟨u, hu, ha, -⟩ := hback ht
    exact ⟨u, hu, ha⟩
  · obtain ⟨u, hu, -, hpu, -, hx | hcu⟩ := hback ht
    · have hp' : p ∈ l := hl.parent_mem hx hu (hpu.symm.trans hp)
      obtain ⟨v, hv⟩ := hl.scope_of_mem p hp'
      exact ⟨_, by rw [h.scope?_capture hl, if_pos hp', hv, Option.map_some], rfl⟩
    · exact hgrows.captured (h.outward x u p hu (hcu.symm.trans hc) (hpu.symm.trans hp))
  · obtain ⟨u, hu, -, -, hbu, -⟩ := hback ht
    exact hgrows.captured (h.functions x u hu b (hbu ▸ hb) f hf)

theorem grows_pin (h : a.Sound ladder) {s : Scope} (hs : a.scope? e = some s) :
    a.Grows (a.pin e) :=
  (h.grows_capture hs).trans (grows_update _ e _ fun _ => ⟨rfl, id, fun _ => rfl⟩)

theorem pinned_pin (h : a.Sound ladder) {s : Scope} (hs : a.scope? e = some s) :
    (a.pin e).Pinned e := by
  obtain ⟨t, ht, hc⟩ := h.captured_capture hs
  refine ⟨{ t with pinned := true }, ?_, hc, rfl⟩
  rw [Arena.pin, scope?_update, if_pos rfl, ht, Option.map_some]

theorem pin (h : a.Sound ladder) {s : Scope} (hs : a.scope? e = some s) :
    (a.pin e).Sound ladder := by
  have hcap := h.capture hs
  have hgrows : (a.capture e).Grows (a.pin e) :=
    grows_update _ e _ fun _ => ⟨rfl, id, fun _ => rfl⟩
  have hback : ∀ {x t}, (a.pin e).scope? x = some t → ∃ u, (a.capture e).scope? x = some u ∧
      t.active = u.active ∧ t.parent = u.parent ∧ t.bindings = u.bindings ∧
      t.captured = u.captured := by
    intro x t ht
    rw [Arena.pin, scope?_update] at ht
    split at ht
    · obtain ⟨u, hu, rfl⟩ := Option.map_eq_some_iff.mp ht
      exact ⟨u, hu, rfl, rfl, rfl, rfl⟩
    · exact ⟨t, ht, rfl, rfl, rfl, rfl⟩
  refine hcap.retouch hgrows (hcap.tidy.update _ _) (fun x t ht => ?_)
    (fun x t p ht hc hp => ?_) (fun x t ht b hb f hf => ?_)
  · obtain ⟨u, hu, ha, -⟩ := hback ht
    exact ⟨u, hu, ha⟩
  · obtain ⟨u, hu, -, hpu, -, hcu⟩ := hback ht
    exact hgrows.captured (hcap.outward x u p hu (hcu.symm.trans hc) (hpu.symm.trans hp))
  · obtain ⟨u, hu, -, -, hbu, -⟩ := hback ht
    exact hgrows.captured (hcap.functions x u hu b (hbu ▸ hb) f hf)

end Sound

end Arena

end DeskScript
