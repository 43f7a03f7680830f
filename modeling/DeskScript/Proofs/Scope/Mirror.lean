import DeskScript.Proofs.Scope.Release

/-!
# An arena and one that keeps everything

`Mirror ρ a b` says that `b`, which never empties a slot, has every scope of `a`
under the number that `ρ` gives it, with the same names and values and in the same
place. What goes on in `a` can be repeated in `b`: opened scopes get new numbers,
and scopes that `a` gives up merely stay behind in `b`.

    Mirror ρ a b → b.find? (ρ e) x = (a.find? e x).map fun (o, v) => (ρ o, v.rename ρ)
                                                                          (Mirror.find?)
-/

namespace DeskScript

/-- What can be seen of a scope: its names with their values, and the scope around it. -/
def Scope.content (s : Scope) : Table Value × Option ScopeId := (s.bindings, s.parent)

namespace Arena

/-! ## Changes nobody sees -/

/-- The two arenas differ in nothing but the marks on their scopes. -/
structure Relabels (a b : Arena) : Prop where
  slots : ∀ x : ScopeId, (b.slots[x]?).map (Option.map Scope.content) =
    (a.slots[x]?).map (Option.map Scope.content)
  free : b.free = a.free
  keepsAll : b.keepsAll = a.keepsAll

namespace Relabels

variable {a b c : Arena}

theorem refl (a : Arena) : a.Relabels a := ⟨fun _ => rfl, rfl, rfl⟩

theorem trans (h : a.Relabels b) (h' : b.Relabels c) : a.Relabels c :=
  ⟨fun x => (h'.slots x).trans (h.slots x), h'.free.trans h.free, h'.keepsAll.trans h.keepsAll⟩

theorem scope? (h : a.Relabels b) (x : ScopeId) :
    (b.scope? x).map Scope.content = (a.scope? x).map Scope.content := by
  have hx := congrArg Option.join (h.slots x)
  simpa [Arena.scope?, Option.join_map_eq_map_join] using hx

theorem shrinks (h : a.Relabels b) : a.Shrinks b := by
  intro x t ht
  have hx := h.scope? x
  rw [ht, Option.map_some] at hx
  obtain ⟨s, hs, hst⟩ := Option.map_eq_some_iff.mp hx.symm
  simp only [Scope.content, Prod.mk.injEq] at hst
  exact ⟨s, hs, hst.2.symm, hst.1.symm⟩

theorem tidy (h : a.Relabels b) (ha : a.Tidy) : b.Tidy := by
  refine ⟨h.free ▸ ha.nodup, fun e => ?_⟩
  rw [h.free, ha.mem_free]
  have he := h.slots e
  rcases hb : b.slots[e]? with _ | _ | s <;> rcases ha' : a.slots[e]? with _ | _ | t <;> simp_all

end Relabels

theorem relabels_update (a : Arena) (e : ScopeId) (f : Scope → Scope)
    (hf : ∀ s, (f s).content = s.content) : a.Relabels (a.update e f) := by
  refine ⟨fun x => ?_, rfl, rfl⟩
  simp only [update, Array.getElem?_modify]
  split
  · cases a.slots[x]? with
    | none => rfl
    | some o => cases o <;> simp [hf]
  · rfl

theorem relabels_captureFrom (n : Nat) (e : ScopeId) (a : Arena) :
    a.Relabels (captureFrom n e a) := by
  induction n generalizing a e with
  | zero => exact .refl a
  | succ n ih =>
    have hu := relabels_update a e (fun s => { s with captured := true }) fun _ => rfl
    unfold captureFrom
    split
    · exact .refl a
    · split
      · exact .refl a
      · split
        · exact hu.trans (ih _ _)
        · exact hu

theorem relabels_capture (a : Arena) (e : ScopeId) : a.Relabels (a.capture e) :=
  relabels_captureFrom _ e a

theorem relabels_pin (a : Arena) (e : ScopeId) : a.Relabels (a.pin e) :=
  (relabels_capture a e).trans (relabels_update _ e _ fun _ => rfl)

/-- Where everything is kept, it does not matter what is held. -/
theorem release_keeping {a : Arena} (h : a.keepsAll = true) (held held' : Unit → List ScopeId)
    (e : ScopeId) : a.release held e = a.release held' e := by
  have hk := (keepsAll_update a e fun s => { s with active := false }).trans h
  simp only [release, collect_keeping hk]

/-- Where everything is kept, the end of a scope changes nothing but marks. -/
theorem relabels_release {a : Arena} (h : a.keepsAll = true) (held : Unit → List ScopeId)
    (e : ScopeId) : a.Relabels (a.release held e) := by
  have hu := relabels_update a e (fun s => { s with active := false }) fun _ => rfl
  have hk := (keepsAll_update a e fun s => { s with active := false }).trans h
  unfold release
  split
  · exact .refl a
  · split
    · exact .refl a
    · simp only [collect_keeping hk, vacate_keeping hk, ite_self]
      exact hu

/-! ## Names that are found -/

theorem findFrom_get? {a : Arena} {x : String} {n : Nat} {e o : ScopeId} {v : Value}
    (h : a.findFrom x n e = some (o, v)) :
    ∃ s, a.scope? o = some s ∧ Table.get? s.bindings x = some v := by
  induction n generalizing e with
  | zero => cases h
  | succ n ih =>
    unfold findFrom at h
    split at h
    · cases h
    · next s hs =>
      split at h
      · next w hw =>
        obtain ⟨rfl, rfl⟩ := Prod.mk.inj (Option.some.inj h)
        exact ⟨s, hs, hw⟩
      · obtain ⟨p, -, hp⟩ := Option.bind_eq_some_iff.mp h
        exact ih hp

theorem findFrom_some {a : Arena} {x : String} {n : Nat} {e o : ScopeId} {v : Value}
    (h : a.findFrom x n e = some (o, v)) :
    ∃ s, a.scope? o = some s ∧ (x, v) ∈ s.bindings := by
  obtain ⟨s, hs, hx⟩ := findFrom_get? h
  exact ⟨s, hs, Table.mem_of_get? hx⟩

/-! ## Mirrors -/

structure Mirror (ρ : Renaming) (a b : Arena) : Prop where
  tidy : b.Tidy
  keeps : b.keepsAll = true
  /-- No slot was ever emptied. -/
  free : b.free = []
  scope : ∀ e s, a.scope? e = some s → ∃ t, b.scope? (ρ e) = some t ∧
    t.bindings = Table.mapValues (Value.rename ρ) s.bindings ∧ t.parent = s.parent.map ρ
  injective : ∀ e e' s s', a.scope? e = some s → a.scope? e' = some s' → ρ e = ρ e' → e = e'

theorem free_child_keeping {b : Arena} (h : b.free = []) (p : ScopeId) : (b.child p).2.free = [] := by
  simp [child, h]

namespace Mirror

variable {ρ : Renaming} {a b : Arena}

theorem around (h : Mirror ρ a b) {e : ScopeId} {l : List ScopeId} (hl : a.Around e l) :
    b.Around (ρ e) (l.map ρ) := by
  induction hl with
  | last hs hp =>
    obtain ⟨t, ht, -, hpt⟩ := h.scope _ _ hs
    exact .last ht (by rw [hpt, hp, Option.map_none])
  | inside hs hp _ ih =>
    obtain ⟨t, ht, -, hpt⟩ := h.scope _ _ hs
    exact .inside ht (by rw [hpt, hp, Option.map_some]) ih

theorem binding? (h : Mirror ρ a b) {e : ScopeId} {s : Scope} (hs : a.scope? e = some s)
    (x : String) :
    b.binding? x (ρ e) = (a.binding? x e).map fun p => (ρ p.1, p.2.rename ρ) := by
  obtain ⟨t, ht, hbt, -⟩ := h.scope e s hs
  simp only [Arena.binding?, hs, ht, Option.bind_some, hbt, Table.get?_mapValues, Option.map_map]
  rfl

/-- Names mean the same in both arenas. -/
theorem find? (h : Mirror ρ a b) {e : ScopeId} {l : List ScopeId} (hl : a.Around e l)
    (x : String) :
    b.find? (ρ e) x = (a.find? e x).map fun p => (ρ p.1, p.2.rename ρ) := by
  rw [find?_eq hl, find?_eq (h.around hl)]
  have hscope := hl.scope_of_mem
  clear hl
  induction l with
  | nil => rfl
  | cons y l ih =>
    obtain ⟨s, hs⟩ := hscope y List.mem_cons_self
    have ih := ih fun z hz => hscope z (List.mem_cons_of_mem _ hz)
    rw [List.map_cons, List.findSome?_cons, List.findSome?_cons, h.binding? hs, ih]
    cases a.binding? x y <;> rfl

/-- The variables at top level are the same. -/
theorem bindings_root (h : Mirror ρ a b) {r : Scope} (hr : a.scope? Arena.root = some r) :
    b.bindings Arena.root = Table.mapValues (Value.rename ρ) (a.bindings Arena.root) := by
  obtain ⟨t, ht, hbt, -⟩ := h.scope _ r hr
  rw [ρ.apply_root] at ht
  simp [Arena.bindings, hr, ht, hbt]

/-- One arena may lose scopes, and both may get other marks. -/
theorem relabel (h : Mirror ρ a b) {a' b' : Arena} (ha : a.Shrinks a') (hb : b.Relabels b') :
    Mirror ρ a' b' := by
  refine ⟨hb.tidy h.tidy, hb.keepsAll.trans h.keeps, hb.free.trans h.free, fun e s' hs' => ?_,
    fun e e' s' t' hs' ht' => ?_⟩
  · obtain ⟨s, hs, hp, hbs⟩ := ha e s' hs'
    obtain ⟨t, ht, hbt, hpt⟩ := h.scope e s hs
    have hx := hb.scope? (ρ e)
    rw [ht, Option.map_some] at hx
    obtain ⟨t', ht', hc⟩ := Option.map_eq_some_iff.mp hx
    simp only [Scope.content, Prod.mk.injEq] at hc
    exact ⟨t', ht', by rw [hc.1, hbt, hbs], by rw [hc.2, hpt, hp]⟩
  · obtain ⟨s, hs, -⟩ := ha e s' hs'
    obtain ⟨t, ht, -⟩ := ha e' t' ht'
    exact h.injective e e' s t hs ht

theorem define (h : Mirror ρ a b) {e : ScopeId} {s : Scope} (he : a.scope? e = some s) (x : String)
    (v : Value) : Mirror ρ (a.define e x v) (b.define (ρ e) x (v.rename ρ)) := by
  have hback : ∀ {y u}, (a.define e x v).scope? y = some u → ∃ w, a.scope? y = some w ∧
      u = if y = e then { w with bindings := Table.put w.bindings x v } else w := by
    intro y u hu
    rw [Arena.define, scope?_update] at hu
    by_cases hy : y = e
    · rw [if_pos hy] at hu
      obtain ⟨w, hw, rfl⟩ := Option.map_eq_some_iff.mp hu
      exact ⟨w, hw, by rw [if_pos hy]⟩
    · rw [if_neg hy] at hu
      exact ⟨u, hu, by rw [if_neg hy]⟩
  refine ⟨h.tidy.update _ _, h.keeps, h.free, fun y u hu => ?_, fun y z u w hu hw => ?_⟩
  · obtain ⟨w, hw, rfl⟩ := hback hu
    obtain ⟨t, ht, hbt, hpt⟩ := h.scope y w hw
    by_cases hy : y = e
    · subst hy
      refine ⟨{ t with bindings := Table.put t.bindings x (v.rename ρ) }, ?_, ?_, ?_⟩
      · rw [Arena.define, scope?_update, if_pos rfl, ht, Option.map_some]
      · rw [if_pos rfl, hbt, Table.put_mapValues]
      · rw [if_pos rfl, hpt]
    · -- another scope has another number in `b` as well
      have hne : ρ y ≠ ρ e := fun heq => hy (h.injective y e w s hw he heq)
      rw [if_neg hy]
      exact ⟨t, by rw [Arena.define, scope?_update, if_neg hne, ht], hbt, hpt⟩
  · obtain ⟨u', hu', -⟩ := hback hu
    obtain ⟨w', hw', -⟩ := hback hw
    exact h.injective y z u' w' hu' hw'

/-- A scope that is opened in both gets a new number in `b`. -/
theorem child (h : Mirror ρ a b) {ladder : List ScopeId} (ha : a.Sound ladder) {p : ScopeId}
    {q : Scope} (hq : a.scope? p = some q) :
    Mirror (ρ.extend (a.child p).1 (b.child (ρ p)).1) (a.child p).2 (b.child (ρ p)).2 := by
  have hnew := child_empty ha.tidy p
  have hscope := scope?_child ha.tidy p
  have hnew' := child_empty h.tidy (ρ p)
  have hscope' := scope?_child h.tidy (ρ p)
  generalize (a.child p).1 = e at hnew hscope ⊢
  generalize (b.child (ρ p)).1 = e' at hnew' hscope' ⊢
  have hne : ∀ {x s}, a.scope? x = some s → x ≠ e := by
    rintro x s hs rfl
    rw [hnew] at hs
    cases hs
  have hold : ∀ {x s}, a.scope? x = some s → ρ.extend e e' x = ρ x := fun hs =>
    ρ.extend_old e e' (hne hs)
  have hroot : e ≠ Arena.root := by
    obtain ⟨r, hr, -⟩ := ha.root
    exact fun heq => hne hr heq.symm
  -- an old scope has its place in `b`, and that is not the new one
  have holdscope : ∀ {x s}, a.scope? x = some s → ∃ t, b.scope? (ρ x) = some t ∧ ρ x ≠ e' ∧
      t.bindings = Table.mapValues (Value.rename ρ) s.bindings ∧ t.parent = s.parent.map ρ := by
    intro x s hs
    obtain ⟨t, ht, hbt, hpt⟩ := h.scope x s hs
    refine ⟨t, ht, ?_, hbt, hpt⟩
    intro heq
    rw [heq, hnew'] at ht
    cases ht
  refine ⟨h.tidy.child _, (keepsAll_child b _).trans h.keeps, free_child_keeping h.free _,
    fun x s hs => ?_, fun x y s t hs ht heq => ?_⟩
  · rw [hscope] at hs
    by_cases hx : x = e
    · rw [if_pos hx] at hs
      obtain rfl := Option.some.inj hs
      subst hx
      refine ⟨.opened (ρ p), ?_, rfl, ?_⟩
      · rw [ρ.extend_new x e' hroot, hscope', if_pos rfl]
      · simp [Scope.opened, hold hq]
    · rw [if_neg hx] at hs
      obtain ⟨t, ht, hte, hbt, hpt⟩ := holdscope hs
      refine ⟨t, ?_, ?_, ?_⟩
      · rw [hold hs, hscope', if_neg hte, ht]
      · rw [hbt]
        refine List.map_congr_left fun q hq => ?_
        rw [Value.rename_congr q.2 fun f hf => ?_]
        obtain ⟨u, hu, -⟩ := ha.functions x s hs q hq f hf
        exact (hold hu).symm
      · rw [hpt]
        cases hp : s.parent with
        | none => rfl
        | some q =>
          obtain ⟨u, hu⟩ := ha.parent_scope hs hp
          rw [Option.map_some, Option.map_some, hold hu]
  · rw [hscope] at hs ht
    by_cases hx : x = e <;> by_cases hy : y = e
    · exact hx.trans hy.symm
    · rw [if_neg hy] at ht
      obtain ⟨-, -, hte, -⟩ := holdscope ht
      rw [hold ht, hx, ρ.extend_new e e' hroot] at heq
      exact absurd heq.symm hte
    · rw [if_neg hx] at hs
      obtain ⟨-, -, hse, -⟩ := holdscope hs
      rw [hold hs, hy, ρ.extend_new e e' hroot] at heq
      exact absurd heq hse
    · rw [if_neg hx] at hs
      rw [if_neg hy] at ht
      rw [hold hs, hold ht] at heq
      exact h.injective x y s t hs ht heq

end Mirror

end Arena

end DeskScript
