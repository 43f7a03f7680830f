import DeskScript.Proofs.Scope.Release

/-!
# Which scopes run

A scope is active while what opened it runs, and loose while no function and no
handler captured it. A scope opened is active and loose; its end stops it, and
empties its slot if it is loose:

    (a.child p).2.Active x ↔ x = (a.child p).1 ∨ a.Active x
    (a.release held e).Active x ↔ x ≠ e ∧ a.Active x
-/

namespace DeskScript

namespace Arena

def There (a : Arena) (e : ScopeId) : Prop := ∃ s, a.scope? e = some s

/-- What opened the scope is running. -/
def Active (a : Arena) (e : ScopeId) : Prop := ∃ s, a.scope? e = some s ∧ s.active = true

/-- The scope is there, and nothing captured it. -/
def Loose (a : Arena) (e : ScopeId) : Prop := ∃ s, a.scope? e = some s ∧ s.captured = false

section
variable {a b c : Arena} {e x : ScopeId}

theorem Active.there (h : a.Active e) : a.There e := h.imp fun _ hs => hs.1

theorem Loose.not_captured (h : a.Loose e) : ¬ a.Captured e := by
  rintro ⟨t, ht, hct⟩
  obtain ⟨s, hs, hcs⟩ := h
  obtain rfl := Option.some.inj (hs.symm.trans ht)
  rw [hcs] at hct
  cases hct

/-! ## Counting -/

theorem live_eq_countP (a : Arena) {n : Nat} (hn : a.slots.size ≤ n) :
    a.live = (List.range n).countP fun x => (a.scope? x).isSome := by
  obtain ⟨d, rfl⟩ := Nat.exists_eq_add_of_le hn
  have hlist : (List.range (a.slots.size + d)).map a.scope? =
      a.slots.toList ++ List.replicate d none := by
    apply List.ext_getElem?
    intro i
    rw [List.getElem?_map, List.getElem?_append, List.getElem?_replicate]
    by_cases hi : i < a.slots.size
    · simp [hi, Nat.lt_add_right d hi, scope?]
    · by_cases hd : i < a.slots.size + d
      · have hlt : i - a.slots.size < d := by omega
        simp [hi, hd, hlt, scope?]
      · have hlt : ¬ i - a.slots.size < d := by omega
        simp [hi, hd, hlt]
  have hcount := congrArg (List.countP Option.isSome) hlist
  rw [List.countP_map, List.countP_append, List.countP_replicate] at hcount
  simp only [Option.isSome_none, Bool.false_eq_true, if_false, Nat.add_zero] at hcount
  rw [live, ← Array.countP_toList, ← hcount]
  rfl

theorem live_le (h : ∀ x, b.There x → a.There x) : b.live ≤ a.live := by
  rw [a.live_eq_countP (Nat.le_max_left _ b.slots.size), b.live_eq_countP (Nat.le_max_right _ _)]
  refine List.countP_mono_left fun x _ hx => ?_
  exact Option.isSome_iff_exists.mpr (h x (Option.isSome_iff_exists.mp hx))

/-! ## Changes that end nothing -/

/-- The same scopes are there and run, and what was captured still is. -/
structure Tightens (a b : Arena) : Prop where
  tidy : a.Tidy → b.Tidy
  keepsAll : b.keepsAll = a.keepsAll
  active : ∀ x, (b.scope? x).map Scope.active = (a.scope? x).map Scope.active
  loose : ∀ x, b.Loose x → a.Loose x

namespace Tightens

theorem refl (a : Arena) : a.Tightens a := ⟨id, rfl, fun _ => rfl, fun _ => id⟩

theorem trans (h : a.Tightens b) (h' : b.Tightens c) : a.Tightens c :=
  ⟨fun ha => h'.tidy (h.tidy ha), h'.keepsAll.trans h.keepsAll,
    fun x => (h'.active x).trans (h.active x), fun x hx => h.loose x (h'.loose x hx)⟩

theorem there_iff (h : a.Tightens b) : b.There x ↔ a.There x := by
  have hx := congrArg Option.isSome (h.active x)
  rw [Option.isSome_map, Option.isSome_map] at hx
  unfold There
  rw [← Option.isSome_iff_exists, ← Option.isSome_iff_exists, hx]

theorem active_iff (h : a.Tightens b) : b.Active x ↔ a.Active x := by
  have hmap : ∀ c : Arena, c.Active x ↔ (c.scope? x).map Scope.active = some true := by
    intro c
    rw [Option.map_eq_some_iff]
    rfl
  rw [hmap, hmap, h.active x]

end Tightens

theorem tightens_update (a : Arena) (e : ScopeId) {f : Scope → Scope}
    (hactive : ∀ s, (f s).active = s.active) (hcaptured : ∀ s, (f s).captured = false →
      s.captured = false) : a.Tightens (a.update e f) := by
  refine ⟨fun ha => ha.update e f, rfl, fun x => ?_, fun x hx => ?_⟩
  · rw [scope?_update]
    split
    · cases a.scope? x <;> simp [hactive]
    · rfl
  · obtain ⟨s, hs, hc⟩ := hx
    rw [scope?_update] at hs
    split at hs
    · obtain ⟨t, ht, rfl⟩ := Option.map_eq_some_iff.mp hs
      exact ⟨t, ht, hcaptured t hc⟩
    · exact ⟨s, hs, hc⟩

theorem tightens_captureFrom (n : Nat) (e : ScopeId) (a : Arena) :
    a.Tightens (captureFrom n e a) := by
  induction n generalizing a e with
  | zero => exact .refl a
  | succ n ih =>
    have hmark : a.Tightens (a.update e fun s => { s with captured := true }) :=
      tightens_update a e (fun _ => rfl) fun _ hc => by cases hc
    unfold captureFrom
    split
    · exact .refl a
    · split
      · exact .refl a
      · split
        · exact hmark.trans (ih _ _)
        · exact hmark

theorem tightens_capture (a : Arena) (e : ScopeId) : a.Tightens (a.capture e) :=
  tightens_captureFrom _ e a

theorem tightens_pin (a : Arena) (e : ScopeId) : a.Tightens (a.pin e) :=
  (tightens_capture a e).trans (tightens_update _ e (fun _ => rfl) fun _ => id)

/-- Nothing but bindings differs. -/
structure Rebinds (a b : Arena) : Prop extends a.Tightens b where
  loosened : ∀ x, a.Loose x → b.Loose x

theorem rebinds_define (a : Arena) (e : ScopeId) (y : String) (v : Value) :
    a.Rebinds (a.define e y v) := by
  refine ⟨tightens_update a e (fun _ => rfl) fun _ => id, fun x hx => ?_⟩
  obtain ⟨s, hs, hc⟩ := hx
  unfold Loose define
  rw [scope?_update, hs]
  split
  · exact ⟨_, rfl, hc⟩
  · exact ⟨s, rfl, hc⟩

theorem rebinds_set (a : Arena) (e : ScopeId) (y : String) (v : Value) : a.Rebinds (a.set e y v) :=
  rebinds_define a _ y v

theorem rebinds_defineAll (a : Arena) (e : ScopeId) (bs : List (String × Value)) :
    a.Rebinds (bs.foldl (fun a (y, v) => a.define e y v) a) := by
  induction bs generalizing a with
  | nil => exact ⟨.refl a, fun _ => id⟩
  | cons p bs ih =>
    have hp := rebinds_define a e p.1 p.2
    have hbs := ih (a.define e p.1 p.2)
    exact ⟨hp.trans hbs.toTightens, fun x hx => hbs.loosened x (hp.loosened x hx)⟩

/-! ## Opening -/

/-- `b` is `a` with a new scope `e`, which is active and loose. -/
structure Opens (a : Arena) (e : ScopeId) (b : Arena) : Prop where
  fresh : ¬ a.There e
  tidy : b.Tidy
  keepsAll : b.keepsAll = a.keepsAll
  there : ∀ x, b.There x ↔ x = e ∨ a.There x
  active : ∀ x, b.Active x ↔ x = e ∨ a.Active x
  loose : ∀ x, b.Loose x ↔ x = e ∨ a.Loose x

theorem opens_child (h : a.Tidy) (p : ScopeId) : a.Opens (a.child p).1 (a.child p).2 where
  fresh := by
    rintro ⟨s, hs⟩
    rw [child_empty h] at hs
    cases hs
  tidy := h.child p
  keepsAll := keepsAll_child a p
  there := fun x => by
    unfold There
    rw [scope?_child h]
    split <;> simp [*]
  active := fun x => by
    unfold Active
    rw [scope?_child h]
    split <;> simp [*, Scope.opened]
  loose := fun x => by
    unfold Loose
    rw [scope?_child h]
    split <;> simp [*, Scope.opened]

theorem Opens.rebinds (h : a.Opens e b) (h' : b.Rebinds c) : a.Opens e c where
  fresh := h.fresh
  tidy := h'.tidy h.tidy
  keepsAll := h'.keepsAll.trans h.keepsAll
  there := fun x => h'.there_iff.trans (h.there x)
  active := fun x => h'.active_iff.trans (h.active x)
  loose := fun x => ⟨fun hx => (h.loose x).mp (h'.loose x hx),
    fun hx => h'.loosened x ((h.loose x).mpr hx)⟩

/-! ## Collecting -/

section
variable (hk : a.keepsAll = false) (held : List ScopeId)

include hk

theorem there_collect : (a.collect held).There x ↔ a.There x ∧ a.Reached held x := by
  constructor
  · rintro ⟨s, hs⟩
    obtain ⟨hs, hreached⟩ := scope?_collect_some hk hs
    exact ⟨⟨s, hs⟩, hreached⟩
  · rintro ⟨⟨s, hs⟩, hreached⟩
    exact ⟨s, by rw [scope?_collect_of_reached hk hreached, hs]⟩

theorem active_collect : (a.collect held).Active x ↔ a.Active x := by
  constructor
  · rintro ⟨s, hs, hactive⟩
    exact ⟨s, (scope?_collect_some hk hs).1, hactive⟩
  · rintro ⟨s, hs, hactive⟩
    have hneeded := List.mem_append_right held (mem_needed hs (Or.inl hactive))
    refine ⟨s, ?_, hactive⟩
    rw [scope?_collect_of_reached hk (.start hneeded (by simp [hs])), hs]

theorem loose_of_collect (h : (a.collect held).Loose x) : a.Loose x := by
  obtain ⟨s, hs, hc⟩ := h
  exact ⟨s, (scope?_collect_some hk hs).1, hc⟩

end

/-! ## Ending -/

/-- `b` is `a` after the end of `e`. -/
structure Closes (a : Arena) (e : ScopeId) (b : Arena) : Prop where
  tidy : b.Tidy
  keepsAll : b.keepsAll = a.keepsAll
  there : ∀ x, b.There x → a.There x
  active : ∀ x, b.Active x ↔ x ≠ e ∧ a.Active x
  loose : ∀ x, b.Loose x → x ≠ e ∧ a.Loose x
  /-- The end of a loose scope touches no other. -/
  vacated : a.Loose e → ∀ x, (b.There x ↔ x ≠ e ∧ a.There x) ∧ (x ≠ e → a.Loose x → b.Loose x)

theorem closes_vacate (h : a.Tidy) (hk : a.keepsAll = false) (e : ScopeId) :
    a.Closes e (a.vacate e) := by
  have hscope : ∀ (P : Scope → Prop) (x : ScopeId),
      (∃ s, (a.vacate e).scope? x = some s ∧ P s) ↔ x ≠ e ∧ ∃ s, a.scope? x = some s ∧ P s := by
    intro P x
    rw [scope?_vacate hk]
    split <;> simp [*]
  have hthere : ∀ x, (a.vacate e).There x ↔ x ≠ e ∧ a.There x := fun x => by
    simpa [There] using hscope (fun _ => True) x
  exact
    { tidy := h.vacate e
      keepsAll := keepsAll_vacate a e
      there := fun x hx => ((hthere x).mp hx).2
      active := hscope _
      loose := fun x => (hscope _ x).mp
      vacated := fun _ x => ⟨hthere x, fun hne hx => (hscope _ x).mpr ⟨hne, hx⟩⟩ }

theorem closes_stop (h : a.Tidy) (hk : a.keepsAll = false) (hc : a.Captured e)
    (held : List ScopeId) :
    a.Closes e ((a.update e fun s => { s with active := false }).collect held) := by
  have hstop : ∀ x t, (a.update e fun s => { s with active := false }).scope? x = some t →
      ∃ s, a.scope? x = some s ∧ t.captured = s.captured ∧
        (t.active = true ↔ x ≠ e ∧ s.active = true) := by
    intro x t ht
    rw [scope?_update] at ht
    split at ht
    · next hx =>
      obtain ⟨s, hs, rfl⟩ := Option.map_eq_some_iff.mp ht
      exact ⟨s, hs, rfl, by simp [hx]⟩
    · next hx => exact ⟨t, ht, rfl, by simp [hx]⟩
  have hk' := (keepsAll_update a e fun s => { s with active := false }).trans hk
  have htidy := h.update e fun s => { s with active := false }
  refine
    { tidy := htidy.collect held
      keepsAll := (keepsAll_collect htidy held).trans rfl
      there := fun x hx => ?_
      active := fun x => (active_collect hk' held).trans ⟨?_, ?_⟩
      loose := fun x hx => ?_
      vacated := fun hloose => absurd hc hloose.not_captured }
  · obtain ⟨t, ht⟩ := ((there_collect hk' held).mp hx).1
    obtain ⟨s, hs, -⟩ := hstop x t ht
    exact ⟨s, hs⟩
  · rintro ⟨t, ht, hactive⟩
    obtain ⟨s, hs, -, hiff⟩ := hstop x t ht
    exact ⟨(hiff.mp hactive).1, s, hs, (hiff.mp hactive).2⟩
  · rintro ⟨hne, s, hs, hactive⟩
    exact ⟨s, by rw [scope?_update, if_neg hne, hs], hactive⟩
  · obtain ⟨t, ht, hct⟩ := loose_of_collect hk' held hx
    obtain ⟨s, hs, heq, -⟩ := hstop x t ht
    have hloose : a.Loose x := ⟨s, hs, heq ▸ hct⟩
    refine ⟨?_, hloose⟩
    rintro rfl
    exact hloose.not_captured hc

theorem closes_release (h : a.Tidy) (hk : a.keepsAll = false) (hne : e ≠ root) (he : a.There e)
    (held : Unit → List ScopeId) : a.Closes e (a.release held e) := by
  obtain ⟨s, hs⟩ := he
  rcases release_cases hs hk hne held with ⟨-, heq⟩ | ⟨hc, heq⟩
  · rw [heq]
    exact closes_vacate h hk e
  · rw [heq]
    exact closes_stop h hk hc (held ())

end

end Arena

end DeskScript
