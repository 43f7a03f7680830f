import DeskScript.Proofs.Scope.Mirror
import DeskScript.Proofs.Scope.Running

/-!
# Scopes kept for handlers

Nothing but `pin` keeps a scope for good, and nothing gives up a scope that is kept so.
What else can happen to an arena leaves its pins alone:

    a.Tidy → a.SamePins (a.child p).2                             (samePins_child)
    a.SamePins (a.release held e)                                 (samePins_release)
-/

namespace DeskScript

namespace Arena

/-- The pinned scopes of `a` are still pinned in `b`, which has no others. -/
structure SamePins (a b : Arena) : Prop where
  old : ∀ x t, b.scope? x = some t → t.pinned = true → ∃ s, a.scope? x = some s ∧ s.pinned = true
  kept : ∀ x, a.Pinned x → b.Pinned x

section
variable {a b c : Arena} {e : ScopeId}

theorem SamePins.refl (a : Arena) : a.SamePins a := ⟨fun _ t ht hp => ⟨t, ht, hp⟩, fun _ => id⟩

theorem SamePins.trans (h : a.SamePins b) (h' : b.SamePins c) : a.SamePins c := by
  refine ⟨fun x u hu hp => ?_, fun x hx => h'.kept x (h.kept x hx)⟩
  obtain ⟨t, ht, hpt⟩ := h'.old x u hu hp
  exact h.old x t ht hpt

theorem samePins_update (a : Arena) (e : ScopeId) {f : Scope → Scope}
    (hcaptured : ∀ s, s.captured = true → (f s).captured = true)
    (hpinned : ∀ s, (f s).pinned = s.pinned) : a.SamePins (a.update e f) := by
  refine ⟨fun x t ht hp => ?_, fun x hx => ?_⟩
  · rw [scope?_update] at ht
    split at ht
    · obtain ⟨s, hs, rfl⟩ := Option.map_eq_some_iff.mp ht
      exact ⟨s, hs, hpinned s ▸ hp⟩
    · exact ⟨t, ht, hp⟩
  · obtain ⟨s, hs, hc, hp⟩ := hx
    unfold Pinned
    rw [scope?_update, hs]
    split
    · exact ⟨f s, rfl, hcaptured s hc, (hpinned s).trans hp⟩
    · exact ⟨s, rfl, hc, hp⟩

theorem samePins_define (a : Arena) (e : ScopeId) (y : String) (v : Value) :
    a.SamePins (a.define e y v) :=
  samePins_update a e (fun _ => id) fun _ => rfl

theorem samePins_defineAll (a : Arena) (e : ScopeId) (bs : List (String × Value)) :
    a.SamePins (bs.foldl (fun a (y, v) => a.define e y v) a) := by
  induction bs generalizing a with
  | nil => exact .refl a
  | cons p bs ih => exact (samePins_define a e p.1 p.2).trans (ih _)

theorem samePins_captureFrom (n : Nat) (e : ScopeId) (a : Arena) :
    a.SamePins (captureFrom n e a) := by
  induction n generalizing a e with
  | zero => exact .refl a
  | succ n ih =>
    have hmark : a.SamePins (a.update e fun s => { s with captured := true }) :=
      samePins_update a e (fun _ _ => rfl) fun _ => rfl
    unfold captureFrom
    split
    · exact .refl a
    · split
      · exact .refl a
      · split
        · exact hmark.trans (ih _ _)
        · exact hmark

theorem samePins_child (h : a.Tidy) (p : ScopeId) : a.SamePins (a.child p).2 := by
  refine ⟨fun x t ht hp => ?_, fun x => (grows_child h p).pinned⟩
  rw [scope?_child h] at ht
  split at ht
  · rw [← Option.some.inj ht] at hp
    cases hp
  · exact ⟨t, ht, hp⟩

theorem samePins_collect (hk : a.keepsAll = false) (held : List ScopeId) :
    a.SamePins (a.collect held) := by
  refine ⟨fun x t ht hp => ⟨t, (scope?_collect_some hk ht).1, hp⟩, fun x hx => ?_⟩
  obtain ⟨s, hs, hc, hp⟩ := hx
  have hreached : a.Reached held x :=
    .start (List.mem_append_right held (mem_needed hs (Or.inr hp))) (by simp [hs])
  exact ⟨s, (scope?_collect_of_reached hk hreached).trans hs, hc, hp⟩

/-- A scope that is given up at its end was not captured, so no handler is in it. -/
theorem samePins_release (hk : a.keepsAll = false) (he : e ≠ root) (held : Unit → List ScopeId) :
    a.SamePins (a.release held e) := by
  cases hs : a.scope? e with
  | none =>
    have hsame : a.release held e = a := by rw [release, if_neg he, hs]
    rw [hsame]
    exact .refl a
  | some s =>
    rcases release_cases hs hk he held with ⟨hc, heq⟩ | ⟨hc, heq⟩
    · rw [heq]
      refine ⟨fun x t ht hp => ?_, fun x hx => ?_⟩
      · rw [scope?_vacate hk] at ht
        split at ht
        · cases ht
        · exact ⟨t, ht, hp⟩
      · obtain ⟨t, ht, hct, hp⟩ := hx
        refine ⟨t, ?_, hct, hp⟩
        rw [scope?_vacate hk, if_neg, ht]
        rintro rfl
        exact hc ⟨t, ht, hct⟩
    · rw [heq]
      have hstop : a.SamePins (a.update e fun s => { s with active := false }) :=
        samePins_update a e (fun _ => id) fun _ => rfl
      exact hstop.trans (samePins_collect ((keepsAll_update a e _).trans hk) (held ()))

/-! ## Pinning -/

theorem Tightens.captured (h : a.Tightens b) (hc : a.Captured e) : b.Captured e := by
  obtain ⟨s, hs, hcs⟩ := hc
  obtain ⟨t, ht⟩ := h.there_iff.mpr ⟨s, hs⟩
  refine ⟨t, ht, Bool.of_not_eq_false fun hloose => ?_⟩
  exact (h.loose e ⟨t, ht, hloose⟩).not_captured ⟨s, hs, hcs⟩

theorem captured_capture (h : a.There e) : (a.capture e).Captured e := by
  obtain ⟨s, hs⟩ := h
  obtain ⟨n, hn⟩ := Nat.exists_eq_succ_of_ne_zero (Nat.ne_zero_of_lt (lt_size_of_scope? hs))
  unfold capture
  rw [hn]
  simp only [captureFrom, hs]
  split
  · exact ⟨s, hs, ‹_›⟩
  · have hmarked : (a.update e fun s => { s with captured := true }).Captured e :=
      ⟨{ s with captured := true }, by rw [scope?_update, if_pos rfl, hs, Option.map_some], rfl⟩
    split
    · exact (tightens_captureFrom n _ _).captured hmarked
    · exact hmarked

theorem pinned_pin_self (h : a.There e) : (a.pin e).Pinned e := by
  obtain ⟨s, hs, hc⟩ := captured_capture h
  exact ⟨{ s with pinned := true }, by rw [pin, scope?_update, if_pos rfl, hs, Option.map_some],
    hc, rfl⟩

theorem Pinned.pin {x : ScopeId} (h : a.Pinned x) (e : ScopeId) : (a.pin e).Pinned x := by
  have hgrows : (a.capture e).Grows (a.pin e) :=
    grows_update _ e _ fun _ => ⟨rfl, id, fun _ => rfl⟩
  exact hgrows.pinned ((samePins_captureFrom _ e a).kept x h)

/-- The only new pin is the scope itself. -/
theorem pinned_of_pin {x : ScopeId} {t : Scope} (ht : (a.pin e).scope? x = some t)
    (hp : t.pinned = true) : x = e ∨ ∃ s, a.scope? x = some s ∧ s.pinned = true := by
  unfold pin at ht
  rw [scope?_update] at ht
  split at ht
  · exact Or.inl ‹_›
  · exact Or.inr ((samePins_captureFrom _ e a).old x t ht hp)

end

end Arena

end DeskScript
