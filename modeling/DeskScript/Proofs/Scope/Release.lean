import DeskScript.Proofs.Scope.Sound

/-!
# Ending a scope in a sound arena

The latest running scope may end: uncaptured it goes at once, since nothing leads
to it, and captured it goes with the next collection that does not reach it. The
arena stays sound, and what is held, pinned or running is still there:

    Sound a (e :: ladder) → Sound (a.release held e) ladder               (Sound.release)
-/

namespace DeskScript

namespace Arena

/-- Every scope of `b` is in `a`, at its place and with its bindings. -/
def Shrinks (a b : Arena) : Prop :=
  ∀ x t, b.scope? x = some t →
    ∃ s, a.scope? x = some s ∧ t.parent = s.parent ∧ t.bindings = s.bindings

/-- What a scope that stops running leaves as it was. -/
theorem grows_stop (a : Arena) (e : ScopeId) :
    a.Grows (a.update e fun s => { s with active := false }) :=
  grows_update a e _ fun _ => ⟨rfl, id, id⟩

namespace Sound

variable {a b : Arena} {ladder : List ScopeId} {e : ScopeId}

/-! ## Dropping scopes -/

/-- Dropping scopes that no remaining scope leads to leaves an arena sound. -/
theorem restrict (h : a.Sound ladder) {rest : List ScopeId} (htidy : b.Tidy)
    (hsub : ∀ x s, b.scope? x = some s → a.scope? x = some s)
    (hlinks : ∀ x s y, b.scope? x = some s → y ∈ s.links → b.scope? y = a.scope? y)
    (hroot : b.scope? Arena.root = a.scope? Arena.root) (hroot_mem : Arena.root ∈ rest)
    (hactive : ∀ e, (∃ s, b.scope? e = some s ∧ s.active = true) ↔ e ∈ rest)
    (hnodup : rest.Nodup) (hrungs : a.Rungs rest) : b.Sound rest := by
  have hparent : ∀ {x s p}, b.scope? x = some s → s.parent = some p →
      b.scope? p = a.scope? p := by
    intro x s p hs hp
    exact hlinks x s p hs (List.mem_append_left _ (Option.mem_toList.mpr hp))
  have hcap : ∀ {x s y}, b.scope? x = some s → y ∈ s.links → a.Captured y → b.Captured y := by
    rintro x s y hs hy ⟨t, ht, hc⟩
    exact ⟨t, (hlinks x s y hs hy).trans ht, hc⟩
  obtain ⟨r, hr, hrc, hrp⟩ := h.root
  refine
    { tidy := htidy
      root := ⟨r, hroot.trans hr, hrc, hrp⟩
      root_mem := hroot_mem
      top := fun x s hs => h.top x s (hsub x s hs)
      around := fun x s hs => ?_
      outward := fun x s p hs hc hp => ?_
      running := fun x s hs hc => h.running x s (hsub x s hs) hc
      functions := fun x s hs b hb f hf => ?_
      active := hactive
      nodup := hnodup
      rungs := hrungs.mono (fun x _ t ht => ⟨t, hsub x t ht, rfl⟩) (fun x hx s p hs hp hc => ?_) }
  · obtain ⟨l, hl⟩ := h.around x s (hsub x s hs)
    -- every scope on the way outwards is linked from the one before it
    refine ⟨l, ?_⟩
    clear hroot hr
    induction hl generalizing s with
    | last hs' hp => exact .last ((hs.trans (hsub _ _ hs ▸ hs'))) hp
    | @inside y p u l hu hp _ ih =>
      have hs' := hsub y s hs
      obtain rfl := Option.some.inj (hs'.symm.trans hu)
      obtain ⟨t, ht⟩ := h.parent_scope hs' hp
      exact .inside hs hp (ih t ((hparent hs hp).trans ht))
  · exact hcap hs (List.mem_append_left _ (Option.mem_toList.mpr hp))
      (h.outward x s p (hsub x s hs) hc hp)
  · refine hcap hs (List.mem_append_right _ (List.mem_flatMap.mpr ⟨b, hb, hf⟩)) ?_
    exact h.functions x s (hsub x s hs) b hb f hf
  · obtain ⟨t, ht, -⟩ := (hactive x).mpr hx
    obtain rfl := Option.some.inj ((hsub x t ht).symm.trans hs)
    exact hcap ht (List.mem_append_left _ (Option.mem_toList.mpr hp)) hc

theorem collect (h : a.Sound ladder) (hk : a.keepsAll = false) (held : List ScopeId) :
    (a.collect held).Sound ladder := by
  have hneeded : ∀ {x s}, a.scope? x = some s → s.active = true ∨ s.pinned = true →
      (a.collect held).scope? x = a.scope? x := by
    intro x s hs hn
    apply scope?_collect_of_reached hk
    exact .start (List.mem_append_right _ (mem_needed hs hn)) (by simp [hs])
  refine h.restrict (h.tidy.collect held) (fun x s hs => (scope?_collect_some hk hs).1)
    (fun x s y hs hy => ?_) ?_ h.root_mem (fun e => ?_) h.nodup h.rungs
  · obtain ⟨hs, hreached⟩ := scope?_collect_some hk hs
    obtain ⟨t, ht⟩ := h.link_scope hs hy
    exact scope?_collect_of_reached hk (.link hreached hs hy (by simp [ht]))
  · obtain ⟨r, hr, -, hp⟩ := h.root
    exact hneeded hr (Or.inr hp)
  · rw [← h.active e]
    constructor
    · rintro ⟨s, hs, ha⟩
      exact ⟨s, (scope?_collect_some hk hs).1, ha⟩
    · rintro ⟨s, hs, ha⟩
      exact ⟨s, (hneeded hs (Or.inl ha)).trans hs, ha⟩

/-- A running scope that was captured may stop running. -/
theorem stop (h : a.Sound (e :: ladder)) (hroot : Arena.root ∈ ladder) (he : a.Captured e) :
    (a.update e fun s => { s with active := false }).Sound ladder := by
  have hgrows := grows_stop a e
  have hback : ∀ {x t}, (a.update e fun s => { s with active := false }).scope? x = some t →
      ∃ s, a.scope? x = some s ∧ t.parent = s.parent ∧ t.bindings = s.bindings ∧
        t.captured = s.captured ∧ (x = e ∧ t.active = false ∨ x ≠ e ∧ t.active = s.active) := by
    intro x t ht
    rw [scope?_update] at ht
    split at ht
    · next hx =>
      obtain ⟨s, hs, rfl⟩ := Option.map_eq_some_iff.mp ht
      exact ⟨s, hs, rfl, rfl, rfl, Or.inl ⟨hx, rfl⟩⟩
    · next hx => exact ⟨t, ht, rfl, rfl, rfl, Or.inr ⟨hx, rfl⟩⟩
  have hnd := List.nodup_cons.mp h.nodup
  refine h.reshape hgrows (h.tidy.update _ _) (fun x t ht => (hback ht).imp fun _ hs => hs.1)
    (fun x t p ht hc hp => ?_) (fun x t ht b hb f hf => ?_) (fun x t ht hc => ?_) (fun x => ?_)
    hroot hnd.2 h.rungs.2
  · obtain ⟨s, hs, hps, -, hcs, -⟩ := hback ht
    exact hgrows.captured (h.outward x s p hs (hcs.symm.trans hc) (hps.symm.trans hp))
  · obtain ⟨s, hs, -, hbs, -⟩ := hback ht
    exact hgrows.captured (h.functions x s hs b (hbs ▸ hb) f hf)
  · obtain ⟨s, hs, -, -, hcs, ⟨rfl, -⟩ | ⟨-, ha⟩⟩ := hback ht
    · obtain ⟨s', hs', hc'⟩ := he
      obtain rfl := Option.some.inj (hs.symm.trans hs')
      rw [hcs, hc'] at hc
      cases hc
    · rw [ha]
      exact h.running x s hs (hcs.symm.trans hc)
  · constructor
    · rintro ⟨t, ht, hta⟩
      obtain ⟨s, hs, -, -, -, ⟨-, ha⟩ | ⟨hx, ha⟩⟩ := hback ht
      · rw [ha] at hta
        cases hta
      · have := (h.active x).mp ⟨s, hs, ha.symm.trans hta⟩
        exact (List.mem_cons.mp this).resolve_left hx
    · intro hx
      obtain ⟨s, hs, ha⟩ := (h.active x).mpr (List.mem_cons_of_mem _ hx)
      have hne : x ≠ e := fun hxe => hnd.1 (hxe ▸ hx)
      exact ⟨s, by rw [scope?_update, if_neg hne, hs], ha⟩

/-- Nothing leads to a running scope that was not captured, once it is the latest one. -/
theorem link_ne (h : a.Sound (e :: ladder)) (he : ¬ a.Captured e) {x y : ScopeId} {s : Scope}
    (hx : x ≠ e) (hs : a.scope? x = some s) (hy : y ∈ s.links) : y ≠ e := by
  rintro rfl
  rcases List.mem_append.mp hy with hy | hy
  · have hp := Option.mem_toList.mp hy
    cases hc : s.captured with
    | true => exact he (h.outward x s y hs hc hp)
    | false =>
      -- then `x` is running as well, and began before `e`
      have hmem := (h.active x).mp ⟨s, hs, h.running x s hs hc⟩
      have hmem' := (List.mem_cons.mp hmem).resolve_left hx
      rcases h.rungs.2.parent hmem' hs hp with hcap | hin
      · exact he hcap
      · exact (List.nodup_cons.mp h.nodup).1 hin
  · obtain ⟨b, hb, hf⟩ := List.mem_flatMap.mp hy
    exact he (h.functions x s hs b hb y hf)

/-- A running scope that was not captured may go as soon as it ends. -/
theorem vacate (h : a.Sound (e :: ladder)) (hk : a.keepsAll = false)
    (hroot : Arena.root ∈ ladder) (he : ¬ a.Captured e) : (a.vacate e).Sound ladder := by
  have hscope := scope?_vacate hk e
  have hnd := List.nodup_cons.mp h.nodup
  have hsub : ∀ {x s}, (a.vacate e).scope? x = some s → x ≠ e ∧ a.scope? x = some s := by
    intro x s hs
    rw [hscope] at hs
    split at hs
    · cases hs
    · next hx => exact ⟨hx, hs⟩
  refine h.restrict (h.tidy.vacate e) (fun x s hs => (hsub hs).2) (fun x s y hs hy => ?_) ?_ hroot
    (fun x => ?_) hnd.2 h.rungs.2
  · obtain ⟨hx, hs⟩ := hsub hs
    rw [hscope, if_neg (h.link_ne he hx hs hy)]
  · rw [hscope, if_neg]
    exact fun hre => hnd.1 (hre ▸ hroot)
  · constructor
    · rintro ⟨s, hs, ha⟩
      obtain ⟨hx, hs⟩ := hsub hs
      exact (List.mem_cons.mp ((h.active x).mp ⟨s, hs, ha⟩)).resolve_left hx
    · intro hx
      obtain ⟨s, hs, ha⟩ := (h.active x).mpr (List.mem_cons_of_mem _ hx)
      have hne : x ≠ e := fun hxe => hnd.1 (hxe ▸ hx)
      exact ⟨s, by rw [hscope, if_neg hne, hs], ha⟩

end Sound

/-! ## What a collection leaves -/

section
variable {a : Arena} (hk : a.keepsAll = false) (held : List ScopeId)

include hk

theorem shrinks_collect : a.Shrinks (a.collect held) := by
  intro x t ht
  exact ⟨t, (scope?_collect_some hk ht).1, rfl, rfl⟩

theorem pinned_collect {x : ScopeId} (hx : a.Pinned x) : (a.collect held).Pinned x := by
  obtain ⟨s, hs, hc, hp⟩ := hx
  refine ⟨s, ?_, hc, hp⟩
  rw [scope?_collect_of_reached hk, hs]
  exact .start (List.mem_append_right _ (mem_needed hs (Or.inr hp))) (by simp [hs])

theorem captured_collect {x : ScopeId} (hx : a.Captured x) (hheld : x ∈ held) :
    (a.collect held).Captured x := by
  obtain ⟨s, hs, hc⟩ := hx
  refine ⟨s, ?_, hc⟩
  rw [scope?_collect_of_reached hk, hs]
  exact .start (List.mem_append_left _ hheld) (by simp [hs])

end

/-! ## What the end of a scope leaves -/

theorem vacate_update {a : Arena} {e : ScopeId} {s : Scope} (hs : a.scope? e = some s)
    (hk : a.keepsAll = false) (f : Scope → Scope) : (a.update e f).vacate e = a.vacate e := by
  have hs' : (a.update e f).scope? e = some (f s) := by
    rw [scope?_update, if_pos rfl, hs, Option.map_some]
  simp only [vacate, hs, hs', keepsAll_update, hk, Option.isSome_some, Bool.not_false,
    Bool.and_self, if_true, free_update]
  congr 1
  apply Array.ext_getElem?
  intro i
  simp only [update, Array.getElem?_setIfInBounds, Array.getElem?_modify, Array.size_modify]
  split <;> rfl

/-- The end of a running scope: it goes at once, or stops and leaves the rest to a collection. -/
theorem release_cases {a : Arena} {e : ScopeId} {s : Scope} (hs : a.scope? e = some s)
    (hk : a.keepsAll = false) (hne : e ≠ root) (held : Unit → List ScopeId) :
    (¬ a.Captured e ∧ a.release held e = a.vacate e) ∨
    (a.Captured e ∧ a.release held e =
      (a.update e fun s => { s with active := false }).collect (held ())) := by
  unfold release
  rw [if_neg hne, hs]
  by_cases hc : s.captured = true
  · exact Or.inr ⟨⟨s, hs, hc⟩, by simp [hc]⟩
  · refine Or.inl ⟨?_, ?_⟩
    · rintro ⟨t, ht, htc⟩
      obtain rfl := Option.some.inj (hs.symm.trans ht)
      exact hc htc
    · simp [hc, vacate_update hs hk]

theorem shrinks_stop (a : Arena) (e : ScopeId) :
    a.Shrinks (a.update e fun s => { s with active := false }) := by
  intro x t ht
  rw [scope?_update] at ht
  split at ht
  · obtain ⟨u, hu, rfl⟩ := Option.map_eq_some_iff.mp ht
    exact ⟨u, hu, rfl, rfl⟩
  · exact ⟨t, ht, rfl, rfl⟩

theorem shrinks_release {a : Arena} (hk : a.keepsAll = false) (held : Unit → List ScopeId)
    (e : ScopeId) : a.Shrinks (a.release held e) := by
  have hk' := (keepsAll_update a e fun s => { s with active := false }).trans hk
  intro x t ht
  unfold release at ht
  split at ht
  · exact ⟨t, ht, rfl, rfl⟩
  split at ht
  · exact ⟨t, ht, rfl, rfl⟩
  split at ht
  · obtain ⟨u, hu, hp, hb⟩ := shrinks_collect hk' (held ()) x t ht
    obtain ⟨s, hs, hp', hb'⟩ := shrinks_stop a e x u hu
    exact ⟨s, hs, hp.trans hp', hb.trans hb'⟩
  · rw [scope?_vacate hk'] at ht
    split at ht
    · cases ht
    · exact shrinks_stop a e x t ht

section
variable {a : Arena} {ladder : List ScopeId} {e : ScopeId} (h : a.Sound (e :: ladder))
  (hk : a.keepsAll = false) (hroot : Arena.root ∈ ladder) (held : Unit → List ScopeId)

include h hroot

theorem Sound.ne_root : e ≠ Arena.root := by
  rintro rfl
  exact (List.nodup_cons.mp h.nodup).1 hroot

include hk

theorem Sound.release : (a.release held e).Sound ladder := by
  obtain ⟨s, hs⟩ := h.scope_of_mem List.mem_cons_self
  rcases release_cases hs hk (h.ne_root hroot) held with ⟨hc, heq⟩ | ⟨hc, heq⟩
  · rw [heq]
    exact h.vacate hk hroot hc
  · rw [heq]
    exact (h.stop hroot hc).collect ((keepsAll_update a e _).trans hk) (held ())

theorem Sound.pinned_release {x : ScopeId} (hx : a.Pinned x) : (a.release held e).Pinned x := by
  obtain ⟨s, hs⟩ := h.scope_of_mem List.mem_cons_self
  rcases release_cases hs hk (h.ne_root hroot) held with ⟨hc, heq⟩ | ⟨hc, heq⟩
  · rw [heq]
    obtain ⟨t, ht, htc, htp⟩ := hx
    refine ⟨t, ?_, htc, htp⟩
    rw [scope?_vacate hk, if_neg, ht]
    rintro rfl
    exact hc ⟨t, ht, htc⟩
  · rw [heq]
    exact pinned_collect ((keepsAll_update a e _).trans hk) _ ((grows_stop a e).pinned hx)

theorem Sound.captured_release {x : ScopeId} (hx : a.Captured x) (hheld : x ∈ held ()) :
    (a.release held e).Captured x := by
  obtain ⟨s, hs⟩ := h.scope_of_mem List.mem_cons_self
  rcases release_cases hs hk (h.ne_root hroot) held with ⟨hc, heq⟩ | ⟨hc, heq⟩
  · rw [heq]
    obtain ⟨t, ht, htc⟩ := hx
    refine ⟨t, ?_, htc⟩
    rw [scope?_vacate hk, if_neg, ht]
    rintro rfl
    exact hc ⟨t, ht, htc⟩
  · rw [heq]
    exact captured_collect ((keepsAll_update a e _).trans hk) _ ((grows_stop a e).captured hx) hheld

theorem Sound.keepsAll_release : (a.release held e).keepsAll = false := by
  obtain ⟨s, hs⟩ := h.scope_of_mem List.mem_cons_self
  rcases release_cases hs hk (h.ne_root hroot) held with ⟨hc, heq⟩ | ⟨hc, heq⟩
  · rw [heq, keepsAll_vacate, hk]
  · rw [heq, keepsAll_collect (h.tidy.update _ _), keepsAll_update, hk]

end

end Arena

end DeskScript
