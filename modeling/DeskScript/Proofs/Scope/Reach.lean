import DeskScript.Proofs.Scope.Slots

/-!
# A collection keeps exactly what is reached

The scopes that a collection keeps are the least set that has the running and the
pinned scopes and those of the functions held outside, and with a scope all that
it leads to:

    (a.collect held).scope? e = a.scope? e   if e is reached,   none   otherwise
-/

namespace DeskScript

namespace Arena

/-- The scopes that something leads to. -/
inductive Reached (a : Arena) (held : List ScopeId) : ScopeId → Prop
  | start {e : ScopeId} : e ∈ held ++ a.needed → (a.scope? e).isSome → Reached a held e
  | link {e x : ScopeId} {s : Scope} : Reached a held e → a.scope? e = some s → x ∈ s.links →
      (a.scope? x).isSome → Reached a held x

/-! ## Marking -/

/-- Is a slot marked? -/
def Marked (marks : Array Bool) (e : ScopeId) : Prop := marks[e]? = some true

instance (marks : Array Bool) (e : ScopeId) : Decidable (Marked marks e) :=
  inferInstanceAs (Decidable (marks[e]? = some true))

theorem marked_iff_getD {marks : Array Bool} {e : ScopeId} :
    Marked marks e ↔ marks.getD e false = true := by
  rw [Marked, Array.getD_eq_getD_getElem?]
  cases marks[e]? <;> simp

theorem marked_set {marks : Array Bool} {e x : ScopeId} (he : e < marks.size) :
    Marked (marks.setIfInBounds e true) x ↔ x = e ∨ Marked marks x := by
  simp only [Marked, Array.getElem?_setIfInBounds]
  by_cases hx : x = e
  · subst hx
    simp [he]
  · simp [hx, Ne.symm hx]

/-- A mark that `mark` would skip is there or lies outside of the arena. -/
theorem marked_of_getD {marks : Array Bool} {e : ScopeId} (h : marks.getD e true = true)
    (he : e < marks.size) : Marked marks e := by
  rw [Array.getD_eq_getD_getElem?] at h
  rw [Marked]
  simp_all

theorem mark_of_marked (a : Arena) (left : Nat) (pending : List ScopeId) (marks : Array Bool)
    (hsize : marks.size = a.slots.size) {x : ScopeId} (h : Marked marks x) :
    Marked (a.mark left pending marks) x := by
  fun_induction mark a left pending marks with
  | case1 => exact h
  | case2 => exact h
  | case3 left marks e pending _ ih => exact ih hsize h
  | case4 left marks e pending _ _ ih => exact ih hsize h
  | case5 marks left e pending _ s hs ih =>
    have he : e < marks.size := hsize ▸ lt_size_of_scope? hs
    exact ih (by simpa using hsize) ((marked_set he).mpr (Or.inr h))

/-- Whatever is marked in the end lies in every set that has the marked and the pending scopes and
is closed under links. -/
theorem mark_least (a : Arena) (left : Nat) (pending : List ScopeId) (marks : Array Bool)
    (hsize : marks.size = a.slots.size) (P : ScopeId → Prop)
    (hmarks : ∀ e, Marked marks e → P e)
    (hpending : ∀ e ∈ pending, (a.scope? e).isSome → P e)
    (hlink : ∀ e s x, P e → a.scope? e = some s → x ∈ s.links → (a.scope? x).isSome → P x) :
    ∀ x, Marked (a.mark left pending marks) x → P x := by
  fun_induction mark a left pending marks with
  | case1 => exact hmarks
  | case2 => exact hmarks
  | case3 left marks e pending _ ih =>
    exact ih hsize hmarks fun x hx => hpending x (List.mem_cons_of_mem _ hx)
  | case4 left marks e pending _ _ ih =>
    exact ih hsize hmarks fun x hx => hpending x (List.mem_cons_of_mem _ hx)
  | case5 marks left e pending _ s hs ih =>
    have he : e < marks.size := hsize ▸ lt_size_of_scope? hs
    have hPe : P e := hpending e List.mem_cons_self (by simp [hs])
    apply ih (by simpa using hsize)
    · intro x hx
      rcases (marked_set he).mp hx with rfl | hx
      · exact hPe
      · exact hmarks x hx
    · intro x hx hsome
      rcases List.mem_append.mp hx with hx | hx
      · exact hlink e s x hPe hs hx hsome
      · exact hpending x (List.mem_cons_of_mem _ hx) hsome

/-- With a bound that covers the unmarked slots, the marked scopes are closed under links in the
end, and the pending ones are among them. -/
theorem mark_closed (a : Arena) (left : Nat) (pending : List ScopeId) (marks : Array Bool)
    (hsize : marks.size = a.slots.size) (hleft : marks.count false ≤ left)
    (hclosed : ∀ e s x, Marked marks e → a.scope? e = some s → x ∈ s.links →
      (a.scope? x).isSome → Marked marks x ∨ x ∈ pending) :
    (∀ x ∈ pending, (a.scope? x).isSome → Marked (a.mark left pending marks) x) ∧
    ∀ e s x, Marked (a.mark left pending marks) e → a.scope? e = some s → x ∈ s.links →
      (a.scope? x).isSome → Marked (a.mark left pending marks) x := by
  fun_induction mark a left pending marks with
  | case1 pending marks =>
    -- nothing is left unmarked
    have hall : ∀ x, (a.scope? x).isSome → Marked marks x := by
      intro x hx
      obtain ⟨s, hs⟩ := Option.isSome_iff_exists.mp hx
      have hlt : x < marks.size := hsize ▸ lt_size_of_scope? hs
      have hzero : marks.count false = 0 := Nat.le_zero.mp hleft
      rw [Array.count_eq_zero] at hzero
      have hne : marks[x] ≠ false := fun h => hzero (h ▸ Array.getElem_mem hlt)
      rw [Marked, Array.getElem?_eq_getElem hlt]
      simpa using hne
    exact ⟨fun x _ hx => hall x hx, fun _ _ x _ _ _ hx => hall x hx⟩
  | case2 left marks =>
    refine ⟨by simp, fun e s x he hs hx hsome => ?_⟩
    rcases hclosed e s x he hs hx hsome with h | h
    · exact h
    · cases h
  | case3 left marks e pending he ih =>
    obtain ⟨h1, h2⟩ := ih hsize hleft (by
      intro y s x hy hs hx hsome
      rcases hclosed y s x hy hs hx hsome with h | h
      · exact Or.inl h
      · rcases List.mem_cons.mp h with rfl | h
        · obtain ⟨t, ht⟩ := Option.isSome_iff_exists.mp hsome
          exact Or.inl (marked_of_getD he (hsize ▸ lt_size_of_scope? ht))
        · exact Or.inr h)
    refine ⟨fun x hx hsome => ?_, h2⟩
    rcases List.mem_cons.mp hx with rfl | hx
    · obtain ⟨t, ht⟩ := Option.isSome_iff_exists.mp hsome
      exact mark_of_marked a _ _ _ hsize (marked_of_getD he (hsize ▸ lt_size_of_scope? ht))
    · exact h1 x hx hsome
  | case4 left marks e pending _ hnone ih =>
    obtain ⟨h1, h2⟩ := ih hsize hleft (by
      intro y s x hy hs hx hsome
      rcases hclosed y s x hy hs hx hsome with h | h
      · exact Or.inl h
      · rcases List.mem_cons.mp h with rfl | h
        · simp [hnone] at hsome
        · exact Or.inr h)
    refine ⟨fun x hx hsome => ?_, h2⟩
    rcases List.mem_cons.mp hx with rfl | hx
    · simp [hnone] at hsome
    · exact h1 x hx hsome
  | case5 marks left e pending hne s hs ih =>
    have he : e < marks.size := hsize ▸ lt_size_of_scope? hs
    have hfalse : marks[e] = false := by
      simpa [Array.getD_eq_getD_getElem?, Array.getElem?_eq_getElem he] using hne
    have hcount : (marks.setIfInBounds e true).count false ≤ left := by
      have hpos : 0 < marks.count false :=
        Array.count_pos_iff.mpr (hfalse ▸ Array.getElem_mem he)
      rw [Array.setIfInBounds_def, dif_pos he, Array.count_set]
      simp only [hfalse]
      simp
      omega
    obtain ⟨h1, h2⟩ := ih (by simpa using hsize) hcount (by
      intro y t x hy ht hx hsome
      rcases (marked_set he).mp hy with rfl | hy
      · obtain rfl := Option.some.inj (hs.symm.trans ht)
        exact Or.inr (List.mem_append_left _ hx)
      · rcases hclosed y t x hy ht hx hsome with h | h
        · exact Or.inl ((marked_set he).mpr (Or.inr h))
        · rcases List.mem_cons.mp h with rfl | h
          · exact Or.inl ((marked_set he).mpr (Or.inl rfl))
          · exact Or.inr (List.mem_append_right _ h))
    refine ⟨fun x hx hsome => ?_, h2⟩
    rcases List.mem_cons.mp hx with rfl | hx
    · exact mark_of_marked a _ _ _ (by simpa using hsize) ((marked_set he).mpr (Or.inl rfl))
    · exact h1 x (List.mem_append_right _ hx) hsome

theorem marked_reached_iff (a : Arena) (held : List ScopeId) (e : ScopeId) :
    Marked (a.reached held) e ↔ a.Reached held e := by
  have hsize : (Array.replicate a.slots.size false).size = a.slots.size := by simp
  have hnone : ∀ x, ¬ Marked (Array.replicate a.slots.size false) x := by
    intro x hx
    simp [Marked, Array.getElem?_replicate] at hx
  obtain ⟨hpending, hclosed⟩ := mark_closed a a.slots.size (held ++ a.needed) _ hsize
    (by simp) (fun x _ _ hx => absurd hx (hnone x))
  constructor
  · exact mark_least a _ _ _ hsize (a.Reached held) (fun x hx => absurd hx (hnone x))
      (fun x hx hsome => .start hx hsome) (fun x s y hx hs hy hsome => .link hx hs hy hsome) e
  · intro h
    induction h with
    | start hmem hsome => exact hpending _ hmem hsome
    | link _ hs hx hsome ih => exact hclosed _ _ _ ih hs hx hsome

/-! ## Collecting -/

theorem foldl_vacate (marks : Array Bool) (l : List ScopeId) (a : Arena)
    (h : a.keepsAll = false) (x : ScopeId) :
    (l.foldl (fun a e => if marks.getD e false then a else a.vacate e) a).scope? x =
      if x ∈ l ∧ ¬ Marked marks x then none else a.scope? x := by
  induction l generalizing a with
  | nil => simp
  | cons e l ih =>
    rw [List.foldl_cons]
    by_cases he : marks.getD e false = true
    · have hmark : Marked marks e := marked_iff_getD.mpr he
      rw [if_pos he, ih a h]
      by_cases hx : x = e
      · subst hx
        simp [hmark]
      · simp [hx]
    · have hmark : ¬ Marked marks e := fun hm => he (marked_iff_getD.mp hm)
      rw [if_neg he, ih _ (by simpa using h), scope?_vacate h]
      by_cases hx : x = e
      · subst hx
        simp [hmark]
      · simp [hx]

theorem foldl_vacate_tidy (marks : Array Bool) (l : List ScopeId) (a : Arena) (h : a.Tidy) :
    (l.foldl (fun a e => if marks.getD e false then a else a.vacate e) a).Tidy ∧
    (l.foldl (fun a e => if marks.getD e false then a else a.vacate e) a).keepsAll =
      a.keepsAll := by
  induction l generalizing a with
  | nil => exact ⟨h, rfl⟩
  | cons e l ih =>
    rw [List.foldl_cons]
    split
    · exact ih a h
    · obtain ⟨h1, h2⟩ := ih (a.vacate e) (h.vacate e)
      exact ⟨h1, h2.trans (keepsAll_vacate a e)⟩

theorem scope?_collect_of_reached {a : Arena} (h : a.keepsAll = false) {held : List ScopeId}
    {x : ScopeId} (hx : a.Reached held x) : (a.collect held).scope? x = a.scope? x := by
  rw [collect, foldl_vacate _ _ _ h, if_neg]
  exact fun hn => hn.2 ((marked_reached_iff a held x).mpr hx)

theorem scope?_collect_of_not_reached {a : Arena} (h : a.keepsAll = false) {held : List ScopeId}
    {x : ScopeId} (hx : ¬ a.Reached held x) : (a.collect held).scope? x = none := by
  rw [collect, foldl_vacate _ _ _ h]
  split
  · rfl
  · next hn =>
    cases hs : a.scope? x with
    | none => rfl
    | some s =>
      refine absurd ⟨List.mem_range.mpr (lt_size_of_scope? hs), fun hm => hx ?_⟩ hn
      exact (marked_reached_iff a held x).mp hm

/-- What is left after a collection was there before, was reached and is unchanged. -/
theorem scope?_collect_some {a : Arena} (h : a.keepsAll = false) {held : List ScopeId}
    {x : ScopeId} {s : Scope} (hs : (a.collect held).scope? x = some s) :
    a.scope? x = some s ∧ a.Reached held x := by
  by_cases hx : a.Reached held x
  · rw [scope?_collect_of_reached h hx] at hs
    exact ⟨hs, hx⟩
  · rw [scope?_collect_of_not_reached h hx] at hs
    cases hs

theorem Tidy.collect {a : Arena} (h : a.Tidy) (held : List ScopeId) : (a.collect held).Tidy :=
  (foldl_vacate_tidy _ _ a h).1

theorem keepsAll_collect {a : Arena} (h : a.Tidy) (held : List ScopeId) :
    (a.collect held).keepsAll = a.keepsAll :=
  (foldl_vacate_tidy _ _ a h).2

theorem collect_keeping {a : Arena} (h : a.keepsAll = true) (held : List ScopeId) :
    a.collect held = a := by
  unfold collect
  generalize List.range a.slots.size = l
  generalize a.reached held = marks
  induction l with
  | nil => rfl
  | cons e l ih =>
    rw [List.foldl_cons, vacate_keeping h, ite_self]
    exact ih

theorem mem_needed {a : Arena} {e : ScopeId} {s : Scope} (hs : a.scope? e = some s)
    (h : s.active = true ∨ s.pinned = true) : e ∈ a.needed := by
  simp only [needed, List.mem_filter, List.mem_range]
  refine ⟨lt_size_of_scope? hs, ?_⟩
  simpa [hs] using h

end Arena

end DeskScript
