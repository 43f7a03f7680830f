import DeskScript.Proofs.Machine.Balance
import DeskScript.Proofs.Scope.Names

/-!
# Where names appear

A block that runs in a scope binds names there, in the scopes opened meanwhile, and
nowhere else: every frame above those that wait for the block, and control itself,
is in one of these. So a scope that is there all the time, other than that of the
block, keeps its names, and the scope of the block only gets new ones at the end:

    Course (Machine.Keeps x) k s ⟨.block body e, k⟩ s' m →
      (x ≠ e → s'.scopes.names x = s.scopes.names x) ∧ s.scopes.names x <+: s'.scopes.names x

(Course.names_block).
-/

namespace DeskScript

/-! ## Parts of a step -/

theorem Session.names_openScope {s : Session} (h : s.scopes.Tidy) (p : ScopeId)
    (bs : List (String × Value)) {x : ScopeId} (hx : s.scopes.There x) :
    (s.openScope p bs).2.scopes.names x = s.scopes.names x := by
  have hne : x ≠ (s.scopes.child p).1 := by
    rintro rfl
    exact (Arena.opens_child h p).fresh hx
  exact (Arena.names_defineAll hne bs _).trans (Arena.names_child h p hx)

theorem Session.names_without {s : Session} (hk : s.scopes.keepsAll = false)
    (held : List ScopeId) (f : Frame) {x : ScopeId} (hx : (s.without held f).scopes.There x) :
    (s.without held f).scopes.names x = s.scopes.names x := by
  unfold without at hx ⊢
  split
  · next e he =>
    rw [he] at hx
    exact (Arena.shrinks_release hk _ e).names hx
  · rfl

theorem Machine.names_ended {s : Session} (hk : s.scopes.keepsAll = false) (m : Machine)
    {x : ScopeId} (hx : (m.ended s).scopes.There x) :
    (m.ended s).scopes.names x = s.scopes.names x := by
  unfold ended at hx ⊢
  split
  · next f hf =>
    rw [hf] at hx
    exact Session.names_without hk m.held f hx
  · rfl

theorem Writes.gains {g : Grounds} {s s' : Session} (h : Writes g s s') (x : ScopeId) :
    Arena.Gains g.scopes x s.scopes s'.scopes := by
  cases h with
  | nothing => exact .of_eq rfl
  | said output outbox => exact .of_eq rfl
  | bound y v he => exact Arena.gains_set he y v
  | changed v hfind => exact .of_eq (Arena.names_change hfind v x)
  | @made e name params body he =>
    exact (Arena.Gains.of_eq ((Arena.relabels_capture s.scopes e).names x)).trans
      (Arena.gains_define he name _)
  | @registered e event body he => exact .of_eq ((Arena.relabels_pin s.scopes e).names x)

/-! ## Frames above others -/

/-- The frames above some others, and control, are in scopes opened by these frames or in `e`. -/
structure Within (e : ScopeId) (j : List Frame) (c : Control) : Prop where
  nested : Nested [e] j
  control : ∀ y ∈ c.scope?, y ∈ openedBy j ++ [e]

theorem openedBy_append (j i : List Frame) : openedBy (j ++ i) = openedBy j ++ openedBy i :=
  List.filterMap_append

theorem openedBy_eq_nil {fs : List Frame} (h : ∀ f ∈ fs, f.inner? = none) : openedBy fs = [] :=
  List.filterMap_eq_nil_iff.mpr h

section
variable {e x : ScopeId} {i : List Frame} {g : Grounds}

/-- Frames without scopes of their own, put on others. -/
theorem Nested.put (h : Nested [e] i) (hg : ∀ y ∈ g.scopes, y ∈ openedBy i ++ [e])
    {fs : List Frame} (hfs : ∀ f ∈ fs, f.inner? = none ∧ g.Frame f) :
    Nested [e] (fs ++ i) ∧ openedBy (fs ++ i) = openedBy i := by
  have hopened : ∀ {fs : List Frame}, (∀ f ∈ fs, f.inner? = none ∧ g.Frame f) →
      openedBy (fs ++ i) = openedBy i := by
    intro fs hfs
    rw [openedBy_append, openedBy_eq_nil fun f hf => (hfs f hf).1, List.nil_append]
  refine ⟨?_, hopened hfs⟩
  induction fs with
  | nil => exact h
  | cons f fs ih =>
    obtain ⟨hf, hrest⟩ := List.forall_mem_cons.mp hfs
    refine ⟨fun y hy => ?_, ih hrest⟩
    show y ∈ openedBy (fs ++ i) ++ [e]
    rw [hopened hrest]
    exact hg y (hf.2.scope y hy)

/-- What a step puts on the frames above others. -/
theorem Puts.within {s s' : Session} {fs : List Frame} {c : Control} (hputs : Puts g s fs s' c)
    (h : Nested [e] i) (hg : ∀ y ∈ g.scopes, y ∈ openedBy i ++ [e]) (hx : x ∉ openedBy i)
    (hthere : s.scopes.There x) (htidy : s.scopes.Tidy) :
    Within e (fs ++ i) c ∧ x ∉ openedBy (fs ++ i) ∧ s'.scopes.names x = s.scopes.names x := by
  cases hputs with
  | goes hfs hc =>
    obtain ⟨hnested, hopened⟩ := h.put hg hfs
    refine ⟨⟨hnested, fun y hy => ?_⟩, ?_, rfl⟩
    · rw [hopened]
      exact hg y (hc.scope y hy)
    · rw [hopened]
      exact hx
  | @opens fs f p bs body hfs hinner hframe hlimit =>
    obtain ⟨hnested, hopened⟩ := h.put hg hfs
    have hfresh : x ≠ (s.openScope p bs).1 := by
      rintro rfl
      exact (Session.opens_openScope htidy p bs).fresh hthere
    have hnew : openedBy (.flow f :: fs ++ i) = (s.openScope p bs).1 :: openedBy i := by
      rw [List.cons_append, openedBy_cons_some hinner, hopened]
    refine ⟨⟨⟨fun y hy => ?_, hnested⟩, fun y hy => ?_⟩, ?_, ?_⟩
    · show y ∈ openedBy (fs ++ i) ++ [e]
      rw [hopened]
      exact hg y (hframe.scope y hy)
    · rw [hnew]
      obtain rfl := Option.some.inj hy
      exact List.mem_cons_self
    · rw [hnew, List.mem_cons, not_or]
      exact ⟨hfresh, hx⟩
    · exact Session.names_openScope htidy p bs hthere

end

/-! ## Steps and courses -/

section
variable {e x : ScopeId} {j k : List Frame} {s s' : Session} {m m' : Machine}

/-- The scopes that a step may go on in. -/
theorem Within.grounds (h : Within e j m.control) {i : List Frame} (hj : j = m.taken?.toList ++ i) :
    Nested [e] i ∧ (∀ y ∈ (m.grounds s).scopes, y ∈ openedBy i ++ [e]) := by
  cases hf : m.taken? with
  | none =>
    rw [hf, Option.toList_none, List.nil_append] at hj
    subst hj
    refine ⟨h.nested, fun y hy => h.control y ?_⟩
    simpa [Machine.grounds, hf] using hy
  | some f =>
    rw [hf, Option.toList_some, List.singleton_append] at hj
    subst hj
    refine ⟨h.nested.2, fun y hy => h.nested.1 y ?_⟩
    simpa [Machine.grounds, hf, Machine.scope?_of_taken hf] using hy

/-- **A step of a block** in `e` leaves the names of `x` as they are, or adds to those of `e`. -/
theorem Machine.step_within (hstep : step s m = .next s' m') (hj : m.stack = j ++ k)
    (hover : ¬ m.Over k) (h : Within e j m.control) (hx : x ∉ openedBy j)
    (hkept : m.Keeps x s) (hk : s.scopes.keepsAll = false)
    (htidy : (m.ended s).scopes.Tidy) :
    ∃ j', m'.stack = j' ++ k ∧ Within e j' m'.control ∧ x ∉ openedBy j' ∧
      Arena.Gains [e] x s.scopes s'.scopes := by
  obtain ⟨i, hi, hrest⟩ := m.rest_of_not_over hj hover
  obtain ⟨hnested, hgrounds⟩ := h.grounds (s := s) hi
  obtain ⟨s₁, fs, hwrites, hputs, hstack⟩ := step_from hstep
  have hxi : x ∉ openedBy i := fun hmem =>
    hx (by rw [hi, openedBy_append]; exact List.mem_append_right _ hmem)
  have hthere := hwrites.tightens.there_iff.mpr hkept
  obtain ⟨hwithin, hxj, hnames⟩ :=
    hputs.within hnested hgrounds hxi hthere (hwrites.tightens.tidy htidy)
  refine ⟨fs ++ i, by rw [hstack, hrest, List.append_assoc], hwithin, hxj, ?_⟩
  have hwritten : Arena.Gains [e] x (m.ended s).scopes s₁.scopes :=
    (hwrites.gains x).mono fun hmem =>
      (List.mem_append.mp (hgrounds x hmem)).resolve_left hxi
  exact ((Arena.Gains.of_eq (names_ended hk m hkept)).trans hwritten).trans (.of_eq hnames)

/-- **A course of a block** in `e`. -/
theorem Course.within {whole : Prop} {s₀ : Session} {r : List Frame}
    (hc : Course (Machine.Keeps x) k s m s' m') (hj : m.stack = j ++ k)
    (hb : Balanced whole s₀ (j ++ r) s) (h : Within e j m.control) (hx : x ∉ openedBy j) :
    ∃ j', m'.stack = j' ++ k ∧ Within e j' m'.control ∧ x ∉ openedBy j' ∧
      Arena.Gains [e] x s.scopes s'.scopes := by
  induction hc with
  | start => exact ⟨j, hj, h, hx, .of_eq rfl⟩
  | @step s₁ s₂ m₁ m₂ hcourse hover hkept hstep ih =>
    obtain ⟨j₁, hj₁, hwithin, hx₁, hgains⟩ := ih
    obtain ⟨j₁', hj₁', hb₁⟩ := hcourse.balanced hj hb
    obtain rfl := List.append_cancel_right (hj₁.symm.trans hj₁')
    have htidy : (m₁.ended s₁).scopes.Tidy := by
      obtain ⟨i, rfl, -⟩ := m₁.rest_of_not_over hj₁ hover
      rw [List.append_assoc] at hb₁
      exact hb₁.ended.tidy
    obtain ⟨j₂, hj₂, hwithin₂, hx₂, hgains₂⟩ :=
      m₁.step_within hstep hj₁ hover hwithin hx₁ hkept hb₁.reclaims htidy
    exact ⟨j₂, hj₂, hwithin₂, hx₂, hgains.trans hgains₂⟩
  | @reply s₁ m₁ reply _ ih =>
    obtain ⟨j₁, hj₁, hwithin, hx₁, hgains⟩ := ih
    refine ⟨j₁, (m₁.stack_answer reply).trans hj₁, ⟨hwithin.nested, fun y hy => ?_⟩, hx₁, hgains⟩
    refine hwithin.control y ?_
    rwa [m₁.scope?_answer reply] at hy

/-- **Scope hygiene** of a block in `e`: of the scopes that are there all the time only `e` gets
names, and those at its end. -/
theorem Course.names_block {body : List Stmt} (hs : s.Orderly)
    (hc : Course (Machine.Keeps x) k s ⟨.block body e, k⟩ s' m') :
    (x ≠ e → s'.scopes.names x = s.scopes.names x) ∧ s.scopes.names x <+: s'.scopes.names x := by
  have hwithin : Within e [] (.block body e) := by
    refine ⟨trivial, fun y hy => ?_⟩
    rw [← Option.some.inj hy]
    exact List.mem_singleton_self _
  have hbalanced : Balanced True s [] s := .refl hs
  obtain ⟨-, -, -, -, hgains⟩ := hc.within (j := []) (r := []) rfl hbalanced hwithin
    (by simp [openedBy])
  exact ⟨fun hne => hgains.same (by simpa using hne), hgains.grown⟩

end

end DeskScript
