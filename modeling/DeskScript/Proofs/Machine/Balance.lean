import DeskScript.Proofs.Machine.Effect
import DeskScript.Proofs.Scope.Running

/-!
# Scopes and calls are balanced

`Balanced whole s₀ k s` compares a session `s` with the one, `s₀`, in which some work
began, while the frames of `k` wait: the depth of calls has grown by the function
bodies among the frames, the running scopes by those that end with the frames, and
no other scope has been added that nothing captured. Every step keeps this, so work
that is over, however it ended, leaves depth and running scopes as they were:

    Course P k s ⟨c, k⟩ s' m → m.Over k → s.Settles s'                  (Course.settles)
-/

namespace DeskScript

/-! ## Balanced sessions -/

/-- How many function bodies wait among the frames. -/
def callsOf : List Frame → Nat
  | [] => 0
  | f :: k => f.calls + callsOf k

theorem callsOf_cons (f : Frame) (k : List Frame) : callsOf (f :: k) = f.calls + callsOf k := rfl

theorem callsOf_append (j k : List Frame) : callsOf (j ++ k) = callsOf j + callsOf k := by
  induction j with
  | nil => exact (Nat.zero_add _).symm
  | cons f j ih => rw [List.cons_append, callsOf_cons, callsOf_cons, ih, Nat.add_assoc]

theorem Frame.calls_of_inner {f : Frame} (h : f.inner? = none) : f.calls = 0 := by
  rcases f with f | f
  · rfl
  · cases f <;> first | rfl | cases h

theorem Session.opens_openScope {s : Session} (h : s.scopes.Tidy) (p : ScopeId)
    (bs : List (String × Value)) :
    s.scopes.Opens (s.openScope p bs).1 (s.openScope p bs).2.scopes :=
  (Arena.opens_child h p).rebinds (Arena.rebinds_defineAll _ _ bs)

theorem Writes.tightens {g : Grounds} {s s' : Session} (h : Writes g s s') :
    s.scopes.Tightens s'.scopes := by
  cases h with
  | nothing => exact .refl _
  | said output outbox => exact .refl _
  | bound x v he => exact (Arena.rebinds_set _ _ x v).toTightens
  | changed v hfind => exact (Arena.rebinds_define _ _ _ v).toTightens
  | @made e name params body he =>
    exact (Arena.tightens_capture s.scopes e).trans (Arena.rebinds_define _ e name _).toTightens
  | @registered e event body he => exact Arena.tightens_pin s.scopes e

/-- What work that may begin finds. -/
structure Session.Orderly (s : Session) : Prop where
  tidy : s.scopes.Tidy
  reclaims : s.scopes.keepsAll = false
  root : s.scopes.Active Arena.root
  limit : s.depth ≤ s.maxDepth

/-- The scopes of work that makes no function and no handler. It is `whole` while none of the
scopes at its beginning has been given up. -/
structure Plain (whole : Prop) (s₀ : Session) (k : List Frame) (s : Session) : Prop where
  loose : ∀ x ∈ openedBy k, s.scopes.Loose x
  there : ∀ x, s.scopes.There x → x ∈ openedBy k ∨ s₀.scopes.There x
  kept : whole → ∀ x, s₀.scopes.There x → s.scopes.There x ∧ x ∉ openedBy k

structure Balanced (whole : Prop) (s₀ : Session) (k : List Frame) (s : Session) : Prop where
  tidy : s.scopes.Tidy
  reclaims : s.scopes.keepsAll = false
  root : s₀.scopes.Active Arena.root
  nodup : (openedBy k).Nodup
  apart : ∀ x ∈ openedBy k, ¬ s₀.scopes.Active x
  active : ∀ x, s.scopes.Active x ↔ x ∈ openedBy k ∨ s₀.scopes.Active x
  loose : ∀ x, s.scopes.Loose x → x ∈ openedBy k ∨ s₀.scopes.Loose x
  depth : s.depth = s₀.depth + callsOf k
  maxDepth : s.maxDepth = s₀.maxDepth
  limit : s.depth ≤ s.maxDepth
  natives : s.natives = s₀.natives
  known : ∀ f ∈ k, ∀ n ∈ f.native?, ∃ name, Table.get? s₀.natives name = some n
  made : s₀.made ≤ s.made
  handlers : s₀.handlers.size ≤ s.handlers.size
  plain : s.made = s₀.made → s.handlers.size = s₀.handlers.size → Plain whole s₀ k s

namespace Balanced

variable {whole : Prop} {s₀ s s' : Session} {k : List Frame}

/-- Work that has just begun. -/
theorem refl (h : s.Orderly) : Balanced whole s [] s where
  tidy := h.tidy
  reclaims := h.reclaims
  root := h.root
  nodup := List.nodup_nil
  apart := by simp [openedBy]
  active := by simp [openedBy]
  loose := by simp [openedBy]
  depth := rfl
  maxDepth := rfl
  limit := h.limit
  natives := rfl
  known := by simp
  made := Nat.le_refl _
  handlers := Nat.le_refl _
  plain := fun _ _ => ⟨by simp [openedBy], by simp [openedBy], by simp [openedBy]⟩

theorem orderly (h : Balanced whole s₀ k s) : s.Orderly :=
  ⟨h.tidy, h.reclaims, (h.active _).mpr (Or.inr h.root), h.limit⟩

/-! ## Frames without a scope -/

/-- The same scopes and functions are waited for. -/
theorem frames (h : Balanced whole s₀ k s) {k' : List Frame} (hopened : openedBy k' = openedBy k)
    (hcalls : callsOf k' = callsOf k)
    (hknown : ∀ f ∈ k', ∀ n ∈ f.native?, ∃ name, Table.get? s₀.natives name = some n) :
    Balanced whole s₀ k' s :=
  { h with
    nodup := hopened ▸ h.nodup
    apart := hopened ▸ h.apart
    active := hopened ▸ h.active
    loose := hopened ▸ h.loose
    depth := hcalls ▸ h.depth
    known := hknown
    plain := fun hm hh =>
      { loose := hopened ▸ (h.plain hm hh).loose
        there := hopened ▸ (h.plain hm hh).there
        kept := hopened ▸ (h.plain hm hh).kept } }

theorem push (h : Balanced whole s₀ k s) {f : Frame} (hinner : f.inner? = none)
    (hknown : ∀ n ∈ f.native?, ∃ name, Table.get? s₀.natives name = some n) :
    Balanced whole s₀ (f :: k) s := by
  refine h.frames (openedBy_cons_none hinner k) ?_ (List.forall_mem_cons.mpr ⟨hknown, h.known⟩)
  rw [callsOf_cons, f.calls_of_inner hinner, Nat.zero_add]

theorem pop {f : Frame} (h : Balanced whole s₀ (f :: k) s) (hinner : f.inner? = none) :
    Balanced whole s₀ k s := by
  refine h.frames (openedBy_cons_none hinner k).symm ?_ (List.forall_mem_cons.mp h.known).2
  rw [callsOf_cons, f.calls_of_inner hinner, Nat.zero_add]

theorem pushAll (h : Balanced whole s₀ k s) {fs : List Frame}
    (hfs : ∀ f ∈ fs, f.inner? = none ∧ ∀ n ∈ f.native?, ∃ name,
      Table.get? s₀.natives name = some n) : Balanced whole s₀ (fs ++ k) s := by
  induction fs with
  | nil => exact h
  | cons f fs ih =>
    obtain ⟨hf, hrest⟩ := List.forall_mem_cons.mp hfs
    exact (ih hrest).push hf.1 hf.2

/-! ## Frames with a scope -/

theorem open_ {f : FlowFrame} {e : ScopeId} (h : Balanced whole s₀ k s) (he : f.inner? = some e)
    (hopens : s.scopes.Opens e s'.scopes) (hdepth : s'.depth = s.depth + (Frame.flow f).calls)
    (hlimit : s'.depth ≤ s'.maxDepth) (hmax : s'.maxDepth = s.maxDepth)
    (hnatives : s'.natives = s.natives) (hmade : s'.made = s.made)
    (hhandlers : s'.handlers = s.handlers) : Balanced whole s₀ (.flow f :: k) s' := by
  have hopened := openedBy_cons_some he k
  have hnew : e ∉ openedBy k := fun hmem =>
    hopens.fresh ((h.active e).mpr (Or.inl hmem)).there
  refine
    { tidy := hopens.tidy
      reclaims := hopens.keepsAll.trans h.reclaims
      root := h.root
      nodup := hopened ▸ List.nodup_cons.mpr ⟨hnew, h.nodup⟩
      apart := ?_
      active := fun x => ?_
      loose := fun x hx => ?_
      depth := by rw [hdepth, h.depth, callsOf_cons]; omega
      maxDepth := hmax.trans h.maxDepth
      limit := hlimit
      natives := hnatives.trans h.natives
      known := List.forall_mem_cons.mpr ⟨by cases f <;> simp [Frame.native?], h.known⟩
      made := hmade ▸ h.made
      handlers := hhandlers ▸ h.handlers
      plain := fun hm hh => ?_ }
  · rw [hopened]
    refine List.forall_mem_cons.mpr ⟨fun hactive => ?_, h.apart⟩
    exact hopens.fresh ((h.active e).mpr (Or.inr hactive)).there
  · rw [hopens.active, h.active, hopened, List.mem_cons, or_assoc]
  · rw [hopened, List.mem_cons, or_assoc]
    exact ((hopens.loose x).mp hx).imp_right (h.loose x)
  · have hplain := h.plain (hmade ▸ hm) (hhandlers ▸ hh)
    refine ⟨?_, fun x hx => ?_, fun hw x hx => ?_⟩
    · rw [hopened]
      refine List.forall_mem_cons.mpr ⟨(hopens.loose e).mpr (Or.inl rfl), fun x hx => ?_⟩
      exact (hopens.loose x).mpr (Or.inr (hplain.loose x hx))
    · rw [hopened, List.mem_cons, or_assoc]
      exact ((hopens.there x).mp hx).imp_right (hplain.there x)
    · obtain ⟨hthere, hnot⟩ := hplain.kept hw x hx
      refine ⟨(hopens.there x).mpr (Or.inr hthere), ?_⟩
      rw [hopened]
      rintro (_ | ⟨_, hmem⟩)
      · exact hopens.fresh hthere
      · exact hnot hmem

theorem close {f : FlowFrame} {e : ScopeId} (h : Balanced whole s₀ (.flow f :: k) s)
    (he : f.inner? = some e) (held : List ScopeId) :
    Balanced whole s₀ k
      ({ s with depth := s.depth - (Frame.flow f).calls }.closeScope (fun _ => held) e) := by
  have hopened := openedBy_cons_some he k
  obtain ⟨hnot, hnodup⟩ := List.nodup_cons.mp (hopened ▸ h.nodup)
  have hactive : s.scopes.Active e := (h.active e).mpr (Or.inl (hopened ▸ List.mem_cons_self))
  have hapart : ∀ x ∈ e :: openedBy k, ¬ s₀.scopes.Active x := hopened ▸ h.apart
  have hroot : e ≠ Arena.root := by
    rintro rfl
    exact hapart _ List.mem_cons_self h.root
  have hcloses := Arena.closes_release h.tidy h.reclaims hroot hactive.there fun _ => s.lent ++ held
  have hdepth := h.depth
  rw [callsOf_cons] at hdepth
  refine
    { tidy := hcloses.tidy
      reclaims := hcloses.keepsAll.trans h.reclaims
      root := h.root
      nodup := hnodup
      apart := (List.forall_mem_cons.mp hapart).2
      active := fun x => (hcloses.active x).trans ?_
      loose := fun x hx => ?_
      depth := show s.depth - _ = _ by omega
      maxDepth := h.maxDepth
      limit := Nat.le_trans (Nat.sub_le _ _) h.limit
      natives := h.natives
      known := (List.forall_mem_cons.mp h.known).2
      made := h.made
      handlers := h.handlers
      plain := fun hm hh => ?_ }
  · rw [h.active, hopened, List.mem_cons]
    constructor
    · rintro ⟨hne, (hx | hx) | hx⟩
      · exact absurd hx hne
      · exact Or.inl hx
      · exact Or.inr hx
    · rintro (hx | hx)
      · exact ⟨fun heq => hnot (heq ▸ hx), Or.inl (Or.inr hx)⟩
      · exact ⟨fun heq => hapart e List.mem_cons_self (heq ▸ hx), Or.inr hx⟩
  · obtain ⟨hne, hloose⟩ := hcloses.loose x hx
    have hor := h.loose x hloose
    rw [hopened, List.mem_cons] at hor
    exact hor.imp_left fun hmem => hmem.resolve_left hne
  · have hplain := h.plain hm hh
    have hvacated := hcloses.vacated (hplain.loose e (hopened ▸ List.mem_cons_self))
    refine ⟨fun x hx => ?_, fun x hx => ?_, fun hw x hx => ?_⟩
    · refine (hvacated x).2 (fun heq => hnot (heq ▸ hx)) (hplain.loose x ?_)
      rw [hopened]
      exact List.mem_cons_of_mem e hx
    · obtain ⟨hne, hthere⟩ := (hvacated x).1.mp hx
      have hor := hplain.there x hthere
      rw [hopened, List.mem_cons] at hor
      exact hor.imp_left fun hmem => hmem.resolve_left hne
    · obtain ⟨hthere, hmem⟩ := hplain.kept hw x hx
      rw [hopened, List.mem_cons, not_or] at hmem
      exact ⟨(hvacated x).1.mpr ⟨hmem.1, hthere⟩, hmem.2⟩

/-- Leaving a frame, with its scope if it has one. -/
theorem without {f : Frame} (h : Balanced whole s₀ (f :: k) s) (held : List ScopeId) :
    Balanced whole s₀ k (s.without held f) := by
  unfold Session.without
  split
  · next e he =>
    rcases f with f | f
    · cases he
    · exact h.close he held
  · next he => exact h.pop he

/-! ## Changes in place -/

/-- A change that opens and ends nothing. It makes a function or a handler, or only binds names. -/
theorem change (h : Balanced whole s₀ k s) (htightens : s.scopes.Tightens s'.scopes)
    (hdepth : s'.depth = s.depth) (hmax : s'.maxDepth = s.maxDepth)
    (hnatives : s'.natives = s.natives) (hmade : s.made ≤ s'.made)
    (hhandlers : s.handlers.size ≤ s'.handlers.size)
    (hrebinds : s'.made = s.made → s'.handlers.size = s.handlers.size →
      s.scopes.Rebinds s'.scopes) : Balanced whole s₀ k s' where
  tidy := htightens.tidy h.tidy
  reclaims := htightens.keepsAll.trans h.reclaims
  root := h.root
  nodup := h.nodup
  apart := h.apart
  active := fun x => htightens.active_iff.trans (h.active x)
  loose := fun x hx => h.loose x (htightens.loose x hx)
  depth := hdepth.trans h.depth
  maxDepth := hmax.trans h.maxDepth
  limit := by
    rw [hdepth, hmax]
    exact h.limit
  natives := hnatives.trans h.natives
  known := h.known
  made := Nat.le_trans h.made hmade
  handlers := Nat.le_trans h.handlers hhandlers
  plain := fun hm hh => by
    have hmade₀ := h.made
    have hhandlers₀ := h.handlers
    have hplain := h.plain (by omega) (by omega)
    have hbinds := hrebinds (by omega) (by omega)
    exact
      { loose := fun x hx => hbinds.loosened x (hplain.loose x hx)
        there := fun x hx => hplain.there x (htightens.there_iff.mp hx)
        kept := fun hw x hx => (hplain.kept hw x hx).imp_left htightens.there_iff.mpr }

/-- A change of bindings only. -/
theorem rebind (h : Balanced whole s₀ k s) {b : Arena} (hb : s.scopes.Rebinds b) :
    Balanced whole s₀ k { s with scopes := b } :=
  h.change hb.toTightens rfl rfl rfl (Nat.le_refl _) (Nat.le_refl _) fun _ _ => hb

theorem writes {g : Grounds} (h : Balanced whole s₀ k s) (hwrites : Writes g s s') :
    Balanced whole s₀ k s' := by
  have htightens := hwrites.tightens
  cases hwrites with
  | nothing => exact h
  | said output outbox =>
    exact h.change htightens rfl rfl rfl (Nat.le_refl _) (Nat.le_refl _)
      fun _ _ => ⟨.refl _, fun _ => id⟩
  | bound x v he => exact h.rebind (Arena.rebinds_set _ _ x v)
  | changed v hfind => exact h.rebind (Arena.rebinds_define _ _ _ v)
  | made name params body he =>
    exact h.change htightens rfl rfl rfl (Nat.le_succ _) (Nat.le_refl _)
      fun hm => absurd hm (Nat.succ_ne_self _)
  | @registered e event body he =>
    have hsize : (s.addHandler e event body).handlers.size = s.handlers.size + 1 :=
      Array.size_push _
    exact h.change htightens rfl rfl rfl (Nat.le_refl _) (by omega)
      fun _ hh => absurd hh (by omega)

theorem puts {g : Grounds} {fs : List Frame} {c : Control} (h : Balanced whole s₀ k s)
    (hputs : Puts g s fs s' c)
    (hg : ∀ n, g.natives n → ∃ name, Table.get? s₀.natives name = some n) :
    Balanced whole s₀ (fs ++ k) s' := by
  have hall : ∀ {fs : List Frame}, (∀ f ∈ fs, f.inner? = none ∧ g.Frame f) →
      ∀ f ∈ fs, f.inner? = none ∧ ∀ n ∈ f.native?, ∃ name,
        Table.get? s₀.natives name = some n :=
    fun hfs f hf => ⟨(hfs f hf).1, fun n hn => hg n ((hfs f hf).2.native n hn)⟩
  cases hputs with
  | goes hfs hc => exact h.pushAll (hall hfs)
  | @opens fs f p bs body hfs hinner hframe hlimit =>
    have hopens := Session.opens_openScope h.tidy p bs
    have hcalls : (Frame.flow f).calls ≤ 1 := by cases f <;> simp [Frame.calls]
    have hbound := h.limit
    refine (h.pushAll (hall hfs)).open_ hinner hopens rfl ?_ rfl rfl rfl rfl
    show s.depth + _ ≤ s.maxDepth
    by_cases hpos : 0 < (Frame.flow f).calls
    · have hroom := hlimit hpos
      omega
    · omega

/-- Taking a frame keeps the balance of the others. -/
theorem ended {m : Machine} {r : List Frame} (h : Balanced whole s₀ (m.taken?.toList ++ r) s) :
    Balanced whole s₀ r (m.ended s) := by
  unfold Machine.ended
  cases hf : m.taken? with
  | none =>
    rw [hf] at h
    exact h
  | some f =>
    rw [hf] at h
    exact h.without m.held

/-- **A step keeps the balance** of the frames above some others. -/
theorem step {m m' : Machine} {r : List Frame} (h : Balanced whole s₀ (m.taken?.toList ++ r) s)
    (hstep : Machine.step s m = .next s' m') :
    ∃ fs, m'.stack = fs ++ m.rest ∧ Balanced whole s₀ (fs ++ r) s' := by
  have hknown : ∀ n, (m.grounds s).natives n → ∃ name, Table.get? s₀.natives name = some n := by
    rintro n (hn | ⟨f, hf, hn⟩)
    · rwa [← h.natives]
    · refine h.known f (List.mem_append_left _ ?_) n hn
      rw [Option.mem_toList]
      exact hf
  obtain ⟨s₁, fs, hwrites, hputs, hstack⟩ := Machine.step_from hstep
  exact ⟨fs, hstack, (h.ended.writes hwrites).puts hputs hknown⟩

/-- A collection. -/
theorem collect (h : Balanced whole s₀ [] s) (held : List ScopeId) :
    Balanced False s₀ [] { s with scopes := s.scopes.collect held } where
  tidy := h.tidy.collect held
  reclaims := (Arena.keepsAll_collect h.tidy held).trans h.reclaims
  root := h.root
  nodup := h.nodup
  apart := h.apart
  active := fun x => (Arena.active_collect h.reclaims held).trans (h.active x)
  loose := fun x hx => h.loose x (Arena.loose_of_collect h.reclaims held hx)
  depth := h.depth
  maxDepth := h.maxDepth
  limit := h.limit
  natives := h.natives
  known := h.known
  made := h.made
  handlers := h.handlers
  plain := fun hm hh =>
    { loose := by simp [openedBy]
      there := fun x hx => (h.plain hm hh).there x ((Arena.there_collect h.reclaims held).mp hx).1
      kept := False.elim }

/-- The host holds other functions. -/
theorem lends (h : Balanced whole s₀ k s) (lent : List ScopeId) :
    Balanced whole s₀ k { s with lent } :=
  { h with plain := fun hm hh => { h.plain hm hh with } }

theorem weaken (h : Balanced whole s₀ k s) {part : Prop} (hpart : part → whole) :
    Balanced part s₀ k s :=
  { h with plain := fun hm hh =>
      { h.plain hm hh with kept := fun hp => (h.plain hm hh).kept (hpart hp) } }

end Balanced

/-! ## Courses -/

/-- The work above `k` is over, and its result is in control. -/
def Machine.Over (k : List Frame) (m : Machine) : Prop := m.stack = k ∧ m.control.scope? = none

/-- The next step does not give up the scope `x`. -/
def Machine.Keeps (x : ScopeId) (s : Session) (m : Machine) : Prop := (m.ended s).scopes.There x

/-- From `s` and `m`, steps and replies of the host lead to a session and a machine. No step is
taken after the work above `k` is over, and `P` holds wherever one is taken. -/
inductive Course (P : Session → Machine → Prop) (k : List Frame) (s : Session) (m : Machine) :
    Session → Machine → Prop
  | start : Course P k s m s m
  | step {s₁ s₂ : Session} {m₁ m₂ : Machine} : Course P k s m s₁ m₁ → ¬ m₁.Over k → P s₁ m₁ →
      Machine.step s₁ m₁ = .next s₂ m₂ → Course P k s m s₂ m₂
  | reply {s₁ : Session} {m₁ : Machine} (r : Reply) :
      Course P k s m s₁ m₁ → Course P k s m s₁ (m₁.answer r)

theorem Machine.stack_answer (m : Machine) (r : Reply) : (m.answer r).stack = m.stack := by
  unfold answer
  split <;> rfl

theorem Machine.scope?_answer (m : Machine) (r : Reply) :
    (m.answer r).control.scope? = m.control.scope? := by
  unfold answer
  split
  · next hc => rw [hc]; rfl
  · rfl

/-- A step before the end takes no frame of those below. -/
theorem Machine.rest_of_not_over {m : Machine} {j k : List Frame} (hj : m.stack = j ++ k)
    (h : ¬ m.Over k) : ∃ i, j = m.taken?.toList ++ i ∧ m.rest = i ++ k := by
  have hstack := m.stack_eq
  cases hf : m.taken? with
  | none =>
    rw [hf] at hstack
    exact ⟨j, rfl, by rw [← hj, hstack]; rfl⟩
  | some f =>
    rw [hf, hj] at hstack
    cases j with
    | nil => exact absurd ⟨hj, scope?_of_taken hf⟩ h
    | cons g i =>
      obtain ⟨rfl, hrest⟩ := List.cons.inj hstack
      exact ⟨i, rfl, hrest.symm⟩

/-- What work leaves behind when it is over: the depth of calls and the running scopes are those
from before, and all scopes opened meanwhile that nothing captured have been given up. -/
structure Session.Settles (s s' : Session) : Prop where
  depth : s'.depth = s.depth
  active : ∀ x, s'.scopes.Active x ↔ s.scopes.Active x
  loose : ∀ x, s'.scopes.Loose x → s.scopes.Loose x

/-- No function and no handler was made. -/
def Session.MadeNothing (s s' : Session) : Prop :=
  s'.made = s.made ∧ s'.handlers.size = s.handlers.size

theorem Balanced.settles {whole : Prop} {s s' : Session} (h : Balanced whole s [] s') :
    s.Settles s' where
  depth := h.depth
  active := fun x => (h.active x).trans (by simp [openedBy])
  loose := fun x hx => (h.loose x hx).resolve_left (by simp [openedBy])

theorem Balanced.live_le {whole : Prop} {s s' : Session} (h : Balanced whole s [] s')
    (hmade : s.MadeNothing s') : s'.scopes.live ≤ s.scopes.live := by
  have hplain := h.plain hmade.1 hmade.2
  exact Arena.live_le fun x hx => (hplain.there x hx).resolve_left (by simp [openedBy])

theorem Balanced.live_eq {s s' : Session} (h : Balanced True s [] s')
    (hmade : s.MadeNothing s') : s'.scopes.live = s.scopes.live := by
  have hplain := h.plain hmade.1 hmade.2
  refine Nat.le_antisymm (h.live_le hmade) (Arena.live_le fun x hx => ?_)
  exact (hplain.kept trivial x hx).1

namespace Course

variable {P : Session → Machine → Prop} {k : List Frame} {s s' : Session} {m m' : Machine}

/-- **A course keeps the balance** of the frames above `k`, and leaves `k` alone. -/
theorem balanced (h : Course P k s m s' m') {whole : Prop} {s₀ : Session} {j r : List Frame}
    (hj : m.stack = j ++ k) (hb : Balanced whole s₀ (j ++ r) s) :
    ∃ j', m'.stack = j' ++ k ∧ Balanced whole s₀ (j' ++ r) s' := by
  induction h with
  | start => exact ⟨j, hj, hb⟩
  | @step s₁ s₂ m₁ m₂ _ hover _ hstep ih =>
    obtain ⟨j₁, hj₁, hb₁⟩ := ih
    obtain ⟨i, rfl, hrest⟩ := m₁.rest_of_not_over hj₁ hover
    rw [List.append_assoc] at hb₁
    obtain ⟨fs, hstack, hb₂⟩ := hb₁.step hstep
    refine ⟨fs ++ i, ?_, ?_⟩
    · rw [hstack, hrest, List.append_assoc]
    · rw [List.append_assoc]
      exact hb₂
  | @reply s₁ m₁ r' _ ih =>
    obtain ⟨j₁, hj₁, hb₁⟩ := ih
    exact ⟨j₁, (m₁.stack_answer r').trans hj₁, hb₁⟩

/-- Work in an orderly session that is over. -/
theorem balanced_of_over {c : Control} (h : Course P k s ⟨c, k⟩ s' m') (hover : m'.Over k)
    (hs : s.Orderly) : Balanced True s [] s' := by
  obtain ⟨j, hj, hb⟩ := h.balanced (j := []) (r := []) rfl (.refl hs)
  rw [hover.1] at hj
  have hnil : j = [] := by simpa using hj
  rw [hnil] at hb
  exact hb

/-- **Work that is over leaves depth and scopes balanced**, and makes the number of scopes no other
if it made no function and no handler. -/
theorem settles {c : Control} (h : Course P k s ⟨c, k⟩ s' m') (hover : m'.Over k)
    (hs : s.Orderly) :
    s.Settles s' ∧ (s.MadeNothing s' → s'.scopes.live = s.scopes.live) :=
  ⟨(h.balanced_of_over hover hs).settles, (h.balanced_of_over hover hs).live_eq⟩

/-- A scope that was running is not given up by any step. -/
theorem keeps (h : Course P k s m s' m') {whole : Prop} {s₀ : Session} {j r : List Frame}
    (hj : m.stack = j ++ k) (hb : Balanced whole s₀ (j ++ r) s) {x : ScopeId}
    (hx : s₀.scopes.Active x) : Course (Machine.Keeps x) k s m s' m' := by
  induction h with
  | start => exact .start
  | @step s₁ s₂ m₁ m₂ hcourse hover _ hstep ih =>
    refine .step ih hover ?_ hstep
    obtain ⟨j₁, hj₁, hb₁⟩ := hcourse.balanced hj hb
    obtain ⟨i, rfl, -⟩ := m₁.rest_of_not_over hj₁ hover
    rw [List.append_assoc] at hb₁
    exact ((hb₁.ended.active x).mpr (Or.inr hx)).there
  | reply r _ ih => exact .reply r ih

end Course

/-! ## Runs -/

namespace Machine

variable {s₀ s s' : Session} {m₀ m m' : Machine}

theorem step_of_over (h : m.Over []) : ∃ r, step s m = .done s r := by
  obtain ⟨c, k⟩ := m
  obtain ⟨rfl, hcontrol⟩ := h
  cases c <;> first | exact ⟨_, rfl⟩ | cases hcontrol

/-- What a machine at rest was led to. -/
theorem run_course (n : Nat) (h : Course (fun _ _ => True) [] s₀ m₀ s m) :
    match run n s m with
    | .unfinished s' m' | .asks _ s' m' => Course (fun _ _ => True) [] s₀ m₀ s' m'
    | .done s' _ => ∃ m', Course (fun _ _ => True) [] s₀ m₀ s' m' ∧ m'.Over [] := by
  induction n generalizing s m with
  | zero => exact h
  | succ n ih =>
    unfold run
    cases hstep : step s m with
    | next s' m' =>
      refine ih (.step h (fun hover => ?_) trivial hstep)
      obtain ⟨r, hdone⟩ := step_of_over hover
      rw [hstep] at hdone
      cases hdone
    | ask command s' m' =>
      rcases step_cases s m with hfrom | ⟨command', hask⟩ | ⟨-, -, r, hdone⟩
      · rw [hstep] at hfrom
        exact hfrom.elim
      · rw [hstep] at hask
        cases hask
        exact h
      · rw [hstep] at hdone
        cases hdone
    | done s' r =>
      rcases step_cases s m with hfrom | ⟨command, hask⟩ | ⟨hstack, hcontrol, r', hdone⟩
      · rw [hstep] at hfrom
        exact hfrom.elim
      · rw [hstep] at hask
        cases hask
      · rw [hstep] at hdone
        cases hdone
        exact ⟨m, h, hstack, hcontrol⟩

/-- The course of a run that is done. -/
theorem course_of_done {n : Nat} {r : Except Raised Flow} (h : run n s m = .done s' r) :
    ∃ m', Course (fun _ _ => True) [] s m s' m' ∧ m'.Over [] := by
  have hcourse := run_course n (.start (s := s) (m := m))
  rwa [h] at hcourse

end Machine

/-! ## Refused calls -/

/-- **A call is refused exactly at the limit**, where no native function complains by itself. -/
theorem Balanced.complains_iff {whole : Prop} {s₀ s : Session} {m : Machine} {r : List Frame}
    (h : Balanced whole s₀ (m.stack ++ r) s) (hn : s₀.natives.Meek) :
    m.Complains s ↔
      ∃ f args, m.call? s = some (.function f, args) ∧ s.depth = s.maxDepth := by
  rw [Machine.complains_iff]
  constructor
  · rintro ⟨f, args, hcall, hrefuses⟩
    cases f with
    | function f => exact ⟨f, args, hcall, Nat.le_antisymm h.limit hrefuses⟩
    | native f =>
      obtain ⟨x, hx, hk⟩ := hrefuses
      have hknown : ∃ name, Table.get? s₀.natives name = some f := by
        rcases Machine.call?_native hcall with hf | ⟨g, hg, hf⟩
        · rwa [← h.natives]
        · exact h.known g (List.mem_append_left r hg) f hf
      obtain ⟨name, hname⟩ := hknown
      exact absurd hk (hn (name, f) (Table.mem_of_get? hname) args _ hx x rfl)
  · rintro ⟨f, args, hcall, hlimit⟩
    exact ⟨.function f, args, hcall, Nat.le_of_eq hlimit.symm⟩

end DeskScript
