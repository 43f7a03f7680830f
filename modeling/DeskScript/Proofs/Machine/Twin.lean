import DeskScript.Proofs.Machine.Rename
import DeskScript.Proofs.Scope.Mirror

/-!
# Two sessions that differ in what they keep

`Steady base s k` is what holds of a session `s` while the frames of `k` wait: its
arena is sound, the running scopes are those that end with the frames, on top of
those in `base`, and what the frames hold is there. `Twin base ρ s b k` adds an
arena `b` that keeps every scope and mirrors the one of `s`. The changes that
steps make to a session can be made to both arenas:

    Twin base ρ s b k → ∃ ρ' b', t.openScope (ρ p) bs' = (ρ' e, s'.twin ρ' b')     (Twin.openScope)
      for (e, s') = s.openScope p bs and t = s.twin ρ b
-/

namespace DeskScript

/-! ## Scopes and frames -/

/-- The scopes that end with the frames of a stack, the latest first. -/
def openedBy (k : List Frame) : List ScopeId := k.filterMap Frame.inner?

theorem openedBy_cons_none {f : Frame} (h : f.inner? = none) (k : List Frame) :
    openedBy (f :: k) = openedBy k :=
  List.filterMap_cons_none h

theorem openedBy_cons_some {f : FlowFrame} {e : ScopeId} (h : f.inner? = some e)
    (k : List Frame) : openedBy (.flow f :: k) = e :: openedBy k :=
  List.filterMap_cons_some h

/-- Every frame goes on in a scope that began before it. -/
def Nested (base : List ScopeId) : List Frame → Prop
  | [] => True
  | f :: k => (∀ e ∈ f.scope?, e ∈ openedBy k ++ base) ∧ Nested base k

theorem Nested.mem {base : List ScopeId} {k : List Frame} (h : Nested base k) {f : Frame}
    (hf : f ∈ k) {e : ScopeId} (he : e ∈ f.scope?) : e ∈ openedBy k ++ base := by
  induction k with
  | nil => cases hf
  | cons g k ih =>
    have hsub : openedBy k ++ base ⊆ openedBy (g :: k) ++ base := by
      unfold openedBy
      cases hg : g.inner? <;> simp [hg]
    rcases List.mem_cons.mp hf with rfl | hf
    · exact hsub (h.1 e he)
    · exact hsub (ih h.2 hf)

def Callee.Blind : Callee → Prop
  | native f => f.Blind
  | function _ => True

/-- The native function that a frame is about to call is blind. -/
def Frame.Blind : Frame → Prop
  | value (.argument _ _ f _ _ _) => f.Blind
  | _ => True

/-- All functions of a value are of scopes that were captured. -/
def Arena.Holds (a : Arena) (v : Value) : Prop := ∀ e ∈ v.scopes, a.Captured e

structure Steady (base : List ScopeId) (s : Session) (k : List Frame) : Prop where
  sound : s.scopes.Sound (openedBy k ++ base)
  reclaims : s.scopes.keepsAll = false
  root_mem : Arena.root ∈ base
  nested : Nested base k
  held : ∀ e ∈ k.flatMap Frame.held, s.scopes.Captured e
  blind : ∀ f ∈ k, f.Blind
  natives : s.natives.Blind
  handlers : ∀ h ∈ s.handlers, s.scopes.Pinned h.scope
  lent : ∀ e ∈ s.lent, s.scopes.Captured e

structure Twin (base : List ScopeId) (ρ : Renaming) (s : Session) (b : Arena) (k : List Frame) :
    Prop extends Steady base s k where
  mirror : s.scopes.Mirror ρ b

/-! ## Renamings that go on from others -/

/-- `τ` does to the scopes of `base`, and to those kept for handlers, what `ρ` does. -/
structure Carries (base : List ScopeId) (ρ : Renaming) (a : Arena) (τ : Renaming) (c : Arena) :
    Prop where
  base : ∀ e ∈ base, τ e = ρ e
  pinned : ∀ e, a.Pinned e → c.Pinned e ∧ τ e = ρ e

namespace Carries

variable {base : List ScopeId} {ρ τ υ : Renaming} {a b c : Arena}

theorem of_grows (h : a.Grows b) : Carries base ρ a ρ b :=
  ⟨fun _ _ => rfl, fun _ he => ⟨h.pinned he, rfl⟩⟩

theorem refl : Carries base ρ a ρ a := of_grows (.refl a)

theorem trans (h : Carries base ρ a τ b) (h' : Carries base τ b υ c) : Carries base ρ a υ c := by
  refine ⟨fun e he => (h'.base e he).trans (h.base e he), fun e he => ?_⟩
  obtain ⟨hb, hτ⟩ := h.pinned e he
  obtain ⟨hc, hυ⟩ := h'.pinned e hb
  exact ⟨hc, hυ.trans hτ⟩

end Carries

/-! ## Looking up names -/

section
variable {base : List ScopeId} {ρ : Renaming} {s : Session} {b : Arena} {k : List Frame}

namespace Steady

theorem captured_root (h : Steady base s k) : s.scopes.Captured Arena.root := h.sound.root.captured

/-- A scope that a frame may go on in is there. -/
theorem scope (h : Steady base s k) {e : ScopeId} (he : e ∈ openedBy k ++ base) :
    ∃ u, s.scopes.scope? e = some u :=
  h.sound.scope_of_mem he

theorem find?_some (h : Steady base s k) {e o : ScopeId} {x : String} {v : Value}
    (hv : s.scopes.find? e x = some (o, v)) :
    (∃ u, s.scopes.scope? o = some u) ∧ s.scopes.Holds v := by
  obtain ⟨u, hu, hmem⟩ := Arena.findFrom_some hv
  exact ⟨⟨u, hu⟩, h.sound.functions o u hu _ hmem⟩

theorem get?_some (h : Steady base s k) {e : ScopeId} {x : String} {v : Value}
    (hv : s.scopes.get? e x = some v) : s.scopes.Holds v := by
  obtain ⟨⟨o, w⟩, hw, rfl⟩ := Option.map_eq_some_iff.mp hv
  exact (h.find?_some hw).2

/-- Everything that the frames mention is there. -/
theorem mentions (h : Steady base s k) {e : ScopeId} (he : e ∈ k.flatMap Frame.mentions) :
    ∃ u, s.scopes.scope? e = some u := by
  obtain ⟨f, hf, he⟩ := List.mem_flatMap.mp he
  simp only [Frame.mentions, List.mem_append, Option.mem_toList] at he
  rcases he with (hscope | hinner) | hheld
  · exact h.scope (h.nested.mem hf hscope)
  · exact h.scope (List.mem_append_left _ (List.mem_filterMap.mpr ⟨f, hf, hinner⟩))
  · obtain ⟨u, hu, -⟩ := h.held e (List.mem_flatMap.mpr ⟨f, hf, hheld⟩)
    exact ⟨u, hu⟩

end Steady

namespace Twin

theorem find? (h : Twin base ρ s b k) {e : ScopeId} (he : e ∈ openedBy k ++ base) (x : String) :
    b.find? (ρ e) x = (s.scopes.find? e x).map fun p => (ρ p.1, p.2.rename ρ) := by
  obtain ⟨u, hu⟩ := h.scope he
  obtain ⟨l, hl⟩ := h.sound.around e u hu
  exact h.mirror.find? hl x

theorem get? (h : Twin base ρ s b k) {e : ScopeId} (he : e ∈ openedBy k ++ base) (x : String) :
    b.get? (ρ e) x = (s.scopes.get? e x).map (Value.rename ρ) := by
  simp only [Arena.get?, h.find? he, Option.map_map, Function.comp_def]

/-! ## Frames -/

theorem push (h : Twin base ρ s b k) {f : Frame} (hinner : f.inner? = none)
    (hscope : ∀ e ∈ f.scope?, e ∈ openedBy k ++ base)
    (hheld : ∀ e ∈ f.held, s.scopes.Captured e) (hblind : f.Blind) :
    Twin base ρ s b (f :: k) := by
  have hopened := openedBy_cons_none hinner k
  refine
    { sound := hopened ▸ h.sound
      reclaims := h.reclaims
      root_mem := h.root_mem
      nested := ⟨hscope, h.nested⟩
      held := fun e he => ?_
      blind := List.forall_mem_cons.mpr ⟨hblind, h.blind⟩
      natives := h.natives
      handlers := h.handlers
      lent := h.lent
      mirror := h.mirror }
  rcases List.mem_append.mp (List.flatMap_cons ▸ he) with he | he
  · exact hheld e he
  · exact h.held e he

theorem pop {f : Frame} (h : Twin base ρ s b (f :: k)) (hinner : f.inner? = none) :
    Twin base ρ s b k := by
  have hopened := openedBy_cons_none hinner k
  exact
    { sound := hopened ▸ h.sound
      reclaims := h.reclaims
      root_mem := h.root_mem
      nested := h.nested.2
      held := fun e he => h.held e (List.flatMap_cons ▸ List.mem_append_right _ he)
      blind := (List.forall_mem_cons.mp h.blind).2
      natives := h.natives
      handlers := h.handlers
      lent := h.lent
      mirror := h.mirror }

theorem held_top {f : Frame} (h : Twin base ρ s b (f :: k)) :
    ∀ e ∈ f.held, s.scopes.Captured e :=
  fun e he => h.held e (List.flatMap_cons ▸ List.mem_append_left _ he)

/-! ## Changes to the session -/

/-- Changes outside of the arena. The host may come to hold what is there. -/
theorem quiet (h : Twin base ρ s b k) {s' : Session} (hscopes : s'.scopes = s.scopes)
    (hnatives : s'.natives = s.natives) (hhandlers : s'.handlers = s.handlers)
    (hlent : ∀ e ∈ s'.lent, s.scopes.Captured e) : Twin base ρ s' b k where
  sound := hscopes ▸ h.sound
  reclaims := hscopes ▸ h.reclaims
  root_mem := h.root_mem
  nested := h.nested
  held := hscopes ▸ h.held
  blind := h.blind
  natives := hnatives ▸ h.natives
  handlers := by
    rw [hscopes, hhandlers]
    exact h.handlers
  lent := hscopes ▸ hlent
  mirror := hscopes ▸ h.mirror

/-- Changes to the arena that keep every scope. -/
theorem grow (h : Twin base ρ s b k) {a c : Arena} (hgrows : s.scopes.Grows a)
    (hsound : a.Sound (openedBy k ++ base)) (hreclaims : a.keepsAll = false)
    (hmirror : a.Mirror ρ c) : Twin base ρ { s with scopes := a } c k where
  sound := hsound
  reclaims := hreclaims
  root_mem := h.root_mem
  nested := h.nested
  held := fun e he => hgrows.captured (h.held e he)
  blind := h.blind
  natives := h.natives
  handlers := fun x hx => hgrows.pinned (h.handlers x hx)
  lent := fun e he => hgrows.captured (h.lent e he)
  mirror := hmirror

theorem define (h : Twin base ρ s b k) {o : ScopeId} {u : Scope} (ho : s.scopes.scope? o = some u)
    (x : String) {v : Value} (hv : s.scopes.Holds v) :
    Twin base ρ { s with scopes := s.scopes.define o x v } (b.define (ρ o) x (v.rename ρ)) k :=
  h.grow (Arena.grows_define _ _ _ _) (h.sound.define o x hv) h.reclaims (h.mirror.define ho x v)

/-- Assigning to a name, in the scope that has it or else in the present one. -/
theorem set (h : Twin base ρ s b k) {e : ScopeId} (he : e ∈ openedBy k ++ base) (x : String)
    {v : Value} (hv : s.scopes.Holds v) :
    Twin base ρ { s with scopes := s.scopes.set e x v } (b.set (ρ e) x (v.rename ρ)) k ∧
      s.scopes.Grows (s.scopes.set e x v) := by
  have howner : (b.resolve? (ρ e) x).getD (ρ e) = ρ ((s.scopes.resolve? e x).getD e) := by
    simp only [Arena.resolve?, h.find? he, Option.map_map]
    cases s.scopes.find? e x <;> rfl
  have hscope : ∃ u, s.scopes.scope? ((s.scopes.resolve? e x).getD e) = some u := by
    unfold Arena.resolve?
    cases hf : s.scopes.find? e x with
    | none => exact h.scope he
    | some p => exact (h.find?_some hf).1
  obtain ⟨u, hu⟩ := hscope
  refine ⟨?_, Arena.grows_define _ _ _ _⟩
  rw [Arena.set, Arena.set, howner]
  exact h.define hu x hv

/-- Making a function. -/
theorem defineFunction (h : Twin base ρ s b k) {e : ScopeId} (he : e ∈ openedBy k ++ base)
    (name : String) (params : List String) (body : Block) :
    ∃ c, (s.twin ρ b).defineFunction (ρ e) name params body =
        (s.defineFunction e name params body).twin ρ c ∧
      Twin base ρ (s.defineFunction e name params body) c k ∧
      s.scopes.Grows (s.defineFunction e name params body).scopes := by
  obtain ⟨u, hu⟩ := h.scope he
  have hcapture : Twin base ρ { s with scopes := s.scopes.capture e } (b.capture (ρ e)) k :=
    h.grow (h.sound.grows_capture hu) (h.sound.capture hu)
      ((Arena.relabels_capture _ e).keepsAll.trans h.reclaims)
      (h.mirror.relabel (Arena.relabels_capture _ e).shrinks (Arena.relabels_capture _ _))
  obtain ⟨w, hw, hc⟩ := h.sound.captured_capture hu
  have hdefine := hcapture.define hw name (v := .function ⟨.made s.made, name, params, body, e⟩)
    (by simpa [Arena.Holds] using ⟨w, hw, hc⟩)
  refine ⟨_, ?_, hdefine.quiet rfl rfl rfl hdefine.lent,
    (h.sound.grows_capture hu).trans (Arena.grows_define _ _ _ _)⟩
  rw [Value.rename_function]
  rfl

/-- Registering a handler. -/
theorem addHandler (h : Twin base ρ s b k) {e : ScopeId} (he : e ∈ openedBy k ++ base)
    (event : String) (body : Block) :
    ∃ c, (s.twin ρ b).addHandler (ρ e) event body = (s.addHandler e event body).twin ρ c ∧
      Twin base ρ (s.addHandler e event body) c k ∧
      s.scopes.Grows (s.addHandler e event body).scopes := by
  obtain ⟨u, hu⟩ := h.scope he
  have hpin : Twin base ρ { s with scopes := s.scopes.pin e } (b.pin (ρ e)) k :=
    h.grow (h.sound.grows_pin hu) (h.sound.pin hu)
      ((Arena.relabels_pin _ e).keepsAll.trans h.reclaims)
      (h.mirror.relabel (Arena.relabels_pin _ e).shrinks (Arena.relabels_pin _ _))
  refine ⟨b.pin (ρ e), ?_, { hpin with handlers := fun x hx => ?_ }, h.sound.grows_pin hu⟩
  · simp [Session.addHandler, Session.twin, Handler.rename]
  · rcases Array.mem_push.mp hx with hx | rfl
    · exact hpin.handlers x hx
    · exact h.sound.pinned_pin hu

/-! ## Opening and ending scopes -/

theorem child (h : Twin base ρ s b k) {p : ScopeId}
    (hp : s.scopes.Captured p ∨ p ∈ openedBy k ++ base) {f : FlowFrame}
    (hinner : f.inner? = some (s.scopes.child p).1)
    (hscope : ∀ e ∈ f.scope?, e ∈ openedBy k ++ base)
    (hheld : ∀ e ∈ f.held, s.scopes.Captured e) :
    Twin base (ρ.extend (s.scopes.child p).1 (b.child (ρ p)).1)
      { s with scopes := (s.scopes.child p).2 } (b.child (ρ p)).2 (.flow f :: k) := by
  obtain ⟨u, hu⟩ := h.sound.scope_of_open hp
  have hgrows := Arena.grows_child h.sound.tidy p
  refine
    { sound := ?_
      reclaims := (Arena.keepsAll_child _ _).trans h.reclaims
      root_mem := h.root_mem
      nested := ⟨hscope, h.nested⟩
      held := fun e he => hgrows.captured ?_
      blind := List.forall_mem_cons.mpr ⟨trivial, h.blind⟩
      natives := h.natives
      handlers := fun x hx => hgrows.pinned (h.handlers x hx)
      lent := fun e he => hgrows.captured (h.lent e he)
      mirror := h.mirror.child h.sound hu }
  · rw [openedBy_cons_some hinner]
    exact h.sound.child hp
  · rcases List.mem_append.mp (List.flatMap_cons ▸ he) with he | he
    · exact hheld e he
    · exact h.held e he

theorem defineAll (h : Twin base ρ s b k) {e : ScopeId} {u : Scope}
    (he : s.scopes.scope? e = some u) (bs : List (String × Value))
    (hbs : ∀ q ∈ bs, s.scopes.Holds q.2) :
    Twin base ρ { s with scopes := bs.foldl (fun a q => a.define e q.1 q.2) s.scopes }
      ((Table.mapValues (Value.rename ρ) bs).foldl (fun a q => a.define (ρ e) q.1 q.2) b) k ∧
    s.scopes.Grows (bs.foldl (fun a q => a.define e q.1 q.2) s.scopes) := by
  induction bs generalizing s b u with
  | nil => exact ⟨h, .refl _⟩
  | cons q bs ih =>
    have hgrows := Arena.grows_define s.scopes e q.1 q.2
    obtain ⟨w, hw, -⟩ := hgrows e u he
    have hdefine := h.define he q.1 (hbs q List.mem_cons_self)
    obtain ⟨htwin, hgrows'⟩ := ih hdefine hw fun p hp f hf =>
      hgrows.captured (hbs p (List.mem_cons_of_mem _ hp) f hf)
    exact ⟨htwin, hgrows.trans hgrows'⟩

/-- Opening a scope that ends with a new frame. The renaming changes for the new scope only. -/
theorem openScope (h : Twin base ρ s b k) {p : ScopeId}
    (hp : s.scopes.Captured p ∨ p ∈ openedBy k ++ base) {l : List (String × Value)}
    (hl : ∀ q ∈ l, s.scopes.Holds q.2) {f : ScopeId → FlowFrame}
    (hinner : ∀ e, (f e).inner? = some e)
    (hscope : ∀ e, ∀ x ∈ (f e).scope?, x ∈ openedBy k ++ base)
    (hheld : ∀ e, ∀ x ∈ (f e).held, s.scopes.Captured x) :
    ∃ τ c, (∀ x u, s.scopes.scope? x = some u → τ x = ρ x) ∧
      s.scopes.Grows (s.openScope p l).2.scopes ∧
      (s.twin ρ b).openScope (ρ p) (Table.mapValues (Value.rename ρ) l) =
        (τ (s.openScope p l).1, (s.openScope p l).2.twin τ c) ∧
      Twin base τ (s.openScope p l).2 c (.flow (f (s.openScope p l).1) :: k) := by
  have hempty := Arena.child_empty h.sound.tidy p
  have hchild := h.child hp (hinner _) (hscope _) (hheld _)
  have hgrows := Arena.grows_child h.sound.tidy p
  have hne : (s.scopes.child p).1 ≠ Arena.root := by
    obtain ⟨r, hr, -⟩ := h.sound.root
    intro heq
    rw [heq, hr] at hempty
    cases hempty
  have hsame : ∀ x u, s.scopes.scope? x = some u →
      ρ.extend (s.scopes.child p).1 (b.child (ρ p)).1 x = ρ x := by
    intro x u hu
    apply Renaming.extend_old
    rintro rfl
    rw [hempty] at hu
    cases hu
  have hnew := ρ.extend_new (s.scopes.child p).1 (b.child (ρ p)).1 hne
  have hscopeNew : (s.scopes.child p).2.scope? (s.scopes.child p).1 = some (.opened p) := by
    rw [Arena.scope?_child h.sound.tidy, if_pos rfl]
  obtain ⟨htwin, hgrows'⟩ := hchild.defineAll hscopeNew l fun q hq e he =>
    hgrows.captured (hl q hq e he)
  refine ⟨_, _, hsame, hgrows.trans hgrows', ?_, htwin⟩
  -- what is bound, the handlers and what the host holds are of scopes that were there
  have hbinds : Table.mapValues (Value.rename ρ) l =
      Table.mapValues (Value.rename (ρ.extend (s.scopes.child p).1 (b.child (ρ p)).1)) l := by
    apply mapValues_rename_congr
    intro e he
    obtain ⟨v, hv, he⟩ := List.mem_flatMap.mp he
    obtain ⟨q, hq, rfl⟩ := List.mem_map.mp hv
    obtain ⟨u, hu, -⟩ := hl q hq e he
    exact (hsame e u hu).symm
  have hhandlers : s.handlers.map (Handler.rename ρ) = s.handlers.map
      (Handler.rename (ρ.extend (s.scopes.child p).1 (b.child (ρ p)).1)) := by
    apply Array.map_congr_left
    intro x hx
    obtain ⟨u, hu, -⟩ := h.handlers x hx
    rw [Handler.rename, Handler.rename, hsame x.scope u hu]
  have hlent : s.lent.map ρ = s.lent.map (ρ.extend (s.scopes.child p).1 (b.child (ρ p)).1) := by
    apply List.map_congr_left
    intro e he
    obtain ⟨u, hu, -⟩ := h.lent e he
    exact (hsame e u hu).symm
  simp only [Session.openScope, Session.twin, hnew, hbinds, hhandlers, hlent]

/-- Ending the scope of the top frame. What `held` names is still held afterwards. -/
theorem closeScope {f : FlowFrame} {e : ScopeId} (h : Twin base ρ s b (.flow f :: k))
    (hinner : f.inner? = some e) (held : Unit → List ScopeId)
    (hheld : ∀ x ∈ k.flatMap Frame.held, x ∈ held ()) :
    ∃ c, (∀ held', (s.twin ρ b).closeScope held' (ρ e) = (s.closeScope held e).twin ρ c) ∧
      Twin base ρ (s.closeScope held e) c k ∧
      Carries base ρ s.scopes ρ (s.closeScope held e).scopes ∧
      ∀ x ∈ held (), s.scopes.Captured x → (s.closeScope held e).scopes.Captured x := by
  have hsound := h.sound
  rw [openedBy_cons_some hinner, List.cons_append] at hsound
  have hroot : Arena.root ∈ openedBy k ++ base := List.mem_append_right _ h.root_mem
  have hcaptured : ∀ x ∈ s.lent ++ held (), s.scopes.Captured x →
      (s.closeScope held e).scopes.Captured x :=
    fun x hx hc => hsound.captured_release h.reclaims hroot _ hc hx
  have hpinned : ∀ x, s.scopes.Pinned x → (s.closeScope held e).scopes.Pinned x :=
    fun x hx => hsound.pinned_release h.reclaims hroot _ hx
  refine ⟨b.release held (ρ e), fun held' => ?_, ?_,
    ⟨fun _ _ => rfl, fun x hx => ⟨hpinned x hx, rfl⟩⟩,
    fun x hx => hcaptured x (List.mem_append_right _ hx)⟩
  · show ({ s.twin ρ b with scopes := b.release _ (ρ e) } : Session) = _
    rw [Arena.release_keeping h.mirror.keeps _ held]
    rfl
  · exact
    { sound := hsound.release h.reclaims hroot fun _ => s.lent ++ held ()
      reclaims := hsound.keepsAll_release h.reclaims hroot _
      root_mem := h.root_mem
      nested := h.nested.2
      held := fun x hx => hcaptured x (List.mem_append_right _ (hheld x hx))
        (h.held x (List.flatMap_cons ▸ List.mem_append_right _ hx))
      blind := (List.forall_mem_cons.mp h.blind).2
      natives := h.natives
      handlers := fun x hx => hpinned _ (h.handlers x hx)
      lent := fun x hx => hcaptured x (List.mem_append_left _ hx) (h.lent x hx)
      mirror := h.mirror.relabel (Arena.shrinks_release h.reclaims _ _)
        (Arena.relabels_release h.mirror.keeps held (ρ e)) }

/-- A collection with no frame left. -/
theorem collect (h : Twin base ρ s b []) (held : List ScopeId) :
    Twin base ρ (s.collect held) b [] where
  sound := h.sound.collect h.reclaims _
  reclaims := (Arena.keepsAll_collect h.sound.tidy _).trans h.reclaims
  root_mem := h.root_mem
  nested := trivial
  held := by simp
  blind := by simp
  natives := h.natives
  handlers := fun x hx => Arena.pinned_collect h.reclaims _ (h.handlers x hx)
  lent := fun x hx => Arena.captured_collect h.reclaims _ (h.lent x hx) (List.mem_append_left _ hx)
  mirror := h.mirror.relabel (Arena.shrinks_collect h.reclaims _) (.refl b)

/-! ## Changing the base -/

/-- Giving up the frames leaves their scopes running for good. -/
theorem drop (h : Twin base ρ s b k) : Twin (openedBy k ++ base) ρ s b [] where
  sound := h.sound
  reclaims := h.reclaims
  root_mem := List.mem_append_right _ h.root_mem
  nested := trivial
  held := by simp
  blind := by simp
  natives := h.natives
  handlers := h.handlers
  lent := h.lent
  mirror := h.mirror

/-- The latest scope of the base may end like that of a frame. -/
theorem lift {e : ScopeId} (h : Twin (e :: base) ρ s b []) (hroot : Arena.root ∈ base) :
    Twin base ρ s b [.flow (.caught e)] where
  sound := h.sound
  reclaims := h.reclaims
  root_mem := hroot
  nested := ⟨by simp [Frame.scope?, FlowFrame.scope?], trivial⟩
  held := by simp [Frame.held, FlowFrame.held]
  blind := by simp [Frame.Blind]
  natives := h.natives
  handlers := h.handlers
  lent := h.lent
  mirror := h.mirror

end Twin

end

end DeskScript
