import DeskScript.Proofs.Machine.Twin

/-!
# Twins take the same steps

A session and its twin, which keeps every scope, take the same step, and are twins
again afterwards. There is one lemma for each function that a step is made of; in
all of them the twin runs the same function on renamed arguments.

    Alike base ρ b s m t n → Step.Alike base ρ s.scopes (step s m) (step t n)     (Machine.step_alike)
-/

namespace DeskScript

/-- What is in control is in scopes of `ladder` and holds only functions of captured scopes. -/
def Control.Fits (a : Arena) (ladder : List ScopeId) : Control → Prop
  | block _ e | eval _ e | asking _ _ _ e => e ∈ ladder
  | value v => a.Holds v
  | flow f => ∀ e ∈ f.held, a.Captured e
  | raised _ => True
  | replied _ _ reply _ e => e ∈ ladder ∧ ∀ v, reply = .ok v → a.Holds v

/-- `t` with `n` is the twin of `s` with `m`. -/
structure Alike (base : List ScopeId) (ρ : Renaming) (b : Arena) (s : Session) (m : Machine)
    (t : Session) (n : Machine) : Prop where
  twin : Twin base ρ s b m.stack
  fits : m.control.Fits s.scopes (openedBy m.stack ++ base)
  session : t = s.twin ρ b
  machine : n = m.rename ρ

/-- Two steps that lead to twins. `ρ` and `a` are those before the step. -/
def Step.Alike (base : List ScopeId) (ρ : Renaming) (a : Arena) : Step → Step → Prop
  | .next s m, .next t n =>
    ∃ τ b, Carries base ρ a τ s.scopes ∧ DeskScript.Alike base τ b s m t n
  | .ask command s m, .ask command' t n =>
    command' = command ∧ ∃ τ b, Carries base ρ a τ s.scopes ∧ DeskScript.Alike base τ b s m t n
  | .done s r, .done t r' =>
    ∃ τ b, Carries base ρ a τ s.scopes ∧ Twin base τ s b [] ∧ t = s.twin τ b ∧
      r' = r.map (Flow.rename τ)
  | _, _ => False

theorem Step.Alike.after {base : List ScopeId} {ρ τ : Renaming} {a c : Arena} {x y : Step}
    (h : Step.Alike base τ c x y) (hc : Carries base ρ a τ c) : Step.Alike base ρ a x y := by
  cases x <;> cases y <;> try exact h
  case next.next =>
    obtain ⟨υ, b, hcar, h⟩ := h
    exact ⟨υ, b, hc.trans hcar, h⟩
  case ask.ask =>
    obtain ⟨heq, υ, b, hcar, h⟩ := h
    exact ⟨heq, υ, b, hc.trans hcar, h⟩
  case done.done =>
    obtain ⟨υ, b, hcar, h⟩ := h
    exact ⟨υ, b, hc.trans hcar, h⟩

namespace Machine

open Value (renameResult)

variable {base : List ScopeId} {ρ : Renaming} {s : Session} {b : Arena} {k : List Frame}

/-! ## Results -/

theorem next_alike (h : Twin base ρ s b k) {c : Control}
    (hc : c.Fits s.scopes (openedBy k ++ base)) :
    Step.Alike base ρ s.scopes (.next s ⟨c, k⟩)
      (.next (s.twin ρ b) ⟨c.rename ρ, renameStack ρ k⟩) :=
  ⟨ρ, b, .refl, h, hc, rfl, rfl⟩

theorem give_alike (h : Twin base ρ s b k) {v : Value} (hv : s.scopes.Holds v) :
    Step.Alike base ρ s.scopes (give s k v)
      (give (s.twin ρ b) (renameStack ρ k) (v.rename ρ)) :=
  next_alike h (c := .value v) hv

theorem leave_alike (h : Twin base ρ s b k) {f : Flow} (hf : ∀ e ∈ f.held, s.scopes.Captured e) :
    Step.Alike base ρ s.scopes (leave s k f)
      (leave (s.twin ρ b) (renameStack ρ k) (f.rename ρ)) :=
  next_alike h (c := .flow f) hf

theorem leave_normal_alike (h : Twin base ρ s b k) :
    Step.Alike base ρ s.scopes (leave s k .normal)
      (leave (s.twin ρ b) (renameStack ρ k) .normal) :=
  leave_alike h (f := .normal) (by simp [Flow.held])

theorem raise_alike (h : Twin base ρ s b k) (pos : Position) (f : Fault) :
    Step.Alike base ρ s.scopes (raise s k pos f)
      (raise (s.twin ρ b) (renameStack ρ k) pos f) :=
  next_alike h (c := .raised ⟨f, pos⟩) trivial

theorem settle_alike (h : Twin base ρ s b k) (pos : Position) {r : Except Fault Value}
    (hr : ∀ v, r = .ok v → s.scopes.Holds v) :
    Step.Alike base ρ s.scopes (settle s k pos r)
      (settle (s.twin ρ b) (renameStack ρ k) pos (renameResult ρ r)) := by
  cases r with
  | ok v => exact give_alike h (hr v rfl)
  | error f => exact raise_alike h pos f

/-- What an operation computes from values that are held is held. -/
theorem holds_of_natural (h : Steady base s k) {S : List ScopeId}
    (hS : ∀ e ∈ S, s.scopes.Captured e) {r : Except Fault Value}
    (hr : ∀ τ : Renaming, (∀ e ∈ S, τ e = e) → renameResult τ r = r) {v : Value}
    (hv : r = .ok v) : s.scopes.Holds v := by
  subst hv
  have hscopes : ∀ e ∈ v.scopes, e = Arena.root ∨ e ∈ S :=
    Value.scopes_of_fixed fun τ hτ => by simpa [Except.map] using hr τ hτ
  intro e he
  rcases hscopes e he with rfl | he
  · exact h.captured_root
  · exact hS e he

theorem compute_alike (h : Twin base ρ s b k) {scope : ScopeId}
    (hscope : scope ∈ openedBy k ++ base) (e : Expr) {f : ValueFrame}
    (hf : ∀ x ∈ f.scope?, x ∈ openedBy k ++ base) (hheld : ∀ x ∈ f.held, s.scopes.Captured x)
    (hblind : Frame.Blind (.value f)) :
    Step.Alike base ρ s.scopes (compute s k scope e f)
      (compute (s.twin ρ b) (renameStack ρ k) (ρ scope) e (f.rename ρ)) :=
  next_alike (c := .eval e scope) (h.push (f := .value f) rfl hf hheld hblind) hscope

/-- Entering a block in the present scope. -/
theorem enter_alike (h : Twin base ρ s b k) {scope : ScopeId}
    (hscope : scope ∈ openedBy k ++ base) (body : Block) {f : FlowFrame} (hinner : f.inner? = none)
    (hf : ∀ x ∈ f.scope?, x ∈ openedBy k ++ base) (hheld : ∀ x ∈ f.held, s.scopes.Captured x) :
    Step.Alike base ρ s.scopes (enter s k scope body f)
      (enter (s.twin ρ b) (renameStack ρ k) (ρ scope) body (f.rename ρ)) := by
  have hpush := h.push (f := .flow f) hinner hf hheld trivial
  refine next_alike (c := .block body.body scope) hpush ?_
  show scope ∈ openedBy (.flow f :: k) ++ base
  rwa [openedBy_cons_none (f := .flow f) hinner]

/-- Entering a block in a new scope. -/
theorem enter_open_alike (h : Twin base ρ s b k) {p : ScopeId}
    (hp : s.scopes.Captured p ∨ p ∈ openedBy k ++ base) {l : List (String × Value)}
    (hl : ∀ q ∈ l, s.scopes.Holds q.2) (body : Block) {f g : ScopeId → FlowFrame}
    (hinner : ∀ e, (f e).inner? = some e)
    (hscope : ∀ e, ∀ x ∈ (f e).scope?, x ∈ openedBy k ++ base)
    (hheld : ∀ e, ∀ x ∈ (f e).held, s.scopes.Captured x)
    (hg : ∀ τ : Renaming, (∀ x u, s.scopes.scope? x = some u → τ x = ρ x) →
      ∀ e, (f e).rename τ = g (τ e)) :
    Step.Alike base ρ s.scopes
      (enter (s.openScope p l).2 k (s.openScope p l).1 body (f (s.openScope p l).1))
      (enter ((s.twin ρ b).openScope (ρ p) (Table.mapValues (Value.rename ρ) l)).2
        (renameStack ρ k) ((s.twin ρ b).openScope (ρ p) (Table.mapValues (Value.rename ρ) l)).1
        body (g ((s.twin ρ b).openScope (ρ p) (Table.mapValues (Value.rename ρ) l)).1)) := by
  obtain ⟨τ, c, hsame, hgrows, heq, htwin⟩ := h.openScope hp hl hinner hscope hheld
  have hstack : renameStack ρ k = renameStack τ k := by
    apply renameStack_congr
    intro e he
    obtain ⟨u, hu⟩ := h.mentions he
    exact (hsame e u hu).symm
  have hcarries : Carries base ρ s.scopes τ (s.openScope p l).2.scopes := by
    refine ⟨fun e he => ?_, fun e he => ⟨hgrows.pinned he, ?_⟩⟩
    · obtain ⟨u, hu⟩ := h.scope (List.mem_append_right _ he)
      exact hsame e u hu
    · obtain ⟨u, hu, -⟩ := he
      exact hsame e u hu
  refine ⟨τ, c, hcarries, htwin, ?_, by rw [heq], ?_⟩
  · show (s.openScope p l).1 ∈ openedBy (.flow (f (s.openScope p l).1) :: k) ++ base
    rw [openedBy_cons_some (hinner _)]
    exact List.mem_cons_self
  · rw [heq, hstack, ← hg τ hsame]
    rfl

/-! ## Calls -/

theorem callee_twin (h : Twin base ρ s b k) {scope : ScopeId} (hscope : scope ∈ openedBy k ++ base)
    (name : String) :
    callee (s.twin ρ b) (ρ scope) name = (callee s scope name).map (Callee.rename ρ) := by
  have hget : (s.twin ρ b).scopes.get? (ρ scope) name =
      (s.scopes.get? scope name).map (Value.rename ρ) := h.get? hscope name
  have hnatives : (s.twin ρ b).natives = s.natives := rfl
  simp only [callee, hget, hnatives]
  rcases s.scopes.get? scope name with _ | v
  · cases Table.get? s.natives name <;> rfl
  · cases v <;> cases Table.get? s.natives name <;>
      simp [Except.map, Callee.rename, Value.type]

theorem callee_ok (h : Steady base s k) {scope : ScopeId} {name : String} {f : Callee}
    (hf : callee s scope name = .ok f) : (∀ e ∈ f.held, s.scopes.Captured e) ∧ f.Blind := by
  unfold callee at hf
  split at hf
  · next g hg =>
    obtain rfl := Except.ok.inj hf
    have hholds := h.get?_some hg
    exact ⟨by simpa [Arena.Holds, Callee.held] using hholds, trivial⟩
  · split at hf
    · next g hg =>
      obtain rfl := Except.ok.inj hf
      exact ⟨by simp [Callee.held], h.natives.get? hg⟩
    · cases hf
    · cases hf

theorem apply_alike (h : Twin base ρ s b k) {again again' : Machine}
    (hagain : Step.Alike base ρ s.scopes (.next s again) (.next (s.twin ρ b) again'))
    (pos : Position) (name : String) {f : Callee} (hf : ∀ e ∈ f.held, s.scopes.Captured e)
    (hblind : f.Blind) {args : List Value} (hargs : ∀ e ∈ heldBy args, s.scopes.Captured e) :
    Step.Alike base ρ s.scopes (apply s k again pos name f args)
      (apply (s.twin ρ b) (renameStack ρ k) again' pos name (f.rename ρ)
        (args.map (Value.rename ρ))) := by
  cases f with
  | native f =>
    have hρ : f (args.map (Value.rename ρ)) = (f args).map (renameResult ρ) := hblind ρ args
    simp only [Callee.rename, apply, hρ]
    cases hr : f args with
    | none => exact hagain
    | some r =>
      refine settle_alike h pos fun v hv e he => ?_
      rcases Native.Blind.scopes hblind (hr.trans (congrArg some hv)) e he with rfl | he
      · exact h.captured_root
      · exact hargs e he
  | function f =>
    have hdepth : (s.twin ρ b).depth = s.depth := rfl
    have hmax : (s.twin ρ b).maxDepth = s.maxDepth := rfl
    simp only [Callee.rename, apply, hdepth, hmax]
    split
    · exact raise_alike h pos _
    · have hcaptured : s.scopes.Captured f.scope := hf _ (by simp [Callee.held])
      have hextra : ∀ x ∈ heldBy (args.drop f.params.length), s.scopes.Captured x := by
        intro x hx
        obtain ⟨v, hv, hx⟩ := List.mem_flatMap.mp hx
        exact hargs x (List.mem_flatMap.mpr ⟨v, List.mem_of_mem_drop hv, hx⟩)
      have hheld : ∀ x ∈ f.scope :: heldBy (args.drop f.params.length), s.scopes.Captured x :=
        List.forall_mem_cons.mpr ⟨hcaptured, hextra⟩
      rw [parameters_rename]
      refine enter_open_alike (s := { s with depth := s.depth + 1 }) (h.quiet rfl rfl rfl h.lent)
        (Or.inl hcaptured) (l := parameters f.params args)
        (fun q hq e he => hargs e (held_parameters hq e he)) f.body
        (f := fun e => .called e f (args.drop f.params.length))
        (g := fun e => .called e { f with scope := ρ f.scope }
          ((args.map (Value.rename ρ)).drop f.params.length))
        (fun _ => rfl) (by simp [FlowFrame.scope?]) (fun _ => hheld) (fun τ hτ e => ?_)
      have hsame : ∀ x ∈ f.scope :: heldBy (args.drop f.params.length), τ x = ρ x := by
        intro x hx
        obtain ⟨u, hu, -⟩ := hheld x hx
        exact hτ x u hu
      rw [FlowFrame.rename, ← List.map_drop, hsame f.scope List.mem_cons_self,
        map_rename_congr fun x hx => hsame x (List.mem_cons_of_mem _ hx)]

theorem nextArgument_alike (h : Twin base ρ s b k) {again again' : Machine}
    (hagain : Step.Alike base ρ s.scopes (.next s again) (.next (s.twin ρ b) again'))
    {scope : ScopeId} (hscope : scope ∈ openedBy k ++ base) (pos : Position) (name : String)
    {f : Callee} (hf : ∀ e ∈ f.held, s.scopes.Captured e) (hblind : f.Blind) {r : List Value}
    (hr : ∀ e ∈ heldBy r, s.scopes.Captured e) (rest : List Expr) :
    Step.Alike base ρ s.scopes (nextArgument s k again scope pos name f r rest)
      (nextArgument (s.twin ρ b) (renameStack ρ k) again' (ρ scope) pos name (f.rename ρ)
        (r.map (Value.rename ρ)) rest) := by
  cases rest with
  | nil =>
    simp only [nextArgument, ← List.map_reverse]
    refine apply_alike h hagain pos name hf hblind fun e he => hr e ?_
    simpa [heldBy] using he
  | cons x rest =>
    refine compute_alike h hscope x (f := .argument pos name f r rest scope) ?_ ?_ hblind
    · simpa [ValueFrame.scope?] using hscope
    · intro e he
      rcases List.mem_append.mp he with he | he
      · exact hf e he
      · exact hr e he

theorem call_alike (h : Twin base ρ s b k) {again again' : Machine}
    (hagain : Step.Alike base ρ s.scopes (.next s again) (.next (s.twin ρ b) again'))
    {scope : ScopeId} (hscope : scope ∈ openedBy k ++ base) (pos : Position) (name : String)
    (args : List Expr) :
    Step.Alike base ρ s.scopes (call s k again scope pos name args)
      (call (s.twin ρ b) (renameStack ρ k) again' (ρ scope) pos name args) := by
  simp only [call, callee_twin h hscope]
  cases hf : callee s scope name with
  | ok f =>
    obtain ⟨hheld, hblind⟩ := callee_ok h.toSteady hf
    exact nextArgument_alike h hagain hscope pos name hheld hblind (r := []) (by simp [heldBy])
      args
  | error f => exact raise_alike h pos f

/-! ## Expressions -/

theorem nextItem_alike (h : Twin base ρ s b k) {scope : ScopeId}
    (hscope : scope ∈ openedBy k ++ base) {r : List Value}
    (hr : ∀ e ∈ heldBy r, s.scopes.Captured e) (rest : List Expr) :
    Step.Alike base ρ s.scopes (nextItem s k scope r rest)
      (nextItem (s.twin ρ b) (renameStack ρ k) (ρ scope) (r.map (Value.rename ρ)) rest) := by
  cases rest with
  | nil =>
    have hgive := give_alike h (v := .array r.reverse) fun e he => hr e (by
      simpa [heldBy] using he)
    rwa [Value.rename_array, List.map_reverse] at hgive
  | cons x rest =>
    exact compute_alike h hscope x (f := .item r rest scope)
      (by simpa [ValueFrame.scope?] using hscope) hr trivial

theorem nextField_alike (h : Twin base ρ s b k) {scope : ScopeId}
    (hscope : scope ∈ openedBy k ++ base) {r : Table Value}
    (hr : ∀ e ∈ heldBy (r.map (·.2)), s.scopes.Captured e) (rest : List (String × Expr)) :
    Step.Alike base ρ s.scopes (nextField s k scope r rest)
      (nextField (s.twin ρ b) (renameStack ρ k) (ρ scope) (Table.mapValues (Value.rename ρ) r)
        rest) := by
  cases rest with
  | nil =>
    have hgive := give_alike h (v := .object r) fun e he => hr e (by
      simpa [heldBy, List.flatMap_map] using he)
    rwa [Value.rename_object] at hgive
  | cons p rest =>
    exact compute_alike h hscope p.2 (f := .field r p.1 rest scope)
      (by simpa [ValueFrame.scope?] using hscope) hr trivial

theorem lookup_twin (h : Twin base ρ s b k) {scope : ScopeId}
    (hscope : scope ∈ openedBy k ++ base) (x : String) :
    lookup (s.twin ρ b) (ρ scope) x = renameResult ρ (lookup s scope x) := by
  have hget : (s.twin ρ b).scopes.get? (ρ scope) x =
      (s.scopes.get? scope x).map (Value.rename ρ) := h.get? hscope x
  simp only [lookup, hget]
  cases s.scopes.get? scope x <;> rfl

theorem lookup_ok (h : Steady base s k) {scope : ScopeId} {x : String} {v : Value}
    (hv : lookup s scope x = .ok v) : s.scopes.Holds v := by
  unfold lookup at hv
  split at hv
  · next w hw =>
    obtain rfl := Except.ok.inj hv
    exact h.get?_some hw
  · cases hv

theorem templateText_twin (h : Twin base ρ s b k) {scope : ScopeId}
    (hscope : scope ∈ openedBy k ++ base) (text : String) (parts : List TextPart) :
    templateText (s.twin ρ b) (ρ scope) text parts =
        renameResult ρ (templateText s scope text parts) ∧
      ∀ v, templateText s scope text parts = .ok v → s.scopes.Holds v := by
  induction parts generalizing text with
  | nil =>
    refine ⟨by simp [templateText, Except.map], fun v hv => ?_⟩
    obtain rfl := Except.ok.inj hv
    simp [Arena.Holds]
  | cons part parts ih =>
    cases part with
    | text t => exact ih (text ++ t)
    | var x =>
      simp only [templateText, lookup_twin h hscope]
      cases lookup s scope x with
      | error f => exact ⟨rfl, fun v hv => by cases hv⟩
      | ok v =>
        simp only [bind, Except.bind, Except.map, Value.text_rename]
        exact ih (text ++ v.text)

theorem eval_alike (h : Twin base ρ s b k) {scope : ScopeId}
    (hscope : scope ∈ openedBy k ++ base) (e : Expr) :
    Step.Alike base ρ s.scopes (eval s k scope e)
      (eval (s.twin ρ b) (renameStack ρ k) (ρ scope) e) := by
  -- frames that go on in the present scope and hold nothing
  have hin : ∀ x ∈ some scope, x ∈ openedBy k ++ base := by simpa using hscope
  cases e with
  | literal pos l =>
    have hgive := give_alike h (v := .ofLiteral l) (by cases l <;> simp [Arena.Holds, Value.ofLiteral])
    rwa [Value.rename_ofLiteral] at hgive
  | var pos x =>
    simp only [eval, lookup_twin h hscope]
    exact settle_alike h pos fun v hv => lookup_ok h.toSteady hv
  | binary pos op l r =>
    exact compute_alike h hscope l (f := .left pos op r scope) hin
      (by simp [ValueFrame.held]) trivial
  | unary pos op e =>
    exact compute_alike h hscope e (f := .operand pos op) (by simp [ValueFrame.scope?])
      (by simp [ValueFrame.held]) trivial
  | call pos name args =>
    exact call_alike h (next_alike h (c := .eval (.call pos name args) scope) hscope) hscope pos
      name args
  | array pos items => exact nextItem_alike h hscope (r := []) (by simp [heldBy]) items
  | object pos fields => exact nextField_alike h hscope (r := []) (by simp [heldBy]) fields
  | member pos e p =>
    exact compute_alike h hscope e (f := .memberOf pos p) (by simp [ValueFrame.scope?])
      (by simp [ValueFrame.held]) trivial
  | index pos e i =>
    exact compute_alike h hscope e (f := .indexed pos i scope) hin
      (by simp [ValueFrame.held]) trivial
  | group pos e => exact next_alike h (c := .eval e scope) hscope
  | template pos parts =>
    obtain ⟨heq, hholds⟩ := templateText_twin h hscope "" parts
    simp only [eval, heq]
    exact settle_alike h pos hholds

/-! ## Loops -/

theorem nextRound_alike (h : Twin base ρ s b k) {scope : ScopeId}
    (hscope : scope ∈ openedBy k ++ base) (body : Block) (next count : Nat) :
    Step.Alike base ρ s.scopes (nextRound s k scope body next count)
      (nextRound (s.twin ρ b) (renameStack ρ k) (ρ scope) body next count) := by
  obtain ⟨u, hu⟩ := h.scope hscope
  unfold nextRound
  split
  · have henter := enter_open_alike h (Or.inr hscope) (l := [("i", .ofNat next)])
      (by simp [Arena.Holds, Value.ofNat]) body
      (f := fun e => .round e (next + 1) count body scope)
      (g := fun e => .round e (next + 1) count body (ρ scope)) (fun _ => rfl)
      (fun _ => by simpa [FlowFrame.scope?] using hscope) (by simp [FlowFrame.held])
      (fun τ hτ e => by rw [FlowFrame.rename, hτ scope u hu])
    simpa only [Table.mapValues, List.map_cons, List.map_nil, Value.rename_ofNat] using henter
  · exact leave_normal_alike h

theorem nextTest_alike (h : Twin base ρ s b k) {scope : ScopeId}
    (hscope : scope ∈ openedBy k ++ base) (condition : Expr) (body : Block) :
    Step.Alike base ρ s.scopes (nextTest s k scope condition body)
      (nextTest (s.twin ρ b) (renameStack ρ k) (ρ scope) condition body) :=
  compute_alike h hscope condition (f := .test condition body scope)
    (by simpa [ValueFrame.scope?] using hscope) (by simp [ValueFrame.held]) trivial

theorem nextEach_alike (h : Twin base ρ s b k) {scope : ScopeId}
    (hscope : scope ∈ openedBy k ++ base) (x : String) (body : Block) (next : Nat)
    {items : List Value} (hitems : ∀ e ∈ heldBy items, s.scopes.Captured e) :
    Step.Alike base ρ s.scopes (nextEach s k scope x body next items)
      (nextEach (s.twin ρ b) (renameStack ρ k) (ρ scope) x body next
        (items.map (Value.rename ρ))) := by
  obtain ⟨u, hu⟩ := h.scope hscope
  cases items with
  | nil => exact leave_normal_alike h
  | cons v items =>
    have hv : s.scopes.Holds v := fun e he => hitems e (List.mem_append_left _ he)
    have hrest : ∀ e ∈ heldBy items, s.scopes.Captured e :=
      fun e he => hitems e (List.mem_append_right _ he)
    have henter := enter_open_alike h (Or.inr hscope) (l := [(x, v), ("index", .ofNat next)])
      (by simpa [Arena.Holds, Value.ofNat] using hv) body
      (f := fun e => .each e x items (next + 1) body scope)
      (g := fun e => .each e x (items.map (Value.rename ρ)) (next + 1) body (ρ scope))
      (fun _ => rfl) (fun _ => by simpa [FlowFrame.scope?] using hscope) (fun _ => hrest)
      (fun τ hτ e => by
        rw [FlowFrame.rename, hτ scope u hu, map_rename_congr fun y hy => ?_]
        obtain ⟨w, hw, -⟩ := hrest y hy
        exact hτ y w hw)
    simpa only [nextEach, Table.mapValues, List.map_cons, List.map_nil, Value.rename_ofNat]
      using henter

/-! ## Statements -/

theorem keys_rename_of_fixed {τ : Renaming} {keys : List Value.Key}
    (h : ∀ e ∈ keys.flatMap Value.Key.held, τ e = e) : keys.map (Value.Key.rename τ) = keys := by
  rw [List.map_congr_left (g := id) fun key hkey => ?_, List.map_id]
  have hkey' : ∀ e ∈ key.held, τ e = e := fun e he => h e (List.mem_flatMap.mpr ⟨key, hkey, he⟩)
  cases key with
  | member x => rfl
  | index v => exact congrArg Value.Key.index (Value.rename_of_fixed hkey')

theorem assign_alike (h : Twin base ρ s b k) {scope : ScopeId}
    (hscope : scope ∈ openedBy k ++ base) (pos : Position) (name : String) {v : Value}
    (hv : s.scopes.Holds v) {keys : List Value.Key}
    (hkeys : ∀ e ∈ keys.flatMap Value.Key.held, s.scopes.Captured e) :
    Step.Alike base ρ s.scopes (assign s k scope pos name v keys)
      (assign (s.twin ρ b) (renameStack ρ k) (ρ scope) pos name (v.rename ρ)
        (keys.map (Value.Key.rename ρ))) := by
  have hfind : (s.twin ρ b).scopes.find? (ρ scope) name =
      (s.scopes.find? scope name).map fun p => (ρ p.1, p.2.rename ρ) := h.find? hscope name
  simp only [assign, hfind]
  cases ho : s.scopes.find? scope name with
  | none => exact raise_alike h pos _
  | some p =>
    obtain ⟨owner, old⟩ := p
    obtain ⟨⟨u, hu⟩, hold⟩ := h.find?_some ho
    simp only [Option.map_some, Value.assign_rename]
    cases hr : Value.assign v keys old with
    | error f => exact raise_alike h pos f
    | ok w =>
      have hw : s.scopes.Holds w := by
        refine holds_of_natural h.toSteady
          (S := v.scopes ++ (keys.flatMap Value.Key.held ++ old.scopes)) (fun e he => ?_)
          (fun τ hτ => ?_) hr
        · simp only [List.mem_append] at he
          rcases he with he | he | he
          · exact hv e he
          · exact hkeys e he
          · exact hold e he
        · simp only [List.mem_append] at hτ
          rw [← Value.assign_rename, keys_rename_of_fixed fun e he => hτ e (Or.inr (Or.inl he)),
            Value.rename_of_fixed fun e he => hτ e (Or.inl he),
            Value.rename_of_fixed fun e he => hτ e (Or.inr (Or.inr he))]
      exact (leave_normal_alike (h.define hu name hw)).after
        (.of_grows (Arena.grows_define _ _ _ _))

theorem nextKey_alike (h : Twin base ρ s b k) {scope : ScopeId}
    (hscope : scope ∈ openedBy k ++ base) (pos : Position) (name : String) {v : Value}
    (hv : s.scopes.Holds v) {r : List Value.Key}
    (hr : ∀ e ∈ r.flatMap Value.Key.held, s.scopes.Captured e) (rest : List Accessor) :
    Step.Alike base ρ s.scopes (nextKey s k scope pos name v r rest)
      (nextKey (s.twin ρ b) (renameStack ρ k) (ρ scope) pos name (v.rename ρ)
        (r.map (Value.Key.rename ρ)) rest) := by
  induction rest generalizing r with
  | nil =>
    simp only [nextKey, ← List.map_reverse]
    refine assign_alike h hscope pos name hv fun e he => hr e ?_
    simpa using he
  | cons a rest ih =>
    cases a with
    | member x => exact ih (r := .member x :: r) (by simpa [Value.Key.held] using hr)
    | index e =>
      refine compute_alike h hscope e (f := .key pos name v r rest scope) ?_ (fun x hx => ?_) trivial
      · simpa [ValueFrame.scope?] using hscope
      · rcases List.mem_append.mp hx with hx | hx
        · exact hv x hx
        · exact hr x hx

theorem nextHostArgument_alike (h : Twin base ρ s b k) {scope : ScopeId}
    (hscope : scope ∈ openedBy k ++ base) (pos : Position) (verb : Verb) (into : Option String)
    {r : List Value} (hr : ∀ e ∈ heldBy r, s.scopes.Captured e) (rest : List Expr) :
    Step.Alike base ρ s.scopes (nextHostArgument s k scope pos verb into r rest)
      (nextHostArgument (s.twin ρ b) (renameStack ρ k) (ρ scope) pos verb into
        (r.map (Value.rename ρ)) rest) := by
  cases rest with
  | nil =>
    simp only [nextHostArgument, ← List.map_reverse, Command.ofArgs_rename]
    cases Command.ofArgs verb r.reverse with
    | ok command => exact next_alike h (c := .asking pos command into scope) hscope
    | error f => exact raise_alike h pos f
  | cons x rest =>
    exact compute_alike h hscope x (f := .hostArgument pos verb into r rest scope)
      (by simpa [ValueFrame.scope?] using hscope) hr trivial

theorem exec_alike (h : Twin base ρ s b k) {scope : ScopeId}
    (hscope : scope ∈ openedBy k ++ base) (stmt : Stmt) :
    Step.Alike base ρ s.scopes (exec s k scope stmt)
      (exec (s.twin ρ b) (renameStack ρ k) (ρ scope) stmt) := by
  -- a frame that holds nothing and goes on in the present scope, or in none
  have hcompute : ∀ (e : Expr) (f : ValueFrame), (f.scope? = some scope ∨ f.scope? = none) →
      f.held = [] → Frame.Blind (.value f) → Step.Alike base ρ s.scopes (compute s k scope e f)
        (compute (s.twin ρ b) (renameStack ρ k) (ρ scope) e (f.rename ρ)) := by
    intro e f hf hheld hblind
    refine compute_alike h hscope e (fun x hx => ?_) (by simp [hheld]) hblind
    rcases hf with hf | hf
    · rw [hf, Option.mem_some_iff] at hx
      exact hx ▸ hscope
    · simp [hf] at hx
  cases stmt with
  | block pos body => exact next_alike h (c := .block body.body scope) hscope
  | set pos x path e => exact hcompute e (.assigned pos x path scope) (.inl rfl) rfl trivial
  | print pos e => exact hcompute e .printed (.inr rfl) rfl trivial
  | branch pos e yes no => exact hcompute e (.condition yes no scope) (.inl rfl) rfl trivial
  | loop pos e body => exact hcompute e (.count body scope) (.inl rfl) rfl trivial
  | while_ pos e body => exact nextTest_alike h hscope e body
  | foreach pos x e body => exact hcompute e (.collection e.pos x body scope) (.inl rfl) rfl trivial
  | break_ pos => exact leave_alike h (f := .broken pos) (by simp [Flow.held])
  | continue_ pos => exact leave_alike h (f := .continued pos) (by simp [Flow.held])
  | return_ pos e =>
    cases e with
    | none =>
      have hleave := leave_alike h (f := .returned .null) (by simp [Flow.held])
      rwa [Flow.rename, Value.rename_null] at hleave
    | some e => exact hcompute e .result (.inr rfl) rfl trivial
  | define pos f params body =>
    obtain ⟨c, heq, htwin, hgrows⟩ := h.defineFunction hscope f params body
    simp only [exec, heq]
    exact (leave_normal_alike htwin).after (.of_grows hgrows)
  | call pos f args =>
    exact call_alike h (next_alike h (c := .eval (.call pos f args) scope) hscope) hscope pos f args
  | attempt pos body x handler =>
    exact enter_alike h hscope body (f := .attempt x handler scope) rfl
      (by simpa [FlowFrame.scope?] using hscope) (by simp [FlowFrame.held])
  | throw pos e => exact hcompute e (.thrown pos) (.inr rfl) rfl trivial
  | on pos event body =>
    obtain ⟨c, heq, htwin, hgrows⟩ := h.addHandler hscope event body
    simp only [exec, heq]
    exact (leave_normal_alike htwin).after (.of_grows hgrows)
  | emit pos event e =>
    cases e with
    | none =>
      exact leave_normal_alike (s := s.emit event .null) (h.quiet rfl rfl rfl h.lent)
    | some e => exact hcompute e (.payload event) (.inr rfl) rfl trivial
  | host pos verb args into =>
    exact nextHostArgument_alike h hscope pos verb into (r := []) (by simp [heldBy]) args

/-! ## Frames -/

theorem takeValue_alike {f : ValueFrame} (h : Twin base ρ s b (.value f :: k)) {v : Value}
    (hv : s.scopes.Holds v) :
    Step.Alike base ρ s.scopes (takeValue s k v f)
      (takeValue (s.twin ρ b) (renameStack ρ k) (v.rename ρ) (f.rename ρ)) := by
  have hk : Twin base ρ s b k := h.pop rfl
  have hscope : ∀ x ∈ f.scope?, x ∈ openedBy k ++ base := h.nested.1
  have hheld : ∀ x ∈ f.held, s.scopes.Captured x := h.held_top
  have hblind : Frame.Blind (.value f) := h.blind _ List.mem_cons_self
  cases f with
  | left pos op r scope =>
    have hcompute : ∀ g : ValueFrame, g.scope? = none → g.held = v.scopes →
        Frame.Blind (.value g) → Step.Alike base ρ s.scopes (compute s k scope r g)
          (compute (s.twin ρ b) (renameStack ρ k) (ρ scope) r (g.rename ρ)) :=
      fun g hg hgv hgb => compute_alike hk (hscope scope rfl) r (by simp [hg]) (hgv ▸ hv) hgb
    simp only [takeValue, ValueFrame.rename, Value.truthy_rename]
    cases op with
    | and =>
      cases v.truthy with
      | false => exact give_alike hk hv
      | true => exact hcompute (.decided v) rfl rfl trivial
    | or =>
      cases v.truthy with
      | true => exact give_alike hk hv
      | false => exact hcompute (.decided v) rfl rfl trivial
    | _ => exact hcompute (.right pos _ v) rfl rfl trivial
  | right pos op l =>
    simp only [takeValue, ValueFrame.rename, Value.binary_rename]
    refine settle_alike hk pos fun w hw => holds_of_natural hk.toSteady
      (S := l.scopes ++ v.scopes) (List.forall_mem_append.mpr ⟨hheld, hv⟩) (fun τ hτ => ?_) hw
    rw [List.forall_mem_append] at hτ
    rw [← Value.binary_rename, Value.rename_of_fixed hτ.1, Value.rename_of_fixed hτ.2]
  | decided l => exact give_alike hk hv
  | operand pos op =>
    simp only [takeValue, ValueFrame.rename, Value.unary_rename]
    refine settle_alike hk pos fun w hw => holds_of_natural hk.toSteady hv (fun τ hτ => ?_) hw
    rw [← Value.unary_rename, Value.rename_of_fixed hτ]
  | argument pos name f read rest scope =>
    have hf := List.forall_mem_append.mp hheld
    exact nextArgument_alike hk (next_alike h (c := .value v) hv) (hscope scope rfl) pos name hf.1
      hblind (r := v :: read) (List.forall_mem_append.mpr ⟨hv, hf.2⟩) rest
  | item read rest scope =>
    exact nextItem_alike hk (hscope scope rfl) (r := v :: read)
      (List.forall_mem_append.mpr ⟨hv, hheld⟩) rest
  | field read key rest scope =>
    simp only [takeValue, ValueFrame.rename, Table.put_mapValues]
    refine nextField_alike hk (hscope scope rfl) (fun e he => ?_) rest
    obtain ⟨w, hw, he⟩ := List.mem_flatMap.mp he
    obtain ⟨p, hp, rfl⟩ := List.mem_map.mp hw
    rcases Table.mem_put hp with rfl | hp
    · exact hv e he
    · exact hheld e (List.mem_flatMap.mpr ⟨p.2, List.mem_map_of_mem hp, he⟩)
  | memberOf pos p =>
    simp only [takeValue, ValueFrame.rename, Value.member_rename]
    refine settle_alike hk pos fun w hw => holds_of_natural hk.toSteady hv (fun τ hτ => ?_) hw
    rw [← Value.member_rename, Value.rename_of_fixed hτ]
  | indexed pos i scope =>
    exact compute_alike hk (hscope scope rfl) i (f := .index pos v) (by simp [ValueFrame.scope?]) hv
      trivial
  | index pos object =>
    simp only [takeValue, ValueFrame.rename, Value.at_rename]
    refine settle_alike hk pos fun w hw => holds_of_natural hk.toSteady
      (S := object.scopes ++ v.scopes) (List.forall_mem_append.mpr ⟨hheld, hv⟩) (fun τ hτ => ?_) hw
    rw [List.forall_mem_append] at hτ
    rw [← Value.at_rename, Value.rename_of_fixed hτ.1, Value.rename_of_fixed hτ.2]
  | assigned pos x path scope =>
    cases path with
    | nil =>
      obtain ⟨hset, hgrows⟩ := hk.set (hscope scope rfl) x hv
      exact (leave_normal_alike hset).after (.of_grows hgrows)
    | cons a path =>
      exact nextKey_alike hk (hscope scope rfl) pos x hv (r := []) (by simp) (a :: path)
  | key pos x value read rest scope =>
    have hf := List.forall_mem_append.mp hheld
    exact nextKey_alike hk (hscope scope rfl) pos x hf.1 (r := .index v :: read)
      (List.forall_mem_append.mpr ⟨hv, hf.2⟩) rest
  | printed =>
    simp only [takeValue, ValueFrame.rename, Value.text_rename]
    exact leave_normal_alike (s := s.print v.text) (hk.quiet rfl rfl rfl hk.lent)
  | condition yes no scope =>
    simp only [takeValue, ValueFrame.rename, Value.truthy_rename]
    split
    · exact next_alike hk (c := .block yes.body scope) (hscope scope rfl)
    · cases no with
      | some body => exact next_alike hk (c := .block body.body scope) (hscope scope rfl)
      | none => exact leave_normal_alike hk
  | count body scope =>
    simp only [takeValue, ValueFrame.rename, loopCount_rename]
    exact nextRound_alike hk (hscope scope rfl) body 0 _
  | test condition body scope =>
    obtain ⟨u, hu⟩ := hk.scope (hscope scope rfl)
    simp only [takeValue, ValueFrame.rename, Value.truthy_rename]
    split
    · exact enter_open_alike hk (Or.inr (hscope scope rfl)) (l := []) (by simp) body
        (f := fun e => .again e condition body scope)
        (g := fun e => .again e condition body (ρ scope)) (fun _ => rfl) (fun _ => hscope)
        (by simp [FlowFrame.held]) (fun τ hτ e => by rw [FlowFrame.rename, hτ scope u hu])
    · exact leave_normal_alike hk
  | collection pos x body scope =>
    simp only [takeValue, ValueFrame.rename, iterated_rename]
    cases hi : iterated v with
    | ok items =>
      exact nextEach_alike hk (hscope scope rfl) x body 0 fun e he => hv e (held_iterated hi e he)
    | error f => exact raise_alike hk pos f
  | result => exact leave_alike hk (f := .returned v) hv
  | thrown pos =>
    simp only [takeValue, ValueFrame.rename, thrownMessage_rename]
    exact raise_alike hk pos _
  | payload event =>
    simp only [takeValue, ValueFrame.rename, Value.toJson_rename]
    exact leave_normal_alike (s := s.emit event v.toJson) (hk.quiet rfl rfl rfl hk.lent)
  | hostArgument pos verb into read rest scope =>
    exact nextHostArgument_alike hk (hscope scope rfl) pos verb into (r := v :: read)
      (List.forall_mem_append.mpr ⟨hv, hheld⟩) rest

theorem afterRound_alike (h : Twin base ρ s b k) {flow : Flow}
    (hflow : ∀ e ∈ flow.held, s.scopes.Captured e) {more more' : Session → Step}
    (hmore : Step.Alike base ρ s.scopes (more s) (more' (s.twin ρ b))) :
    Step.Alike base ρ s.scopes (afterRound s k flow more)
      (afterRound (s.twin ρ b) (renameStack ρ k) (flow.rename ρ) more') := by
  cases flow with
  | normal => exact hmore
  | broken pos => exact leave_normal_alike h
  | continued pos => exact hmore
  | returned v => exact leave_alike h (f := .returned v) hflow

/-- A flow that is a result outside of all loops. -/
theorem outside_alike (h : Twin base ρ s b k) {flow : Flow}
    (hflow : ∀ e ∈ flow.held, s.scopes.Captured e) :
    Step.Alike base ρ s.scopes
      (match flow.outside with
        | .ok v => give s k v
        | .error r => .next s ⟨.raised r, k⟩)
      (match (flow.rename ρ).outside with
        | .ok v => give (s.twin ρ b) (renameStack ρ k) v
        | .error r => .next (s.twin ρ b) ⟨.raised r, renameStack ρ k⟩) := by
  rw [Flow.outside_rename]
  cases ho : flow.outside with
  | ok v => exact give_alike h fun e he => hflow e (Flow.held_outside ho e he)
  | error r => exact next_alike h (c := .raised r) trivial

/-- Ending the scope of a frame leaves what the flow, the frame and those below it hold. -/
theorem close_flow {f : FlowFrame} {e : ScopeId} (h : Twin base ρ s b (.flow f :: k))
    (he : f.inner? = some e) {flow : Flow} (hflow : ∀ x ∈ flow.held, s.scopes.Captured x) :
    let s' := s.closeScope (fun _ => held ⟨.flow flow, .flow f :: k⟩) e
    ∃ c, (∀ held', (s.twin ρ b).closeScope held' (ρ e) = s'.twin ρ c) ∧ Twin base ρ s' c k ∧
      Carries base ρ s.scopes ρ s'.scopes ∧ (∀ x ∈ flow.held, s'.scopes.Captured x) ∧
      ∀ x ∈ f.held, s'.scopes.Captured x := by
  obtain ⟨c, heq, hk, hcarries, hkept⟩ := h.closeScope he
    (fun _ => held ⟨.flow flow, .flow f :: k⟩) fun x hx =>
      List.mem_append_right _ (List.mem_append_right _ hx)
  refine ⟨c, heq, hk, hcarries, fun x hx => ?_, fun x hx => ?_⟩
  · exact hkept x (List.mem_append_left _ hx) (hflow x hx)
  · exact hkept x (List.mem_append_right _ (List.mem_append_left _ hx)) (h.held_top x hx)

theorem takeFlow_alike {f : FlowFrame} (h : Twin base ρ s b (.flow f :: k)) {flow : Flow}
    (hflow : ∀ e ∈ flow.held, s.scopes.Captured e) :
    Step.Alike base ρ s.scopes (takeFlow s k flow f)
      (takeFlow (s.twin ρ b) (renameStack ρ k) (flow.rename ρ) (f.rename ρ)) := by
  have hscope : ∀ x ∈ f.scope?, x ∈ openedBy k ++ base := h.nested.1
  cases f with
  | rest body scope =>
    have hk := h.pop rfl
    cases flow with
    | normal => exact next_alike hk (c := .block body scope) (hscope scope rfl)
    | broken pos => exact leave_alike hk hflow
    | continued pos => exact leave_alike hk hflow
    | returned v => exact leave_alike hk (f := .returned v) hflow
  | round inner next count body scope =>
    obtain ⟨c, heq, hk, hcarries, hflow', -⟩ := close_flow h rfl hflow
    simp only [takeFlow, FlowFrame.rename, heq]
    exact (afterRound_alike hk hflow'
      (nextRound_alike hk (hscope scope rfl) body next count)).after hcarries
  | again inner condition body scope =>
    obtain ⟨c, heq, hk, hcarries, hflow', -⟩ := close_flow h rfl hflow
    simp only [takeFlow, FlowFrame.rename, heq]
    exact (afterRound_alike hk hflow'
      (nextTest_alike hk (hscope scope rfl) condition body)).after hcarries
  | each inner x items next body scope =>
    obtain ⟨c, heq, hk, hcarries, hflow', hitems⟩ := close_flow h rfl hflow
    simp only [takeFlow, FlowFrame.rename, heq]
    exact (afterRound_alike hk hflow'
      (nextEach_alike hk (hscope scope rfl) x body next hitems)).after hcarries
  | called inner f extra =>
    have hdepth : Twin base ρ { s with depth := s.depth - 1 } b
        (.flow (.called inner f extra) :: k) := h.quiet rfl rfl rfl h.lent
    obtain ⟨c, heq, hk, hcarries, hflow', -⟩ := close_flow hdepth rfl hflow
    have houtside := (outside_alike hk hflow').after hcarries
    rw [← heq fun _ => held ⟨.flow (flow.rename ρ),
      .flow (FlowFrame.rename ρ (.called inner f extra)) :: renameStack ρ k⟩] at houtside
    exact houtside
  | attempt x handler scope => exact leave_alike (h.pop rfl) hflow
  | caught inner =>
    obtain ⟨c, heq, hk, hcarries, hflow', -⟩ := close_flow h rfl hflow
    simp only [takeFlow, FlowFrame.rename, heq]
    exact (leave_alike hk hflow').after hcarries

theorem close_raised_alike {f : FlowFrame} {e : ScopeId} (h : Twin base ρ s b (.flow f :: k))
    (he : f.inner? = some e) (r : Raised) (held' : Unit → List ScopeId) :
    Step.Alike base ρ s.scopes
      (.next (s.closeScope (fun _ => held ⟨.raised r, .flow f :: k⟩) e) ⟨.raised r, k⟩)
      (.next ((s.twin ρ b).closeScope held' (ρ e)) ⟨.raised r, renameStack ρ k⟩) := by
  obtain ⟨c, heq, hk, hcarries, -⟩ := h.closeScope he
    (fun _ => held ⟨.raised r, .flow f :: k⟩) fun x hx =>
      List.mem_append_right _ (List.mem_append_right _ hx)
  rw [heq]
  exact (next_alike hk (c := .raised r) trivial).after hcarries

theorem unwind_alike {f : FlowFrame} (h : Twin base ρ s b (.flow f :: k)) (r : Raised) :
    Step.Alike base ρ s.scopes (unwind s k r f)
      (unwind (s.twin ρ b) (renameStack ρ k) r (f.rename ρ)) := by
  have hscope : ∀ x ∈ f.scope?, x ∈ openedBy k ++ base := h.nested.1
  cases f with
  | rest body scope => exact next_alike (h.pop rfl) (c := .raised r) trivial
  | round inner next count body scope => exact close_raised_alike h rfl r _
  | again inner condition body scope => exact close_raised_alike h rfl r _
  | each inner x items next body scope => exact close_raised_alike h rfl r _
  | caught inner => exact close_raised_alike h rfl r _
  | called inner f extra =>
    exact close_raised_alike (s := { s with depth := s.depth - 1 }) (h.quiet rfl rfl rfl h.lent) rfl r _
  | attempt x handler scope =>
    have hk := h.pop rfl
    have henter := enter_open_alike hk (Or.inr (hscope scope rfl)) (l := [(x, r.toValue)])
      (by simp [Arena.Holds, Raised.toValue, Value.ofNat]) handler (f := fun e => .caught e)
      (g := fun e => .caught e) (fun _ => rfl) (by simp [FlowFrame.scope?])
      (by simp [FlowFrame.held]) (fun τ _ e => rfl)
    simpa only [unwind, FlowFrame.rename, Table.mapValues, List.map_cons, List.map_nil,
      Value.rename_raised] using henter

/-! ## Steps -/

/-- **A session and its twin take the same step** and are twins afterwards. -/
theorem step_alike {m : Machine} {t : Session} {n : Machine} (h : Alike base ρ b s m t n) :
    Step.Alike base ρ s.scopes (step s m) (step t n) := by
  obtain ⟨htwin, hfits, rfl, rfl⟩ := h
  obtain ⟨c, k⟩ := m
  cases c with
  | block body scope =>
    cases body with
    | nil => exact leave_normal_alike htwin
    | cons stmt rest =>
      have hpush := htwin.push (f := .flow (.rest rest scope)) rfl
        (fun e he => Option.some.inj he ▸ hfits) (by simp [Frame.held, FlowFrame.held]) trivial
      exact exec_alike hpush hfits stmt
  | eval e scope => exact eval_alike htwin hfits e
  | asking pos command into scope =>
    exact ⟨rfl, ρ, b, .refl, htwin, hfits, rfl, rfl⟩
  | replied pos verb reply into scope =>
    cases reply with
    | error reason => exact raise_alike htwin pos _
    | ok v =>
      cases into with
      | none => exact leave_normal_alike htwin
      | some x =>
        obtain ⟨hset, hgrows⟩ := htwin.set hfits.1 x (hfits.2 v rfl)
        exact (leave_normal_alike hset).after (.of_grows hgrows)
  | value v =>
    rcases k with _ | ⟨f | f, k⟩
    · exact ⟨ρ, b, .refl, htwin, rfl, rfl⟩
    · exact takeValue_alike htwin hfits
    · exact leave_normal_alike htwin
  | flow flow =>
    rcases k with _ | ⟨f | f, k⟩
    · exact ⟨ρ, b, .refl, htwin, rfl, rfl⟩
    · exact outside_alike htwin hfits
    · exact takeFlow_alike htwin hfits
  | raised r =>
    rcases k with _ | ⟨f | f, k⟩
    · exact ⟨ρ, b, .refl, htwin, rfl, rfl⟩
    · exact next_alike (htwin.pop rfl) (c := .raised r) trivial
    · exact unwind_alike htwin r

end Machine

end DeskScript
