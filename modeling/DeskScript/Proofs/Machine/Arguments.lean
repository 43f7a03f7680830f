import DeskScript.Proofs.Machine.Balance
import DeskScript.Proofs.Machine.Origin

/-!
# The arguments of a host statement

A host statement computes its arguments one after the other. Meanwhile a frame holds the values so
far, and above that frame anything may happen: calls, loops, other host statements. When a value
comes back to the frame, it is that of the argument which was started for it. So the command that is
built in the end has the values of all arguments of its statement, in order:

    m.Gathers code s → m.control = .asking pos c into scope →
      ∃ looped verb args vs s₀ s₁, (looped, .host pos verb args into) ∈ sitesOf code ∧
        Evaluated scope s₀ args vs s₁ ∧ Command.ofArgs verb vs = .ok c

Only two steps have to do with host statements, the one that starts such a statement and the one that
takes the value of an argument. All others are plain (`Machine.step_plain`).
-/

namespace DeskScript

/-! ## Plain steps -/

/-- A frame that holds arguments of a host statement. -/
def Frame.gathers : Frame → Bool
  | value (.hostArgument _ _ _ _ _ _) => true
  | _ => false

/-- Waiting for the host, or having its reply. -/
def Control.withHost : Control → Bool
  | asking _ _ _ _ | replied _ _ _ _ _ => true
  | _ => false

/-- A step over the frames `k` that neither puts a frame for arguments nor asks the host. -/
def Step.Plain (k : List Frame) : Step → Prop
  | .next _ m =>
    m.control.withHost = false ∧ m.stack.filter Frame.gathers = k.filter Frame.gathers
  | _ => True

namespace Machine

variable {s : Session} {k : List Frame}

theorem settle_plain (pos : Position) (r : Except Fault Value) : (settle s k pos r).Plain k := by
  cases r <;> exact ⟨rfl, rfl⟩

theorem apply_plain {again : Machine} (hagain : (Step.next s again).Plain k) (pos : Position)
    (name : String) (f : Callee) (args : List Value) :
    (apply s k again pos name f args).Plain k := by
  cases f with
  | native f =>
    unfold apply
    cases hf : f args with
    | none => simpa only [hf] using hagain
    | some r => simpa only [hf] using settle_plain pos r
  | function f =>
    unfold apply
    by_cases hlimit : s.maxDepth ≤ s.depth
    · simp only [if_pos hlimit]
      exact ⟨rfl, rfl⟩
    · simp only [if_neg hlimit]
      exact ⟨rfl, rfl⟩

theorem nextArgument_plain {again : Machine} (hagain : (Step.next s again).Plain k)
    (scope : ScopeId) (pos : Position) (name : String) (f : Callee) (read : List Value)
    (args : List Expr) : (nextArgument s k again scope pos name f read args).Plain k := by
  cases args with
  | nil => exact apply_plain hagain pos name f _
  | cons e rest => exact ⟨rfl, rfl⟩

theorem call_plain {again : Machine} (hagain : (Step.next s again).Plain k) (scope : ScopeId)
    (pos : Position) (name : String) (args : List Expr) :
    (call s k again scope pos name args).Plain k := by
  unfold call
  cases callee s scope name with
  | ok f => exact nextArgument_plain hagain scope pos name f [] args
  | error x => exact ⟨rfl, rfl⟩

theorem nextItem_plain (scope : ScopeId) (read : List Value) (items : List Expr) :
    (nextItem s k scope read items).Plain k := by
  cases items <;> exact ⟨rfl, rfl⟩

theorem nextField_plain (scope : ScopeId) (read : Table Value) (fields : List (String × Expr)) :
    (nextField s k scope read fields).Plain k := by
  cases fields <;> exact ⟨rfl, rfl⟩

theorem eval_plain (scope : ScopeId) (e : Expr) : (eval s k scope e).Plain k := by
  cases e with
  | var pos x => exact settle_plain pos _
  | call pos name args =>
    have hagain : (Step.next s ⟨.eval (.call pos name args) scope, k⟩).Plain k := ⟨rfl, rfl⟩
    exact call_plain hagain scope pos name args
  | array pos items => exact nextItem_plain scope [] items
  | object pos fields => exact nextField_plain scope [] fields
  | template pos parts => exact settle_plain pos _
  | _ => exact ⟨rfl, rfl⟩

theorem nextRound_plain (scope : ScopeId) (body : Block) (next count : Nat) :
    (nextRound s k scope body next count).Plain k := by
  unfold nextRound
  split <;> exact ⟨rfl, rfl⟩

theorem nextEach_plain (scope : ScopeId) (name : String) (body : Block) (next : Nat)
    (items : List Value) : (nextEach s k scope name body next items).Plain k := by
  cases items <;> exact ⟨rfl, rfl⟩

theorem nextKey_plain (scope : ScopeId) (pos : Position) (name : String) (value : Value)
    (read : List Value.Key) (path : List Accessor) :
    (nextKey s k scope pos name value read path).Plain k := by
  induction path generalizing read with
  | nil =>
    unfold nextKey assign
    split
    · exact ⟨rfl, rfl⟩
    · split <;> exact ⟨rfl, rfl⟩
  | cons a rest ih =>
    cases a with
    | member x => exact ih _
    | index e => exact ⟨rfl, rfl⟩

theorem exec_plain (scope : ScopeId) {stmt : Stmt}
    (h : ∀ pos verb args into, stmt ≠ .host pos verb args into) : (exec s k scope stmt).Plain k := by
  cases stmt with
  | return_ pos e => cases e <;> exact ⟨rfl, rfl⟩
  | call pos f args =>
    have hagain : (Step.next s ⟨.eval (.call pos f args) scope, k⟩).Plain k := ⟨rfl, rfl⟩
    exact call_plain hagain scope pos f args
  | emit pos event e => cases e <;> exact ⟨rfl, rfl⟩
  | host pos verb args into => exact absurd rfl (h pos verb args into)
  | _ => exact ⟨rfl, rfl⟩

theorem takeValue_plain (v : Value) {f : ValueFrame} (h : (Frame.value f).gathers = false) :
    (takeValue s k v f).Plain k := by
  cases f with
  | left pos op r scope =>
    simp only [takeValue]
    split <;> exact ⟨rfl, rfl⟩
  | right pos op l => exact settle_plain pos _
  | operand pos op => exact settle_plain pos _
  | argument pos name f read rest scope =>
    have hagain : (Step.next s
        ⟨.value v, .value (.argument pos name f read rest scope) :: k⟩).Plain k := ⟨rfl, rfl⟩
    exact nextArgument_plain hagain scope pos name f (v :: read) rest
  | item read rest scope => exact nextItem_plain scope (v :: read) rest
  | field read key rest scope => exact nextField_plain scope _ rest
  | memberOf pos p => exact settle_plain pos _
  | index pos object => exact settle_plain pos _
  | assigned pos x path scope =>
    cases path with
    | nil => exact ⟨rfl, rfl⟩
    | cons a path => exact nextKey_plain scope pos x v [] (a :: path)
  | key pos x value read rest scope => exact nextKey_plain scope pos x value _ rest
  | condition yes no scope =>
    simp only [takeValue]
    split
    · exact ⟨rfl, rfl⟩
    · cases no <;> exact ⟨rfl, rfl⟩
  | count body scope => exact nextRound_plain scope body 0 _
  | test condition body scope =>
    simp only [takeValue]
    split <;> exact ⟨rfl, rfl⟩
  | collection pos x body scope =>
    simp only [takeValue]
    split
    · exact nextEach_plain scope x body 0 _
    · exact ⟨rfl, rfl⟩
  | hostArgument pos verb into read rest scope => cases h
  | _ => exact ⟨rfl, rfl⟩

theorem afterRound_plain (flow : Flow) {p : Session → Step} (h : (p s).Plain k) :
    (afterRound s k flow p).Plain k := by
  cases flow with
  | broken pos => exact ⟨rfl, rfl⟩
  | normal => exact h
  | continued pos => exact h
  | returned v => exact ⟨rfl, rfl⟩

theorem outside_plain (flow : Flow) :
    (match flow.outside with
      | .ok v => give s k v
      | .error r => .next s ⟨.raised r, k⟩ : Step).Plain k := by
  cases flow.outside <;> exact ⟨rfl, rfl⟩

theorem takeFlow_plain (flow : Flow) (f : FlowFrame) : (takeFlow s k flow f).Plain k := by
  cases f with
  | rest body scope => cases flow <;> exact ⟨rfl, rfl⟩
  | round inner next count body scope =>
    exact afterRound_plain flow (p := fun s => nextRound s k scope body next count)
      (nextRound_plain scope body next count)
  | again inner condition body scope =>
    exact afterRound_plain flow (p := fun s => nextTest s k scope condition body) ⟨rfl, rfl⟩
  | each inner x items next body scope =>
    exact afterRound_plain flow (p := fun s => nextEach s k scope x body next items)
      (nextEach_plain scope x body next items)
  | called inner f extra => exact outside_plain flow
  | attempt x handler scope => exact ⟨rfl, rfl⟩
  | caught inner => exact ⟨rfl, rfl⟩

theorem unwind_plain (r : Raised) (f : FlowFrame) : (unwind s k r f).Plain k := by
  cases f <;> exact ⟨rfl, rfl⟩

/-- **A step starts a host statement, takes an argument of one, or is plain.** -/
theorem step_plain (s : Session) (m : Machine) :
    (∃ pos verb args into body scope k,
      m = ⟨.block (.host pos verb args into :: body) scope, k⟩) ∨
    (∃ v pos verb into read rest scope k,
      m = ⟨.value v, .value (.hostArgument pos verb into read rest scope) :: k⟩) ∨
    (step s m).Plain m.rest := by
  obtain ⟨c, k⟩ := m
  cases c with
  | block body scope =>
    cases body with
    | nil => exact .inr (.inr ⟨rfl, rfl⟩)
    | cons stmt rest =>
      by_cases h : ∃ pos verb args into, stmt = .host pos verb args into
      · obtain ⟨pos, verb, args, into, rfl⟩ := h
        exact .inl ⟨pos, verb, args, into, rest, scope, k, rfl⟩
      · exact .inr (.inr (exec_plain (k := .flow (.rest rest scope) :: k) scope
          fun pos verb args into heq => h ⟨pos, verb, args, into, heq⟩))
  | eval e scope => exact .inr (.inr (eval_plain scope e))
  | asking pos command into scope => exact .inr (.inr trivial)
  | replied pos verb reply into scope =>
    cases reply with
    | error reason => exact .inr (.inr ⟨rfl, rfl⟩)
    | ok v => cases into <;> exact .inr (.inr ⟨rfl, rfl⟩)
  | value v =>
    rcases k with _ | ⟨f | f, k⟩
    · exact .inr (.inr trivial)
    · cases hf : (Frame.value f).gathers with
      | false => exact .inr (.inr (takeValue_plain v hf))
      | true =>
        cases f with
        | hostArgument pos verb into read rest scope =>
          exact .inr (.inl ⟨v, pos, verb, into, read, rest, scope, k, rfl⟩)
        | _ => cases hf
    · exact .inr (.inr ⟨rfl, rfl⟩)
  | flow flow =>
    rcases k with _ | ⟨f | f, k⟩
    · exact .inr (.inr trivial)
    · exact .inr (.inr (outside_plain flow))
    · exact .inr (.inr (takeFlow_plain flow f))
  | raised r =>
    rcases k with _ | ⟨f | f, k⟩
    · exact .inr (.inr trivial)
    · exact .inr (.inr ⟨rfl, rfl⟩)
    · exact .inr (.inr (unwind_plain r f))

end Machine

/-! ## Computing arguments -/

/-- From `s` and `m`, steps that leave the frames `k` alone lead to a session and a machine. Between
steps the host may reply, take an event, define a variable, hold functions and let go of them. -/
inductive Computes (k : List Frame) (s : Session) (m : Machine) : Session → Machine → Prop
  | start : Computes k s m s m
  | step {s₁ s₂ : Session} {m₁ m₂ : Machine} : Computes k s m s₁ m₁ → k <:+ m₁.rest →
      Machine.step s₁ m₁ = .next s₂ m₂ → Computes k s m s₂ m₂
  | reply {s₁ : Session} {m₁ : Machine} (r : Reply) :
      Computes k s m s₁ m₁ → Computes k s m s₁ (m₁.answer r)
  | taken {s₁ s₂ : Session} {m₁ : Machine} {e : Event} :
      Computes k s m s₁ m₁ → s₁.nextEmitted? = some (e, s₂) → Computes k s m s₂ m₁
  | defined {s₁ : Session} {m₁ : Machine} (x : String) (v : Value) :
      Computes k s m s₁ m₁ → Computes k s m (s₁.defineGlobal x v) m₁
  | lent {s₁ : Session} {m₁ : Machine} (x : String) :
      Computes k s m s₁ m₁ → Computes k s m (s₁.lend x) m₁
  | takenBack {s₁ : Session} {m₁ : Machine} (n : Nat) :
      Computes k s m s₁ m₁ → Computes k s m (s₁.takeBack n) m₁

/-- One after the other, the expressions were computed in a scope with these values as results. -/
inductive Evaluated (scope : ScopeId) (s : Session) : List Expr → List Value → Session → Prop
  | nothing : Evaluated scope s [] [] s
  | next {es : List Expr} {vs : List Value} {s₁ s₂ : Session} {e : Expr} {v : Value}
      {k : List Frame} : Evaluated scope s es vs s₁ →
      Computes k s₁ ⟨.eval e scope, k⟩ s₂ ⟨.value v, k⟩ →
      Evaluated scope s (es ++ [e]) (vs ++ [v]) s₂

theorem Evaluated.length_eq {scope : ScopeId} {s s' : Session} {es : List Expr} {vs : List Value}
    (h : Evaluated scope s es vs s') : vs.length = es.length := by
  induction h with
  | nothing => rfl
  | next _ _ ih => simp [ih]

/-- The frame on top of a stack holds the values of the first arguments of a host statement of the
code, and since the next argument was started nothing below was touched. -/
def Holds (code : Set Block) (s : Session) (m : Machine) : List Frame → Prop
  | .value (.hostArgument pos verb into read rest scope) :: k =>
    ∃ looped es e s₀ s₁, (looped, .host pos verb (es ++ e :: rest) into) ∈ sitesOf code ∧
      Evaluated scope s₀ es read.reverse s₁ ∧
      Computes (.value (.hostArgument pos verb into read rest scope) :: k) s₁
        ⟨.eval e scope, .value (.hostArgument pos verb into read rest scope) :: k⟩ s m
  | _ => True

/-- The command in control was built from the values of all arguments of a host statement. -/
def Control.Built (code : Set Block) : Control → Prop
  | asking pos c into scope =>
    ∃ looped verb args vs s₀ s₁, (looped, .host pos verb args into) ∈ sitesOf code ∧
      Evaluated scope s₀ args vs s₁ ∧ Command.ofArgs verb vs = .ok c
  | replied pos verb _ into _ => ∃ looped args, (looped, .host pos verb args into) ∈ sitesOf code
  | _ => True

structure Machine.Gathers (code : Set Block) (s : Session) (m : Machine) : Prop where
  frames : ∀ k, k <:+ m.stack → Holds code s m k
  control : m.control.Built code

section
variable {code : Set Block} {s s' : Session} {m m' : Machine} {k : List Frame}

theorem Holds.mono (h : Holds code s m k)
    (hmono : ∀ {s₀ m₀}, Computes k s₀ m₀ s m → Computes k s₀ m₀ s' m') : Holds code s' m' k := by
  unfold Holds at h ⊢
  split
  · obtain ⟨looped, es, e, s₀, s₁, hsite, hread, hcomputes⟩ := h
    exact ⟨looped, es, e, s₀, s₁, hsite, hread, hmono hcomputes⟩
  · trivial

theorem holds_of_not_gathers {f : Frame} (h : f.gathers = false) : Holds code s m (f :: k) := by
  rcases f with f | f
  · cases f <;> trivial
  · trivial

theorem Control.built_of_not_withHost {c : Control} (h : c.withHost = false) : c.Built code := by
  cases c <;> trivial

/-- What stands on top of frames that hold no arguments. -/
theorem holds_append {fs : List Frame} (hfs : fs.filter Frame.gathers = [])
    (hk : ∀ j, j <:+ k → Holds code s m j) {j : List Frame} (hj : j <:+ fs ++ k) :
    Holds code s m j := by
  induction fs with
  | nil => exact hk j hj
  | cons f fs ih =>
    have hf : f.gathers = false := by
      by_contra hf
      simp [hf] at hfs
    rcases List.suffix_cons_iff.mp hj with rfl | hj
    · exact holds_of_not_gathers hf
    · exact ih (by simpa [hf] using hfs) hj

namespace Machine

theorem gathers_ofBlock (code : Set Block) (s : Session) (b : Block) (scope : ScopeId) :
    (ofBlock b scope).Gathers code s where
  frames k hk := by
    obtain rfl : k = [] := List.suffix_nil.mp hk
    trivial
  control := trivial

theorem nextHostArgument_gathers {looped : Bool} {pos : Position} {verb : Verb}
    {into : Option String} {es rest : List Expr}
    (hsite : (looped, .host pos verb (es ++ rest) into) ∈ sitesOf code) {scope : ScopeId}
    {s₀ : Session} {read : List Value} (hread : Evaluated scope s₀ es read.reverse s)
    (hk : ∀ j, j <:+ k → Holds code s' m' j)
    (h : nextHostArgument s k scope pos verb into read rest = .next s' m') : m'.Gathers code s' := by
  cases rest with
  | nil =>
    rw [List.append_nil] at hsite
    simp only [nextHostArgument] at h
    split at h
    · next c hc =>
      cases h
      exact ⟨hk, looped, verb, es, read.reverse, s₀, s, hsite, hread, hc⟩
    · cases h
      exact ⟨hk, trivial⟩
  | cons e rest =>
    cases h
    refine ⟨fun j hj => ?_, trivial⟩
    rcases List.suffix_cons_iff.mp hj with rfl | hj
    · exact ⟨looped, es, e, s₀, s, hsite, hread, .start⟩
    · exact hk j hj

theorem rest_suffix (m : Machine) : m.rest <:+ m.stack := ⟨m.taken?.toList, m.stack_eq.symm⟩

/-- **A step keeps what was gathered**, and adds the value that comes to a frame. -/
theorem next_gathers (hm : m.PartOf code) (h : m.Gathers code s) (hstep : step s m = .next s' m') :
    m'.Gathers code s' := by
  have hkept : ∀ j, j <:+ m.rest → Holds code s' m' j := fun j hj =>
    (h.frames j (hj.trans m.rest_suffix)).mono fun hcomputes => .step hcomputes hj hstep
  rcases step_plain s m with ⟨pos, verb, args, into, body, scope, k, rfl⟩ |
    ⟨v, pos, verb, into, read, rest, scope, k, rfl⟩ | hplain
  · have hsite : (inLoop k, Stmt.host pos verb ([] ++ args) into) ∈ sitesOf code :=
      BodyOf.site hm.control
    have hrest : [Frame.flow (.rest body scope)].filter Frame.gathers = [] := rfl
    exact nextHostArgument_gathers hsite .nothing (fun j hj => holds_append hrest hkept hj) hstep
  · obtain ⟨looped, es, e, s₀, s₁, hsite, hread, hcomputes⟩ := h.frames _ (List.suffix_refl _)
    have hread' : Evaluated scope s₀ (es ++ [e]) (v :: read).reverse s := by
      rw [List.reverse_cons]
      exact hread.next hcomputes
    exact nextHostArgument_gathers (by simpa using hsite) hread' hkept hstep
  · rw [hstep] at hplain
    obtain ⟨s₁, fs, -, -, hstack⟩ := step_from hstep
    obtain ⟨hcontrol, hfilter⟩ := hplain
    refine ⟨fun j hj => ?_, Control.built_of_not_withHost hcontrol⟩
    rw [hstack] at hj
    rw [hstack, List.filter_append, List.append_left_eq_self] at hfilter
    exact holds_append hfilter hkept hj

theorem answer_gathers (h : m.Gathers code s) (r : Reply) : (m.answer r).Gathers code s := by
  refine ⟨fun j hj => ?_, ?_⟩
  · rw [stack_answer] at hj
    exact (h.frames j hj).mono fun hcomputes => .reply r hcomputes
  · have hcontrol := h.control
    unfold answer
    split
    · next pos c into scope hc =>
      rw [hc] at hcontrol
      obtain ⟨looped, verb, args, vs, s₀, s₁, hsite, -, hbuilt⟩ := hcontrol
      exact ⟨looped, args, by rwa [Command.verb_of_ofArgs hbuilt]⟩
    · exact hcontrol

/-- Where a run rests, arguments are as gathered as anywhere. -/
def Rest.Gathers (code : Set Block) : Machine.Rest → Prop
  | .unfinished s m | .asks _ s m => m.Gathers code s
  | .done _ _ => True

theorem run_gathers (n : Nat) (hs : s.PartOf code) (hm : m.PartOf code) (h : m.Gathers code s) :
    (run n s m).Gathers code := by
  induction n generalizing s m with
  | zero => exact h
  | succ n ih =>
    have hpart := step_partOf hs hm
    unfold run
    cases hstep : step s m with
    | next s' m' =>
      rw [hstep] at hpart
      exact ih hpart.1 hpart.2 (next_gathers hm h hstep)
    | ask command s' m' =>
      rcases step_cases s m with hfrom | ⟨command', hask⟩ | ⟨-, -, r, hdone⟩
      · rw [hstep] at hfrom
        exact hfrom.elim
      · rw [hstep] at hask
        cases hask
        exact h
      · rw [hstep] at hdone
        cases hdone
    | done s' r => trivial

end Machine

end

end DeskScript
