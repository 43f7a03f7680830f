import DeskScript.Machine.Step

/-!
# Who complains of too many calls

Only the call of a function does. Operations on values, commands and the standard
native functions have faults of other kinds:

    Mild (Value.binary op v w)                                     (Value.binary_mild)
    Natives.Meek Native.standard                                  (Native.standard_meek)
-/

namespace DeskScript

/-- A result that is no complaint about too many calls. -/
def Mild {α : Type} (r : Except Fault α) : Prop :=
  ∀ x, r = .error x → x.kind ≠ .recursionLimit

section
variable {α β : Type}

theorem mild_ok (a : α) : Mild (.ok a : Except Fault α) := by
  intro x hx
  cases hx

theorem mild_error {x : Fault} (h : x.kind ≠ .recursionLimit) : Mild (.error x : Except Fault α) := by
  intro y hy
  rw [← Except.error.inj hy]
  exact h

theorem mild_mismatch (m : Mismatch) : Mild (.error (.mismatch m) : Except Fault α) :=
  mild_error (by simp [Fault.kind])

theorem Mild.bind {r : Except Fault α} {f : α → Except Fault β} (h : Mild r)
    (hf : ∀ a, Mild (f a)) : Mild (r >>= f) := by
  cases r with
  | error x => exact fun y hy => h y (by rw [Except.error.inj hy])
  | ok a => exact hf a

theorem Mild.map {r : Except Fault α} (h : Mild r) (f : α → β) : Mild (f <$> r) := by
  cases r with
  | error x => exact fun y hy => h y (by rw [Except.error.inj hy])
  | ok a => exact mild_ok _

theorem Mild.elim {r : Except Fault α} (h : Mild r) {P : Prop} {x : Fault} (hx : r = .error x)
    (hk : x.kind = .recursionLimit) : P :=
  absurd hk (h x hx)

end

/-! ## Values -/

namespace Value

theorem binary_mild (op : BinaryOp) (v w : Value) : Mild (binary op v w) := by
  have hadd : Mild (add v w) := by
    unfold add
    split <;> first | exact mild_ok _ | exact mild_mismatch _
  have harithmetic : Mild (arithmetic op v w) := by
    unfold arithmetic
    repeat' split
    all_goals first | exact mild_ok _ | exact mild_mismatch _ | exact mild_error (by decide)
  have hcompare : Mild (compare op v w) := by
    unfold compare
    split <;> first | exact mild_ok _ | exact mild_mismatch _
  cases op <;> first | exact mild_ok _ | exact hadd | exact harithmetic | exact hcompare

theorem unary_mild (op : UnaryOp) (v : Value) : Mild (unary op v) := by
  unfold unary
  split <;> first | exact mild_ok _ | exact mild_mismatch _

theorem member_mild (v : Value) (property : String) : Mild (v.member property) := by
  unfold member
  repeat' split
  all_goals first | exact mild_ok _ | exact mild_mismatch _

theorem position_mild (n : Float) (length : Nat) : Mild (position n length) := by
  unfold position
  split
  · exact mild_error (by simp [Fault.kind])
  · exact mild_ok _

theorem at_mild (v index : Value) : Mild (v.at_ index) := by
  unfold at_
  split <;> first
    | exact mild_ok _
    | exact mild_mismatch _
    | exact (position_mild _ _).bind fun _ => mild_ok _

theorem assign_mild (x : Value) (path : List Key) (v : Value) : Mild (assign x path v) := by
  induction path generalizing v with
  | nil => exact mild_ok x
  | cons key path ih =>
    unfold assign
    split
    · split
      · exact mild_mismatch _
      · split
        · exact mild_ok _
        · exact mild_mismatch _
        · exact (ih _).bind fun _ => mild_ok _
    · exact (position_mild _ _).bind fun _ => (ih _).bind fun _ => mild_ok _
    all_goals exact mild_mismatch _

end Value

/-! ## What steps compute -/

theorem Command.ofArgs_mild (verb : Verb) (args : List Value) : Mild (ofArgs verb args) := by
  cases verb
  case wait =>
    refine Mild.map (r := seconds _) ?_ wait
    unfold seconds
    split
    · exact mild_ok _
    · exact mild_mismatch _
  all_goals exact mild_ok _

theorem Flow.outside_mild {f : Flow} {r : Raised} (h : f.outside = .error r) :
    r.fault.kind ≠ .recursionLimit := by
  cases f <;> simp only [outside, reduceCtorEq, Except.error.injEq] at h <;> subst h <;>
    simp [Fault.kind]

namespace Machine

theorem lookup_mild (s : Session) (scope : ScopeId) (x : String) : Mild (lookup s scope x) := by
  unfold lookup
  split
  · exact mild_ok _
  · exact mild_error (by simp [Fault.kind])

theorem templateText_mild (s : Session) (scope : ScopeId) (text : String) (parts : List TextPart) :
    Mild (templateText s scope text parts) := by
  induction parts generalizing text with
  | nil => exact mild_ok _
  | cons p parts ih =>
    cases p with
    | text t => exact ih _
    | var x => exact (lookup_mild s scope x).bind fun _ => ih _

theorem iterated_mild (v : Value) : Mild (iterated v) := by
  unfold iterated
  split <;> first | exact mild_ok _ | exact mild_mismatch _

theorem callee_mild (s : Session) (scope : ScopeId) (name : String) :
    Mild (callee s scope name) := by
  unfold callee
  split
  · exact mild_ok _
  · split
    · exact mild_ok _
    · exact mild_mismatch _
    · exact mild_error (by simp [Fault.kind])

end Machine

/-! ## Native functions -/

namespace Native

theorem numberArg_mild (function : String) (arg : Option Value) : Mild (numberArg function arg) := by
  unfold numberArg
  split
  · exact mild_ok _
  · exact mild_mismatch _

theorem stringArg_mild (function : String) (arg : Option Value) : Mild (stringArg function arg) := by
  unfold stringArg
  split
  · exact mild_ok _
  · exact mild_mismatch _

theorem arrayArg_mild (function : String) (arg : Option Value) : Mild (arrayArg function arg) := by
  unfold arrayArg
  split
  · exact mild_ok _
  · exact mild_mismatch _

theorem objectArg_mild (function : String) (arg : Option Value) : Mild (objectArg function arg) := by
  unfold objectArg
  split
  · exact mild_ok _
  · exact mild_mismatch _

/-- A function that never complains of too many calls. -/
def Meek (f : Native) : Prop := ∀ args r, f args = some r → Mild r

theorem total_meek {f : List Value → Except Fault Value} (h : ∀ args, Mild (f args)) :
    (total f).Meek := by
  intro args r hr
  rw [← Option.some.inj hr]
  exact h args

theorem ofNumber_mild (function : String) (f : Float → Float) (args : List Value) :
    Mild (ofNumber function f args) :=
  (numberArg_mild _ _).bind fun _ => mild_ok _

theorem ofString_mild (function : String) (f : String → String) (args : List Value) :
    Mild (ofString function f args) :=
  (stringArg_mild _ _).bind fun _ => mild_ok _

theorem num_mild (args : List Value) : Mild (num args) := by
  unfold num
  repeat' split
  all_goals first | exact mild_ok _ | exact mild_mismatch _

theorem better_mild (function : String) (pick : Float → Float → Float) (best : Option Float)
    (v : Value) : Mild (better function pick best v) := by
  unfold better
  split
  · exact mild_ok _
  · exact mild_mismatch _

theorem extreme_mild (function : String) (pick : Float → Float → Float) (args : List Value) :
    Mild (extreme function pick args) := by
  have hfold : ∀ (vs : List Value) (best : Option Float),
      Mild (vs.foldlM (better function pick) best) := by
    intro vs
    induction vs with
    | nil => exact fun best => mild_ok best
    | cons v vs ih => exact fun best => (better_mild function pick best v).bind ih
  exact (hfold _ none).bind fun _ => mild_ok _

theorem range_meek : Meek range := by
  have hnumber : ∀ v, Mild (numberArg "range" v) := numberArg_mild "range"
  intro args r hr
  unfold range at hr
  extract_lets bounds at hr
  have hbounds : Mild bounds := by
    unfold bounds
    split
    · exact (hnumber _).bind fun _ => (hnumber _).bind fun _ => mild_ok _
    · exact (hnumber _).bind fun _ => mild_ok _
  clear_value bounds
  split at hr
  · next x =>
    rw [← Option.some.inj hr]
    exact mild_error (hbounds x rfl)
  · extract_lets at hr
    split at hr
    · rw [← Option.some.inj hr]
      exact mild_error (by simp [Fault.kind])
    · obtain ⟨items, -, rfl⟩ := Option.map_eq_some_iff.mp hr
      exact mild_ok _

theorem len_mild (args : List Value) : Mild (len args) := by
  unfold len
  split <;> first | exact mild_ok _ | exact mild_mismatch _

theorem contains_mild (args : List Value) : Mild (contains args) := by
  unfold contains
  split <;> first | exact mild_ok _ | exact mild_mismatch _

end Native

/-- Native functions none of which complains of too many calls. -/
def Natives.Meek (natives : Natives) : Prop := ∀ p ∈ natives, Native.Meek p.2

theorem Native.standard_meek : Natives.Meek Native.standard := by
  have hnumber : ∀ function f, (total (ofNumber function f)).Meek := fun function f =>
    total_meek (ofNumber_mild function f)
  have hstring : ∀ function f, (total (ofString function f)).Meek := fun function f =>
    total_meek (ofString_mild function f)
  have hextreme : ∀ function pick, (total (extreme function pick)).Meek := fun function pick =>
    total_meek (extreme_mild function pick)
  have hsplit : (total split).Meek :=
    total_meek fun args => (stringArg_mild _ _).bind fun _ => mild_ok _
  have hjoin : (total join).Meek :=
    total_meek fun args => (arrayArg_mild _ _).bind fun _ => mild_ok _
  have hkeys : (total keys).Meek :=
    total_meek fun args => (objectArg_mild _ _).bind fun _ => mild_ok _
  have hvalues : (total values).Meek :=
    total_meek fun args => (objectArg_mild _ _).bind fun _ => mild_ok _
  have hpush : (total push).Meek :=
    total_meek fun args => (arrayArg_mild _ _).bind fun _ => mild_ok _
  simp only [Natives.Meek, standard, List.forall_mem_cons]
  refine ⟨hnumber _ _, hnumber _ _, total_meek contains_mild, hnumber _ _, hnumber _ _, hjoin,
    hkeys, total_meek len_mild, hstring _ _, hextreme _ _, hextreme _ _, total_meek num_mild, hpush,
    range_meek, hnumber _ _, hsplit, total_meek fun _ => mild_ok _, hstring _ _,
    total_meek fun _ => mild_ok _, hstring _ _, hvalues, ?_⟩
  simp

end DeskScript
