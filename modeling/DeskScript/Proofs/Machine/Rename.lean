import DeskScript.Proofs.Value.Blind

/-!
# Machines up to the numbers of their scopes

Renaming the scopes of a machine renames the scopes that its frames go on in, the
scopes that they end, and the functions they hold. Only these matter:

    (∀ e ∈ k.flatMap Frame.mentions, ρ e = τ e) → renameStack ρ k = renameStack τ k
                                                                   (renameStack_congr)
-/

namespace DeskScript

/-! ## Renaming -/

section
variable (ρ : Renaming)

def Flow.rename : Flow → Flow
  | returned v => .returned (v.rename ρ)
  | f => f

def Callee.rename : Callee → Callee
  | function f => .function { f with scope := ρ f.scope }
  | native f => .native f

def ValueFrame.rename : ValueFrame → ValueFrame
  | left pos op r e => .left pos op r (ρ e)
  | right pos op v => .right pos op (v.rename ρ)
  | decided v => .decided (v.rename ρ)
  | operand pos op => .operand pos op
  | argument pos x f read rest e =>
    .argument pos x (f.rename ρ) (read.map (Value.rename ρ)) rest (ρ e)
  | item read rest e => .item (read.map (Value.rename ρ)) rest (ρ e)
  | field read k rest e => .field (Table.mapValues (Value.rename ρ) read) k rest (ρ e)
  | memberOf pos p => .memberOf pos p
  | indexed pos i e => .indexed pos i (ρ e)
  | index pos v => .index pos (v.rename ρ)
  | assigned pos x path e => .assigned pos x path (ρ e)
  | key pos x v read rest e =>
    .key pos x (v.rename ρ) (read.map (Value.Key.rename ρ)) rest (ρ e)
  | printed => .printed
  | condition yes no e => .condition yes no (ρ e)
  | count b e => .count b (ρ e)
  | test c b e => .test c b (ρ e)
  | collection pos x b e => .collection pos x b (ρ e)
  | result => .result
  | thrown pos => .thrown pos
  | payload event => .payload event
  | hostArgument pos verb into read rest e =>
    .hostArgument pos verb into (read.map (Value.rename ρ)) rest (ρ e)

def FlowFrame.rename : FlowFrame → FlowFrame
  | rest b e => .rest b (ρ e)
  | round i next count b e => .round (ρ i) next count b (ρ e)
  | again i c b e => .again (ρ i) c b (ρ e)
  | each i x items next b e => .each (ρ i) x (items.map (Value.rename ρ)) next b (ρ e)
  | called i f extra =>
    .called (ρ i) { f with scope := ρ f.scope } (extra.map (Value.rename ρ))
  | attempt x b e => .attempt x b (ρ e)
  | caught i => .caught (ρ i)

def Frame.rename : Frame → Frame
  | value f => .value (f.rename ρ)
  | flow f => .flow (f.rename ρ)

def renameStack (k : List Frame) : List Frame := k.map (Frame.rename ρ)

def Control.rename : Control → Control
  | block b e => .block b (ρ e)
  | eval x e => .eval x (ρ e)
  | value v => .value (v.rename ρ)
  | flow f => .flow (f.rename ρ)
  | raised r => .raised r
  | asking pos c into e => .asking pos c into (ρ e)
  | replied pos verb reply into e => .replied pos verb (reply.map (Value.rename ρ)) into (ρ e)

def Machine.rename (m : Machine) : Machine := ⟨m.control.rename ρ, renameStack ρ m.stack⟩

def Handler.rename (h : Handler) : Handler := { h with scope := ρ h.scope }

def Job.rename : Job → Job
  | main => .main
  | handler i payload rest faults => .handler (ρ i) payload (rest.map (Handler.rename ρ)) faults

def Task.rename (t : Task) : Task := ⟨t.machine.rename ρ, t.job.rename ρ⟩

def Progress.rename : Progress → Progress
  | .busy t => .busy (t.rename ρ)
  | .over faults => .over faults

end

/-- The same session with another arena, where scopes have other numbers. -/
def Session.twin (s : Session) (ρ : Renaming) (b : Arena) : Session :=
  { s with scopes := b, handlers := s.handlers.map (Handler.rename ρ), lent := s.lent.map ρ }

theorem Session.handles_twin (s : Session) (ρ : Renaming) (b : Arena) (n : ScopeId) :
    (s.twin ρ b).handles n = ρ (s.handles n) := by
  cases n with
  | zero => exact ρ.apply_root.symm
  | succ n =>
    show (s.lent.map ρ).getD n Arena.root = ρ (s.lent.getD n Arena.root)
    rw [List.getD_eq_getElem?_getD, List.getD_eq_getElem?_getD, List.getElem?_map]
    cases s.lent[n]? with
    | none => exact ρ.apply_root.symm
    | some e => rfl

/-- A function that the host hands over is of the root, or one that it holds. -/
theorem Session.mem_handles (s : Session) (n : ScopeId) :
    s.handles n = Arena.root ∨ s.handles n ∈ s.lent := by
  cases n with
  | zero => exact Or.inl rfl
  | succ n =>
    show s.lent.getD n Arena.root = Arena.root ∨ s.lent.getD n Arena.root ∈ s.lent
    rw [List.getD_eq_getElem?_getD]
    cases h : s.lent[n]? with
    | none => exact Or.inl rfl
    | some e => exact Or.inr (List.mem_of_getElem? h)

/-! ## The scopes that a frame mentions -/

/-- The scope that a frame goes on in. -/
def ValueFrame.scope? : ValueFrame → Option ScopeId
  | left _ _ _ e | argument _ _ _ _ _ e | item _ _ e | field _ _ _ e | indexed _ _ e
  | assigned _ _ _ e | key _ _ _ _ _ e | condition _ _ e | count _ e | test _ _ e
  | collection _ _ _ e | hostArgument _ _ _ _ _ e => some e
  | _ => none

/-- The scope that a frame goes on in. -/
def FlowFrame.scope? : FlowFrame → Option ScopeId
  | rest _ e | round _ _ _ _ e | again _ _ _ e | each _ _ _ _ _ e | attempt _ _ e => some e
  | called _ _ _ | caught _ => none

/-- The scope that ends with a frame. -/
def FlowFrame.inner? : FlowFrame → Option ScopeId
  | round i _ _ _ _ | again i _ _ _ | each i _ _ _ _ _ | called i _ _ | caught i => some i
  | rest _ _ | attempt _ _ _ => none

def Frame.scope? : Frame → Option ScopeId
  | value f => f.scope?
  | flow f => f.scope?

def Frame.inner? : Frame → Option ScopeId
  | value _ => none
  | flow f => f.inner?

def Frame.mentions (f : Frame) : List ScopeId := f.scope?.toList ++ f.inner?.toList ++ f.held

section
variable {ρ τ : Renaming}

theorem map_rename_congr {vs : List Value} (h : ∀ e ∈ heldBy vs, ρ e = τ e) :
    vs.map (Value.rename ρ) = vs.map (Value.rename τ) := by
  refine List.map_congr_left fun v hv => Value.rename_congr v fun e he => h e ?_
  exact List.mem_flatMap.mpr ⟨v, hv, he⟩

theorem mapValues_rename_congr {t : Table Value} (h : ∀ e ∈ heldBy (t.map (·.2)), ρ e = τ e) :
    Table.mapValues (Value.rename ρ) t = Table.mapValues (Value.rename τ) t := by
  refine List.map_congr_left fun p hp => ?_
  rw [Value.rename_congr p.2 fun e he => h e ?_]
  exact List.mem_flatMap.mpr ⟨p.2, List.mem_map_of_mem hp, he⟩

theorem Value.Key.rename_congr {key : Value.Key} (h : ∀ e ∈ key.held, ρ e = τ e) :
    key.rename ρ = key.rename τ := by
  cases key with
  | member x => rfl
  | index v => rw [Value.Key.rename, Value.Key.rename, Value.rename_congr v h]

theorem Callee.rename_congr {f : Callee} (h : ∀ e ∈ f.held, ρ e = τ e) :
    f.rename ρ = f.rename τ := by
  cases f with
  | function f => rw [Callee.rename, Callee.rename, h f.scope (by simp [Callee.held])]
  | native f => rfl

theorem ValueFrame.rename_congr {f : ValueFrame} (hs : ∀ e ∈ f.scope?, ρ e = τ e)
    (hh : ∀ e ∈ f.held, ρ e = τ e) : f.rename ρ = f.rename τ := by
  cases f with
  | right pos op v => rw [ValueFrame.rename, ValueFrame.rename, Value.rename_congr v hh]
  | decided v => rw [ValueFrame.rename, ValueFrame.rename, Value.rename_congr v hh]
  | index pos v => rw [ValueFrame.rename, ValueFrame.rename, Value.rename_congr v hh]
  | argument pos x f read rest e =>
    have hf : f.rename ρ = f.rename τ :=
      Callee.rename_congr fun e he => hh e (List.mem_append_left _ he)
    have hread : read.map (Value.rename ρ) = read.map (Value.rename τ) :=
      map_rename_congr fun e he => hh e (List.mem_append_right _ he)
    rw [ValueFrame.rename, ValueFrame.rename, hf, hread, hs e rfl]
  | item read rest e => rw [ValueFrame.rename, ValueFrame.rename, map_rename_congr hh, hs e rfl]
  | hostArgument pos verb into read rest e =>
    rw [ValueFrame.rename, ValueFrame.rename, map_rename_congr hh, hs e rfl]
  | field read k rest e =>
    rw [ValueFrame.rename, ValueFrame.rename, mapValues_rename_congr hh, hs e rfl]
  | key pos x v read rest e =>
    have hv := Value.rename_congr v fun e he => hh e (List.mem_append_left _ he)
    have hread : read.map (Value.Key.rename ρ) = read.map (Value.Key.rename τ) :=
      List.map_congr_left fun key hkey => Value.Key.rename_congr fun e he =>
        hh e (List.mem_append_right _ (List.mem_flatMap.mpr ⟨key, hkey, he⟩))
    rw [ValueFrame.rename, ValueFrame.rename, hv, hread, hs e rfl]
  | _ => simp_all [ValueFrame.rename, ValueFrame.scope?]

theorem FlowFrame.rename_congr {f : FlowFrame} (hs : ∀ e ∈ f.scope?, ρ e = τ e)
    (hi : ∀ e ∈ f.inner?, ρ e = τ e) (hh : ∀ e ∈ f.held, ρ e = τ e) :
    f.rename ρ = f.rename τ := by
  cases f with
  | each i x items next b e =>
    rw [FlowFrame.rename, FlowFrame.rename, map_rename_congr hh, hs e rfl, hi i rfl]
  | called i f extra =>
    have hextra : extra.map (Value.rename ρ) = extra.map (Value.rename τ) :=
      map_rename_congr fun e he => hh e (List.mem_cons_of_mem _ he)
    rw [FlowFrame.rename, FlowFrame.rename, hextra, hh f.scope List.mem_cons_self, hi i rfl]
  | _ => simp_all [FlowFrame.rename, FlowFrame.scope?, FlowFrame.inner?]

theorem Frame.rename_congr {f : Frame} (h : ∀ e ∈ f.mentions, ρ e = τ e) :
    f.rename ρ = f.rename τ := by
  have hs : ∀ e ∈ f.scope?, ρ e = τ e := fun e he => h e (by simp_all [Frame.mentions])
  have hi : ∀ e ∈ f.inner?, ρ e = τ e := fun e he => h e (by simp_all [Frame.mentions])
  have hh : ∀ e ∈ f.held, ρ e = τ e := fun e he => h e (List.mem_append_right _ he)
  cases f with
  | value f => exact congrArg Frame.value (ValueFrame.rename_congr hs hh)
  | flow f => exact congrArg Frame.flow (FlowFrame.rename_congr hs hi hh)

theorem renameStack_congr {k : List Frame} (h : ∀ e ∈ k.flatMap Frame.mentions, ρ e = τ e) :
    renameStack ρ k = renameStack τ k :=
  List.map_congr_left fun f hf => Frame.rename_congr fun e he =>
    h e (List.mem_flatMap.mpr ⟨f, hf, he⟩)

end

/-! ## What steps compute from values -/

section
variable (ρ : Renaming)

theorem Flow.outside_rename (f : Flow) : (f.rename ρ).outside = f.outside.map (Value.rename ρ) := by
  cases f <;> simp [Flow.rename, Flow.outside, Except.map]

theorem Flow.held_outside {f : Flow} {v : Value} (h : f.outside = .ok v) :
    ∀ e ∈ v.scopes, e ∈ f.held := by
  cases f with
  | normal =>
    obtain rfl := Except.ok.inj h
    simp
  | returned w =>
    obtain rfl := Except.ok.inj h
    exact fun e he => he
  | broken pos => cases h
  | continued pos => cases h

namespace Machine

@[simp] theorem loopCount_rename (v : Value) : loopCount (v.rename ρ) = loopCount v := by
  simp [loopCount]

theorem iterated_rename (v : Value) :
    iterated (v.rename ρ) = (iterated v).map (List.map (Value.rename ρ)) := by
  cases v <;> simp [iterated, Except.map, Table.names_mapValues, Value.type]

theorem held_iterated {v : Value} {items : List Value} (h : iterated v = .ok items) :
    ∀ e ∈ heldBy items, e ∈ v.scopes := by
  cases v with
  | array vs =>
    obtain rfl := Except.ok.inj h
    simp [heldBy]
  | object fields =>
    obtain rfl := Except.ok.inj h
    simp [heldBy]
  | string s =>
    obtain rfl := Except.ok.inj h
    simp [heldBy, Value.characters]
  | _ => cases h

@[simp] theorem thrownMessage_rename (v : Value) :
    thrownMessage (v.rename ρ) = thrownMessage v := by
  cases v with
  | object fields =>
    simp only [Value.rename_object, thrownMessage, Table.get?_mapValues]
    cases Table.get? fields "message" with
    | none => rw [Option.map_none, ← Value.rename_object, Value.display_rename]
    | some w => simp
  | _ => simp [thrownMessage]

theorem parameters_rename (params : List String) (args : List Value) :
    parameters params (args.map (Value.rename ρ)) =
      Table.mapValues (Value.rename ρ) (parameters params args) := by
  induction params generalizing args with
  | nil => rfl
  | cons p ps ih =>
    cases args with
    | nil => simpa [parameters, Table.mapValues] using ih []
    | cons v vs => simpa [parameters, Table.mapValues] using ih vs

theorem held_parameters {params : List String} {args : List Value} {b : String × Value}
    (hb : b ∈ parameters params args) : ∀ e ∈ b.2.scopes, e ∈ heldBy args := by
  induction params generalizing args with
  | nil => cases hb
  | cons p ps ih =>
    cases args with
    | nil =>
      rcases List.mem_cons.mp hb with rfl | hb
      · simp
      · exact ih hb
    | cons v vs =>
      rcases List.mem_cons.mp hb with rfl | hb
      · exact fun e he => List.mem_append_left _ he
      · exact fun e he => List.mem_append_right _ (ih hb e he)

end Machine

theorem Command.seconds_rename (arg : Value) :
    Command.seconds (arg.rename ρ) = Command.seconds arg := by
  simp [Command.seconds]

theorem Command.ofArgs_rename (verb : Verb) (args : List Value) :
    Command.ofArgs verb (args.map (Value.rename ρ)) = Command.ofArgs verb args := by
  have hfirst : (args[0]?.map (Value.rename ρ)).getD .null = Value.rename ρ (args[0]?.getD .null) := by
    cases args[0]? <;> simp
  cases verb <;>
    simp only [Command.ofArgs, hfirst, Command.seconds_rename, List.getElem?_map, Option.map_map,
      Function.comp_def, Value.text_rename]

end

end DeskScript
