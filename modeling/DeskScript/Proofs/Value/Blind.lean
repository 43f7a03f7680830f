import DeskScript.Proofs.Value.Operation

/-!
# Native functions that do not look at scope numbers

A native function is blind if it commutes with every renaming of scopes. What it
gives back then holds no function but those of its arguments, or of the root:

    f.Blind → f args = some (.ok v) → ∀ e ∈ v.scopes, e = root ∨ e ∈ heldBy args   (Native.Blind.scopes)

All standard functions are blind (`Native.standard_blind`).
-/

namespace DeskScript

namespace Native

open Value (rename renameResult)

/-- Renaming the arguments renames the result, and does nothing else. -/
def Blind (f : Native) : Prop :=
  ∀ (ρ : Renaming) (args : List Value), f (args.map (rename ρ)) = (f args).map (renameResult ρ)

theorem Blind.scopes {f : Native} (hf : f.Blind) {args : List Value} {v : Value}
    (h : f args = some (.ok v)) : ∀ e ∈ v.scopes, e = Arena.root ∨ e ∈ heldBy args := by
  apply Value.scopes_of_fixed
  intro ρ hρ
  have hargs : args.map (rename ρ) = args := by
    rw [List.map_congr_left (g := id), List.map_id]
    intro w hw
    exact Value.rename_of_fixed fun e he => hρ e (List.mem_flatMap.mpr ⟨w, hw, he⟩)
  have := hf ρ args
  rw [hargs, h] at this
  simpa [Except.map, eq_comm] using this

theorem total_blind {f : List Value → Except Fault Value}
    (h : ∀ (ρ : Renaming) (args : List Value),
      f (args.map (rename ρ)) = renameResult ρ (f args)) : (total f).Blind := by
  intro ρ args
  simp [total, h ρ args]

section
variable (ρ : Renaming) (function : String)

/-! ## Arguments -/

theorem numberArg_rename (arg : Option Value) :
    numberArg function (arg.map (rename ρ)) = numberArg function arg := by
  cases arg with
  | none => rfl
  | some v => cases v <;> simp [numberArg, unfit, Value.type]

theorem stringArg_rename (arg : Option Value) :
    stringArg function (arg.map (rename ρ)) = stringArg function arg := by
  cases arg with
  | none => rfl
  | some v => cases v <;> simp [stringArg, unfit, Value.type]

theorem arrayArg_rename (arg : Option Value) :
    arrayArg function (arg.map (rename ρ)) =
      (arrayArg function arg).map (·.map (rename ρ)) := by
  cases arg with
  | none => rfl
  | some v => cases v <;> simp [arrayArg, unfit, Value.type, Except.map]

theorem objectArg_rename (arg : Option Value) :
    objectArg function (arg.map (rename ρ)) =
      (objectArg function arg).map (Table.mapValues (rename ρ)) := by
  cases arg with
  | none => rfl
  | some v => cases v <;> simp [objectArg, unfit, Value.type, Except.map]

theorem textArg_rename (arg : Option Value) : textArg (arg.map (rename ρ)) = textArg arg := by
  cases arg <;> simp [textArg]

end

/-! ## The standard functions -/

theorem ofNumber_blind (function : String) (f : Float → Float) :
    (total (ofNumber function f)).Blind := by
  apply total_blind
  intro ρ args
  simp only [ofNumber, List.head?_map, numberArg_rename]
  cases numberArg function args.head? <;> simp [bind, Except.bind, Except.map, pure, Except.pure]

theorem ofString_blind (function : String) (f : String → String) :
    (total (ofString function f)).Blind := by
  apply total_blind
  intro ρ args
  simp only [ofString, List.head?_map, stringArg_rename]
  cases stringArg function args.head? <;> simp [bind, Except.bind, Except.map, pure, Except.pure]

theorem num_blind : (total num).Blind := by
  apply total_blind
  intro ρ args
  simp only [num, List.head?_map]
  cases args.head? with
  | none => rfl
  | some v =>
    cases v with
    | bool b => simp [Except.map]
    | string s => cases h : (Value.string s).number? <;> simp [h, Except.map]
    | _ => simp [Value.number?, Except.map]

theorem spread_rename (ρ : Renaming) (args : List Value) :
    spread (args.map (rename ρ)) = (spread args).map (rename ρ) := by
  cases args with
  | nil => rfl
  | cons v rest =>
    cases rest with
    | nil => cases v <;> simp [spread]
    | cons w rest => simp [spread]

theorem better_rename (ρ : Renaming) (function : String) (pick : Float → Float → Float)
    (best : Option Float) (v : Value) :
    better function pick best (v.rename ρ) = better function pick best v := by
  cases v <;> simp [better, unfit, Value.type]

theorem extreme_blind (function : String) (pick : Float → Float → Float) :
    (total (extreme function pick)).Blind := by
  apply total_blind
  intro ρ args
  simp only [extreme, spread_rename, List.foldlM_map, better_rename]
  cases (spread args).foldlM (better function pick) none with
  | error e => rfl
  | ok best => cases best <;> simp [bind, Except.bind, Except.map, pure, Except.pure]

theorem countUp_numbers (stop : Float) (steps : Nat) (n : Float) (read items : List Value)
    (hread : ∀ ρ : Renaming, read.map (rename ρ) = read)
    (h : countUp stop steps n read = some items) (ρ : Renaming) : items.map (rename ρ) = items := by
  induction steps generalizing n read with
  | zero =>
    simp only [countUp] at h
    split at h
    · cases h
    · obtain rfl := Option.some.inj h
      rw [List.map_reverse, hread]
  | succ steps ih =>
    simp only [countUp] at h
    split at h
    · exact ih (n + 1) (.number n :: read) (fun ρ => by simp [hread ρ]) h
    · obtain rfl := Option.some.inj h
      rw [List.map_reverse, hread]

theorem range_blind : Blind range := by
  intro ρ args
  have hbounds : ∀ start stop : Float,
      (if stop - start > Float.ofNat maxRange then some (.error (.rangeTooLarge (stop - start)))
        else (countUp stop maxRange start []).map fun items => .ok (.array items)) =
      (if stop - start > Float.ofNat maxRange then some (.error (.rangeTooLarge (stop - start)))
        else (countUp stop maxRange start []).map fun items => .ok (.array items) :
          Option (Except Fault Value)).map (renameResult ρ) := by
    intro start stop
    split
    · rfl
    · cases h : countUp stop maxRange start [] with
      | none => rfl
      | some items =>
        have := countUp_numbers stop maxRange start [] items (fun _ => rfl) h ρ
        simp [Except.map, this]
  match args with
  | [] => rfl
  | [v] =>
    simp only [range, List.map_cons, List.map_nil, List.head?_cons]
    have hv := numberArg_rename ρ "range" (some v)
    rw [Option.map_some] at hv
    rw [hv]
    cases numberArg "range" (some v) with
    | error e => rfl
    | ok n => exact hbounds _ _
  | v :: w :: rest =>
    simp only [range, List.map_cons]
    have hv := numberArg_rename ρ "range" (some v)
    have hw := numberArg_rename ρ "range" (some w)
    rw [Option.map_some] at hv hw
    rw [hv, hw]
    cases numberArg "range" (some v) with
    | error e => rfl
    | ok m =>
      cases numberArg "range" (some w) with
      | error e => rfl
      | ok n => exact hbounds _ _

theorem pieces_rename (ρ : Renaming) (s : String) (sep : Option Value) :
    pieces s (sep.map (rename ρ)) = (pieces s sep).map (rename ρ) := by
  cases sep with
  | none => simp [pieces]
  | some v =>
    cases v with
    | null => simp [pieces]
    | _ =>
      simp only [Option.map_some, pieces, Value.rename_bool, Value.rename_number,
        Value.rename_string, Value.rename_array, Value.rename_object, Value.rename_function,
        Value.text_array_rename, Value.text_object_rename, Value.text_function_rename]
      split <;> simp

theorem split_blind : (total split).Blind := by
  apply total_blind
  intro ρ args
  simp only [split, List.head?_map, List.getElem?_map, stringArg_rename, pieces_rename]
  cases stringArg "split" args.head? <;> simp [bind, Except.bind, Except.map, pure, Except.pure]

theorem join_blind : (total join).Blind := by
  apply total_blind
  intro ρ args
  simp only [join, List.head?_map, List.getElem?_map, arrayArg_rename, textArg_rename]
  cases arrayArg "join" args.head? <;>
    simp [bind, Except.bind, Except.map, pure, Except.pure, Function.comp_def]

theorem len_blind : (total len).Blind := by
  apply total_blind
  intro ρ args
  simp only [len, List.head?_map]
  cases args.head? with
  | none => rfl
  | some v => cases v <;> simp [Except.map, unfit, Value.type, Table.mapValues]

theorem contains_blind : (total contains).Blind := by
  apply total_blind
  intro ρ args
  simp only [contains, List.head?_map, List.getElem?_map, textArg_rename]
  cases args.head? with
  | none => rfl
  | some v =>
    cases v with
    | array items => cases args[1]? <;> simp [Except.map, Function.comp_def]
    | object fields => simp [Except.map, Table.has, Table.get?_mapValues]
    | _ => simp [Except.map, Value.type]

theorem keys_blind : (total keys).Blind := by
  apply total_blind
  intro ρ args
  simp only [keys, List.head?_map, objectArg_rename]
  cases objectArg "keys" args.head? <;>
    simp [bind, Except.bind, Except.map, pure, Except.pure, Table.names_mapValues]

theorem values_blind : (total values).Blind := by
  apply total_blind
  intro ρ args
  simp only [values, List.head?_map, objectArg_rename]
  cases objectArg "values" args.head? <;>
    simp [bind, Except.bind, Except.map, pure, Except.pure, Table.mapValues]

theorem push_blind : (total push).Blind := by
  apply total_blind
  intro ρ args
  simp only [push, List.head?_map, arrayArg_rename]
  cases arrayArg "push" args.head? <;>
    simp [bind, Except.bind, Except.map, pure, Except.pure]

theorem typeOf_blind : (total typeOf).Blind := by
  apply total_blind
  intro ρ args
  cases h : args.head? <;> simp [typeOf, h, Except.map]

theorem str_blind : (total str).Blind := by
  apply total_blind
  intro ρ args
  simp [str, textArg_rename, Except.map]

end Native

/-- Native functions that are all blind. -/
def Natives.Blind (natives : Natives) : Prop := ∀ p ∈ natives, Native.Blind p.2

theorem Natives.Blind.get? {natives : Natives} (h : natives.Blind) {name : String} {f : Native}
    (hf : Table.get? natives name = some f) : f.Blind :=
  h (name, f) (Table.mem_of_get? hf)

theorem Native.standard_blind : Natives.Blind Native.standard := by
  simp only [Natives.Blind, standard, List.forall_mem_cons]
  refine ⟨ofNumber_blind _ _, ofNumber_blind _ _, contains_blind, ofNumber_blind _ _,
    ofNumber_blind _ _, join_blind, keys_blind, len_blind, ofString_blind _ _, extreme_blind _ _,
    extreme_blind _ _, num_blind, push_blind, range_blind, ofNumber_blind _ _, split_blind,
    str_blind, ofString_blind _ _, typeOf_blind, ofString_blind _ _, values_blind, ?_⟩
  simp

end DeskScript
