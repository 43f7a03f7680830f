import DeskScript.Proofs.Scope.Running
import DeskScript.Proofs.Value.Functions
import Mathlib.Data.Set.Card

/-!
# Collections are exact

What a collection leaves is the least set of scopes that has those which are running,
pinned or of a function held outside, and with a scope the one around it and those of the
functions in its bindings:

    (a.collect held).There x ↔ a.From (a.Needs held) x        (Arena.LinksThere.there_collect)

Which functions are held outside need not be told to a collection. It can find them by
counting: they are those with more owners than the bindings account for
(`Arena.Owned.mem_heldOutside`).
-/

namespace DeskScript

theorem Value.scopes_eq (v : Value) : v.scopes = v.functions.map (·.scope) := by
  induction v using Value.induction with
  | array items ih =>
    rw [scopes_array, functions, List.map_flatMap]
    exact List.flatMap_congr ih
  | object fields ih =>
    rw [scopes_object, functions, List.map_flatMap]
    exact List.flatMap_congr ih
  | _ => simp [functions]

namespace Arena

/-! ## What leads to a scope -/

/-- The least set of scopes that has `starts`, and with a scope the one around it and those of the
functions at any depth in its bindings. -/
inductive From (a : Arena) (starts : ScopeId → Prop) : ScopeId → Prop
  | start {x : ScopeId} (hx : starts x) : From a starts x
  | parent {x p : ScopeId} {s : Scope} (hx : From a starts x) (hs : a.scope? x = some s)
      (hp : s.parent = some p) : From a starts p
  | bound {x : ScopeId} {s : Scope} {b : String × Value} {f : Closure} (hx : From a starts x)
      (hs : a.scope? x = some s) (hb : b ∈ s.bindings) (hf : f ∈ b.2.functions) :
      From a starts f.scope

/-- Is the scope running, pinned or that of a function held outside? -/
def Needs (a : Arena) (held : List ScopeId) (x : ScopeId) : Prop :=
  (∃ s, a.scope? x = some s ∧ (s.active = true ∨ s.pinned = true)) ∨ x ∈ held

section
variable {a : Arena} {starts : ScopeId → Prop} {held : List ScopeId} {x : ScopeId}

theorem mem_links {s : Scope} : x ∈ s.links ↔
    s.parent = some x ∨ ∃ b ∈ s.bindings, ∃ f ∈ b.2.functions, f.scope = x := by
  simp [Scope.links, Value.scopes_eq]

theorem mem_needed_iff :
    x ∈ a.needed ↔ ∃ s, a.scope? x = some s ∧ (s.active = true ∨ s.pinned = true) := by
  constructor
  · intro hx
    have hany := (List.mem_filter.mp hx).2
    obtain ⟨s, hs, hneeded⟩ := (Option.any_eq_true _ _).mp hany
    exact ⟨s, hs, by simpa using hneeded⟩
  · rintro ⟨s, hs, hneeded⟩
    exact mem_needed hs hneeded

theorem From.link {y : ScopeId} {s : Scope} (hx : a.From starts x) (hs : a.scope? x = some s)
    (hy : y ∈ s.links) : a.From starts y := by
  rcases mem_links.mp hy with hp | ⟨b, hb, f, hf, rfl⟩
  · exact .parent hx hs hp
  · exact .bound hx hs hb hf

theorem From.induction {P : ScopeId → Prop} (hx : a.From starts x) (hstart : ∀ x, starts x → P x)
    (hlink : ∀ x s y, P x → a.scope? x = some s → y ∈ s.links → P y) : P x := by
  induction hx with
  | start h => exact hstart _ h
  | parent _ hs hp ih => exact hlink _ _ _ ih hs (mem_links.mpr (Or.inl hp))
  | bound _ hs hb hf ih => exact hlink _ _ _ ih hs (mem_links.mpr (Or.inr ⟨_, hb, _, hf, rfl⟩))

/-- Is every scope there that a scope leads to? -/
def LinksThere (a : Arena) : Prop :=
  ∀ x s, a.scope? x = some s → ∀ y ∈ s.links, a.There y

/-! ## Collecting -/

theorem there_collect_iff (hk : a.keepsAll = false) :
    (a.collect held).There x ↔ a.Reached held x := by
  constructor
  · rintro ⟨s, hs⟩
    exact (scope?_collect_some hk hs).2
  · intro hx
    have hthere : (a.scope? x).isSome := by cases hx <;> assumption
    unfold There
    rw [scope?_collect_of_reached hk hx]
    exact Option.isSome_iff_exists.mp hthere

theorem Reached.mono {held' : List ScopeId} (hheld : ∀ e ∈ held, e ∈ held')
    (hx : a.Reached held x) : a.Reached held' x := by
  induction hx with
  | start he hsome =>
    refine .start ?_ hsome
    rw [List.mem_append] at he ⊢
    exact he.imp_left (hheld _)
  | link _ hs hy hsome ih => exact .link ih hs hy hsome

/-- A collection depends on which scopes are held, not on how often or in which order. -/
theorem collect_congr {held' : List ScopeId} (hheld : ∀ e, e ∈ held ↔ e ∈ held') :
    a.collect held = a.collect held' := by
  have hmarks : ∀ e, (a.reached held).getD e false = (a.reached held').getD e false := by
    intro e
    rw [Bool.eq_iff_iff, ← marked_iff_getD, ← marked_iff_getD, marked_reached_iff,
      marked_reached_iff]
    exact ⟨Reached.mono fun e => (hheld e).mp, Reached.mono fun e => (hheld e).mpr⟩
  simp only [collect, hmarks]

theorem mem_starts : x ∈ held ++ a.needed ↔ a.Needs held x := by
  rw [List.mem_append, mem_needed_iff, or_comm]
  rfl

theorem Needs.reached (hheld : ∀ e ∈ held, a.There e) (hx : a.Needs held x) :
    a.Reached held x := by
  refine .start (mem_starts.mpr hx) (Option.isSome_iff_exists.mpr ?_)
  rcases hx with ⟨s, hs, -⟩ | hx
  · exact ⟨s, hs⟩
  · exact hheld x hx

theorem LinksThere.there_collect (h : a.LinksThere) (hk : a.keepsAll = false)
    (hheld : ∀ e ∈ held, a.There e) :
    (a.collect held).There x ↔ a.From (a.Needs held) x := by
  rw [there_collect_iff hk]
  constructor
  · intro hx
    induction hx with
    | start he _ => exact .start (mem_starts.mp he)
    | link _ hs hy _ ih => exact ih.link hs hy
  · intro hx
    exact hx.induction (fun _ => Needs.reached hheld) fun e s y he hs hy =>
      .link he hs hy (Option.isSome_iff_exists.mpr (h e s hs y hy))

/-- What leads to a scope that is left is left, too. -/
theorem LinksThere.from_collect (h : a.LinksThere) (hk : a.keepsAll = false)
    (hstarts : ∀ e, starts e → a.Reached held e) :
    (a.collect held).From starts x ↔ a.From starts x := by
  constructor
  · intro hx
    exact hx.induction (fun _ => .start) fun e s y he hs hy =>
      he.link (scope?_collect_some hk hs).1 hy
  · intro hx
    refine (hx.induction (P := fun e => a.Reached held e ∧ (a.collect held).From starts e)
      (fun e he => ⟨hstarts e he, .start he⟩) fun e s y he hs hy => ?_).2
    obtain ⟨hreached, hfrom⟩ := he
    refine ⟨.link hreached hs hy (Option.isSome_iff_exists.mpr (h e s hs y hy)), ?_⟩
    exact hfrom.link ((scope?_collect_of_reached hk hreached).trans hs) hy

theorem live_eq_ncard (a : Arena) : a.live = {x | a.There x}.ncard := by
  let l := (List.range a.slots.size).filter fun x => (a.scope? x).isSome
  have hset : {x | a.There x} = ↑l.toFinset := by
    ext x
    simp only [l, Set.mem_ofPred_eq, List.coe_toFinset, List.mem_filter, List.mem_range,
      Option.isSome_iff_exists]
    exact ⟨fun ⟨s, hs⟩ => ⟨lt_size_of_scope? hs, s, hs⟩, fun hx => hx.2⟩
  have hnodup : l.Nodup := List.nodup_range.filter _
  rw [hset, Set.ncard_coe_finset, List.toFinset_card_of_nodup hnodup,
    a.live_eq_countP (Nat.le_refl _), List.countP_eq_length_filter]

end

/-! ## Counting owners -/

/-- The functions at any depth in the bindings of all scopes, each as often as it is there. -/
def stored (a : Arena) : List Closure :=
  (List.range a.slots.size).flatMap fun e => (a.bindings e).flatMap fun b => b.2.functions

/-- The scopes of those known functions that have more owners than the bindings account for. -/
def heldOutside (a : Arena) (known : List Closure) (owners : FunctionId → Nat) : List ScopeId :=
  (known.filter fun f => a.stored.countP (·.id = f.id) < owners f.id).map (·.scope)

/-- Each place that has a function owns it, in a binding or outside. -/
structure Owned (a : Arena) (known outside : List Closure) (owners : FunctionId → Nat) : Prop where
  owners : ∀ f ∈ known, owners f.id =
    a.stored.countP (·.id = f.id) + outside.countP (·.id = f.id)
  mem_known : ∀ f ∈ outside, f ∈ known
  /-- A function is made in one scope. -/
  scope : ∀ f ∈ known, ∀ g ∈ known, f.id = g.id → f.scope = g.scope

theorem Owned.mem_heldOutside {a : Arena} {known outside : List Closure}
    {owners : FunctionId → Nat} (h : a.Owned known outside owners) (x : ScopeId) :
    x ∈ a.heldOutside known owners ↔ x ∈ outside.map (·.scope) := by
  simp only [heldOutside, List.mem_map, List.mem_filter, decide_eq_true_eq]
  constructor
  · rintro ⟨f, ⟨hf, hlt⟩, rfl⟩
    rw [h.owners f hf] at hlt
    have hpos : 0 < outside.countP (·.id = f.id) := by omega
    obtain ⟨g, hg, hid⟩ := List.countP_pos_iff.mp hpos
    exact ⟨g, hg, h.scope g (h.mem_known g hg) f hf (of_decide_eq_true hid)⟩
  · rintro ⟨f, hf, rfl⟩
    have hpos : 0 < outside.countP (·.id = f.id) :=
      List.countP_pos_iff.mpr ⟨f, hf, decide_eq_true rfl⟩
    refine ⟨f, ⟨h.mem_known f hf, ?_⟩, rfl⟩
    rw [h.owners f (h.mem_known f hf)]
    omega

end Arena

end DeskScript
