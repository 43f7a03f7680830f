import DeskScript.Proofs.Scope.Exact
import DeskScript.Proofs.Session.Lasting

/-!
# What a program leaves

When a program is over, the scopes that are left are those which can be reached from the
root, from the scopes of handlers, from the value that the program returned, from the
functions that the host holds, and from the scopes of work that was dropped before:

    s.scopes.There x ↔ s.scopes.From (s.Anchors lost r) x            (Life.Ending.there_iff)

The last kind is there by mistake: nothing runs in these scopes any more.
-/

namespace DeskScript

theorem Arena.WellFormed.linksThere {a : Arena} (h : a.WellFormed) : a.LinksThere := by
  intro x s hs y hy
  rcases mem_links.mp hy with hp | ⟨b, hb, f, hf, rfl⟩
  · have hne : x ≠ Arena.root := by
      rintro rfl
      obtain ⟨r, hr, hnone⟩ := h.root
      obtain rfl := Option.some.inj (hs.symm.trans hr)
      rw [hnone] at hp
      cases hp
    obtain ⟨p, t, hp', ht⟩ := h.parent x s hs hne
    obtain rfl := Option.some.inj (hp.symm.trans hp')
    exact ⟨t, ht⟩
  · refine h.functions x s hs b hb f.scope ?_
    rw [Value.scopes_eq]
    exact List.mem_map_of_mem hf

/-! ## The end of a program -/

namespace Machine

/-- A run that is done is a shorter run and a last step. -/
theorem run_before_done {n : Nat} {s s' : Session} {m : Machine} {r : Except Raised Flow}
    (h : run n s m = .done s' r) :
    ∃ k m', run k s m = .unfinished s' m' ∧ step s' m' = .done s' r := by
  induction n generalizing s m with
  | zero => cases h
  | succ n ih =>
    unfold run at h
    cases hstep : step s m with
    | next s₁ m₁ =>
      rw [hstep] at h
      obtain ⟨k, m', hrun, hdone⟩ := ih h
      exact ⟨k + 1, m', by rwa [run, hstep], hdone⟩
    | ask command s₁ m₁ =>
      rw [hstep] at h
      cases h
    | done s₁ r₁ =>
      rw [hstep] at h
      cases h
      obtain rfl := (over_of_done hstep).2
      exact ⟨0, m, rfl, hstep⟩

/-- What a result holds, the control held before. -/
theorem held_of_done {s s' : Session} {m : Machine} {r : Except Raised Flow}
    (h : step s m = .done s' r) : ∀ e ∈ Task.heldBy r, e ∈ m.control.mentions := by
  obtain ⟨⟨hstack, hscope⟩, -⟩ := over_of_done h
  obtain ⟨c, k⟩ := m
  subst hstack
  intro e he
  cases c with
  | value v =>
    cases h
    cases he
  | flow f =>
    cases h
    exact he
  | raised fault =>
    cases h
    cases he
  | _ => cases hscope

end Machine

namespace Life

/-- The program that goes on is about to end with `r`. -/
def Ending (r : Except Raised Flow) (l : Life) : Prop :=
  ∃ t, l.progress = .busy t ∧ t.job = .main ∧
    Machine.step l.session t.machine = .done l.session r

/-- The life when the program has ended. -/
def ended (r : Except Raised Flow) (l : Life) : Life :=
  ⟨l.session.collect (Task.heldBy r), .over (Task.faultOf r),
    l.reports ++ [.over (Task.faultOf r)]⟩

theorem move_over {l : Life} {faults : List Raised} (h : l.progress = .over faults) {m : Move}
    (hm : m.Continues) : l.move m = l := by
  cases m with
  | run n => simp only [Life.move, h]
  | reply r => simp only [Life.move, h]
  | _ => exact hm.elim

theorem play_over {l : Life} {faults : List Raised} (h : l.progress = .over faults)
    {rest : List Move} (hrest : ∀ m ∈ rest, m.Continues) : l.play rest = l :=
  play_of_move (P := fun l' => l' = l) (fun _ _ hl hm => hl ▸ move_over (hl ▸ h) hm) rfl hrest

/-- A program ends with a last step, after any number of moves of the host. -/
theorem ending_of_over {l : Life} {t : Task} (hbusy : l.progress = .busy t) (hjob : t.job = .main)
    {rest : List Move} (hall : ∀ m ∈ rest, m.Continues) {faults : List Raised}
    (hover : (l.play rest).progress = .over faults) :
    ∃ rest' r, (∀ m ∈ rest', m ∈ rest ∨ ∃ n, m = .run n) ∧ (l.play rest').Ending r ∧
      l.play rest = (l.play rest').ended r := by
  induction rest generalizing l t with
  | nil =>
    rw [play, List.foldl_nil, hbusy] at hover
    cases hover
  | cons m rest ih =>
    obtain ⟨hm, hrest⟩ := List.forall_mem_cons.mp hall
    -- the move leaves the program going on
    have hgoing : ∀ t', (l.move m).progress = .busy t' → t'.job = .main →
        ∃ rest' r, (∀ m' ∈ rest', m' ∈ m :: rest ∨ ∃ n, m' = .run n) ∧ (l.play rest').Ending r ∧
          l.play (m :: rest) = (l.play rest').ended r := by
      intro t' hbusy' hjob'
      obtain ⟨rest', r, hmoves, hending, heq⟩ := ih hbusy' hjob' hrest hover
      refine ⟨m :: rest', r, ?_, hending, heq⟩
      refine List.forall_mem_cons.mpr ⟨Or.inl List.mem_cons_self, fun m' hm' => ?_⟩
      exact (hmoves m' hm').imp_left (List.mem_cons_of_mem m)
    obtain ⟨s, p, reports⟩ := l
    subst hbusy
    cases m with
    | reply r => exact hgoing _ rfl hjob
    | run n =>
      cases n with
      | zero => exact hgoing t rfl hjob
      | succ n =>
        cases hrun : Machine.run n s t.machine with
        | asks command s' m' =>
          refine hgoing ⟨m', t.job⟩ ?_ hjob
          simp only [Life.move, Task.run, hrun, hear]
        | unfinished s' m' =>
          refine hgoing ⟨m', t.job⟩ ?_ hjob
          simp only [Life.move, Task.run, hrun]
        | done s' r =>
          obtain ⟨k, m', hbefore, hdone⟩ := Machine.run_before_done hrun
          have hlast : Life.play ⟨s, .busy t, reports⟩ [.run (k + 1)] =
              ⟨s', .busy ⟨m', t.job⟩, reports⟩ := by
            simp only [play, List.foldl_cons, List.foldl_nil, Life.move, Task.run, hbefore]
          have hend : Life.move ⟨s, .busy t, reports⟩ (.run (n + 1)) =
              Life.ended r ⟨s', .busy ⟨m', t.job⟩, reports⟩ := by
            simp only [Life.move, Task.run, hrun, hjob, Task.afterRun, hear, ended]
          refine ⟨[.run (k + 1)], r, fun m hm => Or.inr ⟨k + 1, List.mem_singleton.mp hm⟩, ?_, ?_⟩
          · rw [hlast]
            exact ⟨_, rfl, hjob, hdone⟩
          · rw [hlast, play, List.foldl_cons, hend]
            exact play_over rfl hrest
    | _ => exact hm.elim

end Life

/-! ## What is left -/

/-- The functions in the value that a program returned. -/
def Task.returned : Except Raised Flow → List Closure
  | .ok (.returned v) => v.functions
  | _ => []

theorem Task.mem_heldBy {r : Except Raised Flow} {x : ScopeId} :
    x ∈ heldBy r ↔ ∃ f ∈ returned r, f.scope = x := by
  rcases r with fault | f
  · simp [heldBy, returned]
  · cases f <;> simp [heldBy, Flow.held, returned, Value.scopes_eq]

/-- Where the scopes that a program leaves are reached from: the root, handlers, the value that was
returned, functions that the host holds, and work that was dropped. -/
def Session.Anchors (lost : List Task) (r : Except Raised Flow) (s : Session) (x : ScopeId) :
    Prop :=
  x = Arena.root ∨ (∃ h ∈ s.handlers.toList, h.scope = x) ∨
    (∃ f ∈ Task.returned r, f.scope = x) ∨ x ∈ s.lent ∨ ∃ t ∈ lost, x ∈ t.running

namespace Life

section
variable {natives : Natives} {id maxDepth : Nat} {moves : List Move} {l : Life} {lost : List Task}
  {r : Except Raised Flow} (hl : (ofSession (.initial id natives maxDepth)).play moves = l)
  (hlost : (ofSession (.initial id natives maxDepth)).abandoned moves = lost)
include hl hlost

/-- When a program is about to end, nothing runs but what was dropped. -/
theorem Ending.active_iff (h : l.Ending r) (x : ScopeId) :
    l.session.scopes.Active x ↔ x = Arena.root ∨ ∃ t ∈ lost, x ∈ t.running := by
  obtain ⟨s₀, dispatch, haccounts, -, -, hs⟩ := (accounted_initial natives id maxDepth).play moves
  rw [hl] at hs
  rw [hlost, List.nil_append] at haccounts
  obtain ⟨t, hbusy, hjob, hdone⟩ := h
  have hb := hs.balanced
  rw [hbusy] at hb
  have hframes : t.frames = [] := by
    rw [Task.frames, (Machine.over_of_done hdone).1.1, hjob]
    rfl
  rw [Progress.frames, hframes] at hb
  simpa [openedBy] using haccounts.active_iff hb x

theorem Ending.needs_iff (h : l.Ending r) (x : ScopeId) :
    l.session.scopes.Needs (l.session.lent ++ Task.heldBy r) x ↔ l.session.Anchors lost r x := by
  have hactive := h.active_iff hl hlost
  have hpins : l.session.Pins := hl ▸ pins natives id maxDepth moves
  constructor
  · rintro (⟨u, hu, hrunning | hpinned⟩ | hheld)
    · refine ((hactive x).mp ⟨u, hu, hrunning⟩).imp_right fun hlost => ?_
      exact Or.inr (Or.inr (Or.inr hlost))
    · exact (hpins.pinned x u hu hpinned).imp_right Or.inl
    · rcases List.mem_append.mp hheld with hlent | hreturned
      · exact Or.inr (Or.inr (Or.inr (Or.inl hlent)))
      · exact Or.inr (Or.inr (Or.inl (Task.mem_heldBy.mp hreturned)))
  · have hneeds : l.session.scopes.Active x →
        l.session.scopes.Needs (l.session.lent ++ Task.heldBy r) x := by
      rintro ⟨u, hu, hrunning⟩
      exact Or.inl ⟨u, hu, Or.inl hrunning⟩
    rintro (hroot | ⟨f, hf, rfl⟩ | hreturned | hlent | hlost)
    · exact hneeds ((hactive x).mpr (Or.inl hroot))
    · obtain ⟨u, hu, -, hpinned⟩ := hpins.handlers f hf
      exact Or.inl ⟨u, hu, Or.inr hpinned⟩
    · exact Or.inr (List.mem_append_right _ (Task.mem_heldBy.mpr hreturned))
    · exact Or.inr (List.mem_append_left _ hlent)
    · exact hneeds ((hactive x).mpr (Or.inr hlost))

/-- What is left can be reached from the anchors, and what can be reached from them is left. -/
theorem Ending.there_iff (hn : natives.Blind) (h : l.Ending r) (x : ScopeId) :
    (l.ended r).session.scopes.There x ↔
      (l.ended r).session.scopes.From ((l.ended r).session.Anchors lost r) x := by
  have hk : l.session.scopes.keepsAll = false :=
    hl ▸ ((accounted_initial natives id maxDepth).play moves).orderly.reclaims
  have halike := play_initial_alike hn id maxDepth moves
  rw [hl] at halike
  have hlinks := halike.arena.linksThere
  have hheld : ∀ e ∈ l.session.lent ++ Task.heldBy r, l.session.scopes.There e := by
    intro e he
    refine halike.mentions e ?_
    rcases List.mem_append.mp he with he | he
    · exact List.mem_append_right _ he
    · obtain ⟨t, hbusy, -, hdone⟩ := h
      refine List.mem_append_left _ (List.mem_append_left _ ?_)
      rw [hbusy]
      exact List.mem_append_left _ (List.mem_append_left _ (Machine.held_of_done hdone _ he))
  have hanchors : (l.ended r).session.Anchors lost r =
      l.session.scopes.Needs (l.session.lent ++ Task.heldBy r) :=
    funext fun x => propext (h.needs_iff hl hlost x).symm
  rw [hanchors, ended, Session.collect, hlinks.there_collect hk hheld,
    hlinks.from_collect hk fun _ => Arena.Needs.reached hheld]

end

theorem abandoned_append (l : Life) (moves rest : List Move) :
    l.abandoned (moves ++ rest) = l.abandoned moves ++ (l.play moves).abandoned rest := by
  induction moves generalizing l with
  | nil => rfl
  | cons m moves ih =>
    rw [List.cons_append, abandoned, ih, ← List.append_assoc]
    rfl

theorem abandoned_of_continues (l : Life) {rest : List Move} (hrest : ∀ m ∈ rest, m.Continues) :
    l.abandoned rest = [] := by
  induction rest generalizing l with
  | nil => rfl
  | cons m rest ih =>
    obtain ⟨hm, hrest⟩ := List.forall_mem_cons.mp hrest
    rw [abandoned, ih _ hrest, List.append_nil]
    cases m with
    | run n => rfl
    | reply r => rfl
    | _ => exact hm.elim

/-- **Collections are exact.** Take any arena that is well formed, and any functions that are held
outside, each any number of times and perhaps in bindings, too. To keep the known functions that
have more owners than the bindings account for is to keep those held outside. The scopes that a
collection leaves are the least set that has the running ones, the pinned ones and those of
functions held outside, and with a scope the one around it and those of the functions in its
bindings; they are left unchanged.

Take any life, and let a program run to its end in it. The scopes that are left are those which can
be reached like this from the root, the scopes of handlers, the value returned at top level, the
functions that the host holds, and the scopes in which work ran that was dropped before, and so many
are counted. -/
theorem collection_exact (natives : Natives) (hn : natives.Blind) (id maxDepth : Nat) :
    (∀ (a : Arena) (known outside : List Closure) (owners : FunctionId → Nat),
      a.WellFormed → a.keepsAll = false → (∀ f ∈ outside, a.There f.scope) →
      a.Owned known outside owners →
      let a' := a.collect (a.heldOutside known owners)
      a' = a.collect (outside.map (·.scope)) ∧
      (∀ x, a'.There x ↔ a.From (a.Needs (outside.map (·.scope))) x) ∧
      ∀ x s, a'.scope? x = some s → a.scope? x = some s) ∧
    ∀ (moves : List Move) (program : Block) (rest : List Move) (faults : List Raised),
      (∀ m ∈ rest, m.Continues) →
      let start := ofSession (.initial id natives maxDepth)
      let l := start.play moves
      let lost := start.abandoned moves ++ l.dropped (.main program)
      let l' := l.play (.main program :: rest)
      l'.progress = .over faults →
      ∃ rest' r, (l.play (.main program :: rest')).Ending r ∧
        l' = (l.play (.main program :: rest')).ended r ∧
        (∀ x, l'.session.scopes.There x ↔
          l'.session.scopes.From (l'.session.Anchors lost r) x) ∧
        l'.session.scopes.live =
          {x | l'.session.scopes.From (l'.session.Anchors lost r) x}.ncard := by
  refine ⟨fun a known outside owners hwf hk houtside howned => ?_, ?_⟩
  · have hheld := Arena.collect_congr (a := a) howned.mem_heldOutside
    refine ⟨hheld, fun x => ?_, fun x s hs => (Arena.scope?_collect_some hk hs).1⟩
    rw [hheld]
    exact hwf.linksThere.there_collect hk (List.forall_mem_map.mpr houtside)
  · intro moves program rest faults hrest start l lost l' hover
    obtain ⟨rest', r, hmoves, hending, hended⟩ : ∃ rest' r,
        (∀ m ∈ rest', m ∈ rest ∨ ∃ n, m = .run n) ∧ (l.play (.main program :: rest')).Ending r ∧
          l' = (l.play (.main program :: rest')).ended r :=
      ending_of_over (l := l.move (.main program)) rfl rfl hrest hover
    have hrest' : ∀ m ∈ rest', m.Continues := by
      intro m hmem
      rcases hmoves m hmem with hmem | ⟨n, rfl⟩
      · exact hrest m hmem
      · trivial
    have hplay : start.play (moves ++ .main program :: rest') = l.play (.main program :: rest') :=
      List.foldl_append
    have hlost : start.abandoned (moves ++ .main program :: rest') = lost := by
      rw [abandoned_append, abandoned, abandoned_of_continues _ hrest', List.append_nil]
    have hthere : ∀ x, l'.session.scopes.There x ↔
        l'.session.scopes.From (l'.session.Anchors lost r) x := by
      rw [hended]
      exact hending.there_iff hplay hlost hn
    refine ⟨rest', r, hending, hended, hthere, ?_⟩
    rw [Arena.live_eq_ncard]
    exact congrArg Set.ncard (Set.ext hthere)

/-- A program that makes a function in each of two calls, forgets one and returns the other. -/
def harvest : Block :=
  let make : Block := .mk .start
    [.define .start "g" [] (.mk .start []), .return_ .start (some (.var .start "g"))]
  .mk .start
    [.define .start "make" [] make, .call .start "make" [],
      .return_ .start (some (.call .start "make" []))]

/-- The host holds a function from before. -/
def harvested : Life :=
  ((ofSession (.initial 7 Native.standard 2)).play entrusted).play [.main harvest, .run 30]

theorem collection_exact_harvested :
    let a := harvested.session.scopes
    -- the function that was returned, which is in a binding of its own scope
    let g : Closure := ⟨.made 4, "g", [], .mk .start [], 3⟩
    harvested.progress = .over [] ∧ harvested.session.lent = [1] ∧ a.live = 3 ∧
    (∃ r, a.live = {x | a.From (harvested.session.Anchors [] r) x}.ncard) ∧
    (a.collect (a.heldOutside [g] fun id => a.stored.countP (·.id = id) + 2)).There 3 ∧
    (a.collect (a.heldOutside [g] fun id => a.stored.countP (·.id = id))).live = 1 := by
  have hover : harvested.progress = .over [] := by cbv
  have hlent : harvested.session.lent = [1] := by cbv
  have hlive : harvested.session.scopes.live = 3 := by cbv
  have hthere : harvested.session.scopes.There 3 := Option.isSome_iff_exists.mp (by cbv)
  have hreclaims : harvested.session.scopes.keepsAll = false := by cbv
  have hwf : harvested.session.scopes.WellFormed := by
    have halike := play_initial_alike Native.standard_blind 7 2
      (entrusted ++ [.main harvest, .run 30])
    rw [play, List.foldl_append] at halike
    exact halike.arena
  intro a g
  have hgone : (a.collect (a.heldOutside [g] fun id => a.stored.countP (·.id = id))).live = 1 := by
    simp only [Arena.heldOutside, Nat.lt_irrefl, decide_false, List.filter_false, List.map_nil, a]
    cbv
  obtain ⟨hcollects, hends⟩ := collection_exact Native.standard Native.standard_blind 7 2
  obtain ⟨-, r, -, -, -, hcount⟩ := hends entrusted harvest [.run 30] []
    (by simp [Move.Continues]) hover
  have howned : a.Owned [g] [g, g] fun id => a.stored.countP (·.id = id) + 2 := by
    refine ⟨?_, by simp, ?_⟩ <;> simp
  have hkept := (hcollects a [g] [g, g] _ hwf hreclaims (by simpa [g] using hthere) howned).2.1 3
  exact ⟨hover, hlent, hlive, ⟨r, hcount⟩, hkept.mpr (.start (Or.inr (by simp [g]))), hgone⟩

/-- Work that was dropped leaves its scopes running, so that a program leaves more than can be
reached from the root, from handlers and from what it returned. -/
theorem dropped_scope_stays :
    let l' := (ofSession (.initial 7 Native.standard 2)).play
      (waiting ++ [.main (.mk .start []), .run 20])
    l'.progress = .over [] ∧ l'.session.scopes.live = 2 ∧
      {x | l'.session.scopes.From (l'.session.Anchors [] (.ok .normal)) x}.ncard = 1 := by
  intro l'
  have hlinks : (l'.session.scopes.scope? Arena.root).map Scope.links = some [0, 0] := by cbv
  have hhandlers : l'.session.handlers.toList.map (·.scope) = [0] := by cbv
  have hset : {x | l'.session.scopes.From (l'.session.Anchors [] (.ok .normal)) x} =
      {Arena.root} := by
    ext x
    constructor
    · intro hx
      refine hx.induction (P := fun x => x = Arena.root) (fun e he => ?_) fun e s y he hs hy => ?_
      · rcases he with hroot | ⟨h, hh, rfl⟩ | ⟨f, hf, -⟩ | hlent | ⟨t, ht, -⟩
        · exact hroot
        · exact List.mem_singleton.mp (hhandlers ▸ List.mem_map_of_mem hh)
        · cases hf
        · cases hlent
        · cases ht
      · rw [he] at hs
        rw [hs, Option.map_some, Option.some.injEq] at hlinks
        simpa [hlinks, Arena.root] using hy
    · rintro rfl
      exact .start (Or.inl rfl)
  refine ⟨by cbv, by cbv, ?_⟩
  rw [hset, Set.ncard_singleton]

end Life

end DeskScript
