import DeskScript.Proofs.Session.Faults

/-!
# Jumps follow the nesting of the code

A `break` or `continue` that is executed travels down the stack. Blocks and `try`
hand it on, and the first loop takes it. Where the statement stands decides if there is
one: a jump inside of a loop of its function finds that loop, and any other one is
complained of, at its own place. No jump leaves a call.

    (inLoop k, stmt) ∈ sitesOf code, where stmt left k behind            (Control.PartOf)

The main result says so for every moment of every life of a session with the standard
native functions (`Life.jumps_follow_nesting`).
-/

namespace DeskScript

/-- The statement that a jump comes from. -/
def Flow.jump? : Flow → Option Stmt
  | broken pos => some (.break_ pos)
  | continued pos => some (.continue_ pos)
  | _ => none

/-- Frames that hand a jump on to the frame below. -/
def Frame.HandsOn : Frame → Prop
  | flow (.rest _ _) | flow (.attempt _ _ _) | flow (.caught _) => True
  | _ => False

def FlowFrame.Loops : FlowFrame → Prop
  | round _ _ _ _ _ | again _ _ _ _ | each _ _ _ _ _ _ => True
  | _ => False

theorem Flow.PartOf.jump {code : Set Block} {looped : Bool} {f : Flow} (h : f.PartOf code looped)
    {stmt : Stmt} (hf : f.jump? = some stmt) : (looped, stmt) ∈ sitesOf code := by
  cases f with
  | broken pos =>
    obtain rfl := Option.some.inj hf
    exact h
  | continued pos =>
    obtain rfl := Option.some.inj hf
    exact h
  | normal => cases hf
  | returned v => cases hf

theorem inLoop_cons_of_handsOn {g : Frame} (hg : g.HandsOn) (k : List Frame) :
    inLoop (g :: k) = inLoop k := by
  rcases g with g | g <;> cases g <;> first | rfl | exact hg.elim

namespace Machine

variable {s : Session} {f : Flow} {stmt : Stmt}

/-! ## On the way -/

theorem step_handsOn (hf : f.jump? = some stmt) {g : Frame} (hg : g.HandsOn) (s : Session)
    (k : List Frame) : ∃ s', step s ⟨.flow f, g :: k⟩ = .next s' ⟨.flow f, k⟩ := by
  rcases g with g | g
  · exact hg.elim
  · cases g with
    | rest body scope => cases f <;> first | exact ⟨s, rfl⟩ | cases hf
    | attempt x handler scope => exact ⟨s, rfl⟩
    | caught inner => exact ⟨_, rfl⟩
    | _ => exact hg.elim

/-- A jump comes to the first frame that does not hand it on. -/
theorem run_jump (hf : f.jump? = some stmt) (s : Session) (k : List Frame) :
    ∃ js j s', k = js ++ j ∧ (∀ g ∈ js, g.HandsOn) ∧ (∀ g ∈ j.head?, ¬ g.HandsOn) ∧
      inLoop j = inLoop k ∧ run js.length s ⟨.flow f, k⟩ = .unfinished s' ⟨.flow f, j⟩ := by
  induction k generalizing s with
  | nil => exact ⟨[], [], s, rfl, by simp, by simp, rfl, rfl⟩
  | cons g k ih =>
    by_cases hg : g.HandsOn
    · obtain ⟨s₁, hstep⟩ := step_handsOn hf hg s k
      obtain ⟨js, j, s', rfl, hjs, hj, hloop, hrun⟩ := ih s₁
      refine ⟨g :: js, j, s', rfl, List.forall_mem_cons.mpr ⟨hg, hjs⟩, hj, ?_, ?_⟩
      · rw [hloop, inLoop_cons_of_handsOn hg]
      · simpa only [List.length_cons, run, hstep] using hrun
    · exact ⟨[], g :: k, s, rfl, by simp, by simpa using hg, rfl, rfl⟩

/-! ## Where it comes to -/

/-- A loop takes the jump. The frames below the loop stay as they are. -/
def LoopTakes (s : Session) (f : Flow) (k : List Frame) : Prop :=
  ∃ g i s' m fs, k = .flow g :: i ∧ g.Loops ∧ step s ⟨.flow f, k⟩ = .next s' m ∧ m.stack = fs ++ i

/-- Nothing takes the jump: it is a fault here, or the fault of the whole run. -/
def NothingTakes (s : Session) (f : Flow) (k : List Frame) : Prop :=
  ∃ r, Task.faultOf (.ok f) = [r] ∧
    (step s ⟨.flow f, k⟩ = .done s (.ok f) ∨ ∃ s' i, step s ⟨.flow f, k⟩ = .next s' ⟨.raised r, i⟩)

theorem loopTakes {k : List Frame} (hk : ∀ g ∈ k.head?, ¬ g.HandsOn) (hloop : inLoop k = true)
    (s : Session) (f : Flow) : LoopTakes s f k := by
  have hg : ∃ g i, k = .flow g :: i ∧ g.Loops := by
    rcases k with _ | ⟨g | g, i⟩
    · cases hloop
    · cases hloop
    · refine ⟨g, i, rfl, ?_⟩
      cases g <;> first | trivial | exact absurd trivial (hk _ rfl)
  obtain ⟨g, i, rfl, hg⟩ := hg
  have hfrom := takeFlow_from (s := s) (k := i) f
    (grounds_taken (m := ⟨.flow f, .flow g :: i⟩) rfl s)
  cases hstep : takeFlow s i f g <;> rw [hstep] at hfrom
  case next s' m =>
    obtain ⟨-, fs, -, -, hstack⟩ := hfrom
    exact ⟨g, i, s', m, fs, rfl, hg, hstep, hstack⟩
  all_goals exact hfrom.elim

theorem nothingTakes (hf : f.jump? = some stmt) {k : List Frame}
    (hk : ∀ g ∈ k.head?, ¬ g.HandsOn) (hloop : inLoop k = false) (s : Session) :
    NothingTakes s f k := by
  have hfault : ∃ r, f.outside = .error r ∧ Task.faultOf (.ok f) = [r] := by
    cases f <;> first | exact ⟨_, rfl, rfl⟩ | cases hf
  obtain ⟨r, hout, hfault⟩ := hfault
  refine ⟨r, hfault, ?_⟩
  rcases k with _ | ⟨g | g, i⟩
  · exact Or.inl rfl
  · refine Or.inr ⟨s, .value g :: i, ?_⟩
    simp only [step, hout]
  · cases g with
    | called inner c extra =>
      simp only [step, takeFlow, hout]
      exact Or.inr ⟨_, i, rfl⟩
    | _ => first | exact absurd trivial (hk _ rfl) | cases hloop

end Machine

/-! ## Calls -/

/-- **No jump leaves a call:** work above the body of a function ends with a value or a fault. -/
theorem Course.ends_call {P : Session → Machine → Prop} {k : List Frame} {s s' : Session}
    {m m' : Machine} (h : Course P k s m s' m') {j : List Frame} {inner : ScopeId} {f : Closure}
    {extra : List Value} (hj : m.stack = j ++ .flow (.called inner f extra) :: k)
    (hover : m'.Over k) :
    (∃ v, m'.control = .value v) ∨ ∃ r, m'.control = .raised r := by
  -- until the body is left it stays on the stack, and leaving it gives a value or a fault
  have hinv : (∃ i, m'.stack = i ++ .flow (.called inner f extra) :: k) ∨ m'.stack = k ∧
      ((∃ v, m'.control = .value v) ∨ ∃ r, m'.control = .raised r) := by
    clear hover
    induction h with
    | start => exact Or.inl ⟨j, hj⟩
    | @step s₁ s₂ m₁ m₂ _ hover _ hstep ih =>
      rcases ih with ⟨i, hi⟩ | ⟨hstack, hresult⟩
      · by_cases hbody : m₁.Over (.flow (.called inner f extra) :: k)
        · obtain ⟨c, k₁⟩ := m₁
          obtain ⟨rfl, hc⟩ := hbody
          cases c with
          | value v =>
            cases hstep
            exact Or.inl ⟨[], rfl⟩
          | flow flow =>
            refine Or.inr ?_
            simp only [Machine.step, Machine.takeFlow] at hstep
            split at hstep <;> cases hstep
            · exact ⟨rfl, Or.inl ⟨_, rfl⟩⟩
            · exact ⟨rfl, Or.inr ⟨_, rfl⟩⟩
          | raised r =>
            cases hstep
            exact Or.inr ⟨rfl, Or.inr ⟨r, rfl⟩⟩
          | _ => cases hc
        · obtain ⟨i', -, hrest⟩ := m₁.rest_of_not_over hi hbody
          obtain ⟨-, fs, -, -, hstack⟩ := Machine.step_from hstep
          exact Or.inl ⟨fs ++ i', by rw [hstack, hrest, List.append_assoc]⟩
      · refine absurd ⟨hstack, ?_⟩ hover
        rcases hresult with ⟨v, hv⟩ | ⟨r, hr⟩
        · rw [hv]
          rfl
        · rw [hr]
          rfl
    | @reply s₁ m₁ reply _ ih =>
      rw [m₁.stack_answer reply]
      refine ih.imp_right fun hleft => ⟨hleft.1, ?_⟩
      unfold Machine.answer
      rcases hleft.2 with ⟨v, hv⟩ | ⟨r, hr⟩
      · exact Or.inl ⟨v, by rw [hv]; exact hv⟩
      · exact Or.inr ⟨r, by rw [hr]; exact hr⟩
  rcases hinv with ⟨i, hi⟩ | ⟨-, hresult⟩
  · have hlength := congrArg List.length (hi.symm.trans hover.1)
    simp only [List.length_append, List.length_cons] at hlength
    omega
  · exact hresult

namespace Life

/-- **Jumps follow the nesting of the code**, at every moment of every life. A complaint about a
stray jump is about one that no loop of its own function is around, at its place; so there is none
where the code has no stray jumps. A jump that is made comes to the next loop of its function if it
stands in one, and is a fault otherwise. And a call ends with a value or a fault, never with a jump
for a loop of its caller. -/
theorem jumps_follow_nesting (id maxDepth : Nat) (moves : List Move) :
    let l := (ofSession (.initial id Native.standard maxDepth)).play moves
    let code := codeOf moves
    -- complaints
    (∀ r, l.Meets r →
      (r.fault.kind = .breakOutsideLoop → (false, .break_ r.pos) ∈ sitesOf code) ∧
      (r.fault.kind = .continueOutsideLoop → (false, .continue_ r.pos) ∈ sitesOf code)) ∧
    -- code without stray jumps
    ((∀ pos, (false, .break_ pos) ∉ sitesOf code ∧ (false, .continue_ pos) ∉ sitesOf code) →
      ∀ r, l.Meets r →
        r.fault.kind ≠ .breakOutsideLoop ∧ r.fault.kind ≠ .continueOutsideLoop) ∧
    -- jumps
    (∀ s t f k stmt, l.Passes s t → t.machine = ⟨.flow f, k⟩ → f.jump? = some stmt →
      ∃ js j s', k = js ++ j ∧ (∀ g ∈ js, g.HandsOn) ∧
        Machine.run js.length s t.machine = .unfinished s' ⟨.flow f, j⟩ ∧
        ((true, stmt) ∈ sitesOf code ∧ Machine.LoopTakes s' f j ∨
          (false, stmt) ∈ sitesOf code ∧ Machine.NothingTakes s' f j)) ∧
    -- calls
    (∀ s t js inner f extra k s' m', l.Passes s t →
      t.machine.stack = js ++ .flow (.called inner f extra) :: k →
      Course (fun _ _ => True) k s t.machine s' m' → m'.Over k →
      (∃ v, m'.control = .value v) ∨ ∃ r, m'.control = .raised r) := by
  intro l code
  have hpart : l.PartOf code :=
    play_partOf Native.standard_tame id maxDepth fun m hm b hb => ⟨m, hm, hb⟩
  refine ⟨fun r hr => ?_, fun hstray r hr => ?_, ?_, ?_⟩
  · exact ⟨(hpart.meets hr).strayBreak, (hpart.meets hr).strayContinue⟩
  · constructor
    · exact fun hk => (hstray r.pos).1 ((hpart.meets hr).strayBreak hk)
    · exact fun hk => (hstray r.pos).2 ((hpart.meets hr).strayContinue hk)
  · intro s t f k stmt hpasses ht hf
    have hcontrol := (hpart.passes hpasses).2.machine.control
    rw [ht] at hcontrol ⊢
    obtain ⟨js, j, s', hk, hjs, hj, hloop, hrun⟩ := Machine.run_jump hf s k
    have hsite := Flow.PartOf.jump hcontrol hf
    refine ⟨js, j, s', hk, hjs, hrun, ?_⟩
    cases hin : inLoop k with
    | true =>
      rw [hin] at hloop hsite
      exact Or.inl ⟨hsite, Machine.loopTakes hj hloop s' f⟩
    | false =>
      rw [hin] at hloop hsite
      exact Or.inr ⟨hsite, Machine.nothingTakes hf hj hloop s'⟩
  · intro s t js inner f extra k s' m' _ hstack hcourse hover
    exact hcourse.ends_call hstack hover

/-- A loop that calls a function whose `break` is stray, and goes on when it has caught that. -/
def straying : Block :=
  let body : Block := .mk ⟨3, 10⟩ [.attempt ⟨4, 3⟩ (.mk ⟨4, 7⟩ [.call ⟨4, 9⟩ "f" []]) "e"
    (.mk ⟨4, 22⟩ [.continue_ ⟨4, 24⟩])]
  .mk .start [.define ⟨2, 1⟩ "f" [] (.mk ⟨2, 10⟩ [.break_ ⟨2, 12⟩]),
    .loop ⟨3, 1⟩ (.literal ⟨3, 6⟩ (.number 2)) body]

/-- The `break` of the function is complained of where it stands, and the `continue` finds the loop
around it. -/
theorem jumps_follow_nesting_straying :
    let moves (n : Nat) : List Move := [.main straying, .run n]
    let l (n : Nat) := (ofSession (.initial 7 Native.standard 9)).play (moves n)
    ((l 11).Meets ⟨.strayBreak, ⟨2, 12⟩⟩ ∧
      (false, .break_ ⟨2, 12⟩) ∈ sitesOf (codeOf (moves 11))) ∧
    ∃ s t k, (l 14).Passes s t ∧ t.machine = ⟨.flow (.continued ⟨4, 24⟩), k⟩ ∧
      ∃ looped, (looped, .continue_ ⟨4, 24⟩) ∈ sitesOf (codeOf (moves 14)) := by
  intro moves l
  obtain ⟨hmeets, -⟩ := jumps_follow_nesting 7 9 (moves 11)
  obtain ⟨-, -, hjump, -⟩ := jumps_follow_nesting 7 9 (moves 14)
  have hraised : (l 11).Meets ⟨.strayBreak, ⟨2, 12⟩⟩ := .raised ⟨_, rfl, .start⟩ rfl
  have hpasses : (l 14).Passes _ _ := ⟨_, rfl, .start⟩
  obtain ⟨_, _, _, _, _, _, htaken⟩ := hjump _ _ _ _ _ hpasses rfl rfl
  refine ⟨⟨hraised, (hmeets _ hraised).1 rfl⟩, _, _, _, hpasses, rfl, ?_⟩
  exact htaken.elim (fun h => ⟨true, h.1⟩) fun h => ⟨false, h.1⟩

end Life

end DeskScript
