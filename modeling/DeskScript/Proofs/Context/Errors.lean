import DeskScript.Event.Bus
import DeskScript.Proofs.Context.Lived
import DeskScript.Proofs.Program.Formed
import DeskScript.Proofs.Token.Lossless

/-!
# Every error points into the source

A run of a source ends with errors of three kinds. One of the lexer has the place of the
text that begins no token, one of the parser that of a token. A fault of the running
script has the place of an expression or a statement, so that of a token again; only the
functions that the host hands over may stand elsewhere.

A fault keeps its place on its way down the stack. At the first `try` it is bound with
line and column, and without one it is reported with them:

    t.machine.control = .raised r → t.Delivers s r                      (livesOf.delivers)
-/

namespace DeskScript

variable {B : Type}

/-! ## On the way -/

/-- The faults that a task has met and not forgotten. -/
def Progress.faults : Progress → List Raised
  | .busy t => t.job.faults
  | .over faults => faults

/-- A fault has come to a `try`: its `catch` runs in a scope that binds an object with the line and
the column. -/
def Machine.Caught (s : Session) (r : Raised) (k : List Frame) : Prop :=
  ∃ x handler scope i s' inner v, k = .flow (.attempt x handler scope) :: i ∧
    step s ⟨.raised r, k⟩ = .next s' ⟨.block handler.body inner, .flow (.caught inner) :: i⟩ ∧
    s'.scopes.get? inner x = some v ∧
    v.member "line" = .ok (.ofNat r.pos.line) ∧ v.member "column" = .ok (.ofNat r.pos.column)

/-- A fault has come to the end of the stack: it is the next of the faults of the task. -/
def Task.Fails (s : Session) (r : Raised) (job : Job) (k : List Frame) : Prop :=
  k = [] ∧ Machine.step s ⟨.raised r, k⟩ = .done s (.error r) ∧
    (Task.afterRun s (.error r) job).2.faults = job.faults ++ [r]

/-- The fault in control goes down the stack as it is, to the first `try` or to the end. -/
def Task.Delivers (s : Session) (t : Task) (r : Raised) : Prop :=
  ∃ js j s', t.machine.stack = js ++ j ∧
    Machine.run js.length s t.machine = .unfinished s' ⟨.raised r, j⟩ ∧
    (Machine.Caught s' r j ∨ Task.Fails s' r t.job j)

theorem Session.get?_openScope {s : Session} (h : s.scopes.Tidy) (p : ScopeId) (x : String)
    (v : Value) :
    (s.openScope p [(x, v)]).2.scopes.get? (s.openScope p [(x, v)]).1 x = some v := by
  have hscope : (s.openScope p [(x, v)]).2.scopes.scope? (s.openScope p [(x, v)]).1 =
      some { Scope.opened p with bindings := Table.put [] x v } := by
    simp [Session.openScope, Arena.define, Arena.scope?_update, Arena.scope?_child h, Scope.opened]
  obtain ⟨n, hn⟩ : ∃ n, (s.openScope p [(x, v)]).2.scopes.slots.size = n + 1 :=
    Nat.exists_eq_add_one.mpr (Nat.zero_lt_of_lt (Arena.lt_size_of_scope? hscope))
  simp [Arena.get?, Arena.find?, hn, Arena.findFrom, hscope]

namespace Machine

variable {s : Session} {r : Raised}

/-- Of all frames only a `try` holds a fault up. -/
theorem step_raised (s : Session) (r : Raised) (f : Frame) (k : List Frame) :
    (∃ s', step s ⟨.raised r, f :: k⟩ = .next s' ⟨.raised r, k⟩) ∨
      ∃ x handler scope, f = .flow (.attempt x handler scope) := by
  rcases f with f | f
  · exact .inl ⟨s, rfl⟩
  · cases f with
    | attempt x handler scope => exact .inr ⟨x, handler, scope, rfl⟩
    | _ => exact .inl ⟨_, rfl⟩

/-- **A fault travels unchanged** to the first `try`, or to the end of the stack. -/
theorem run_raised (s : Session) (r : Raised) (k : List Frame) :
    ∃ js j s', k = js ++ j ∧ run js.length s ⟨.raised r, k⟩ = .unfinished s' ⟨.raised r, j⟩ ∧
      (j = [] ∨ ∃ x handler scope i, j = .flow (.attempt x handler scope) :: i) := by
  induction k generalizing s with
  | nil => exact ⟨[], [], s, rfl, rfl, .inl rfl⟩
  | cons f k ih =>
    rcases step_raised s r f k with ⟨s₁, hstep⟩ | ⟨x, handler, scope, rfl⟩
    · obtain ⟨js, j, s', rfl, hrun, hj⟩ := ih s₁
      refine ⟨f :: js, j, s', rfl, ?_, hj⟩
      simpa only [List.length_cons, run, hstep] using hrun
    · exact ⟨[], _, s, rfl, rfl, .inr ⟨x, handler, scope, k, rfl⟩⟩

theorem caught (h : s.scopes.Tidy) (r : Raised) (x : String) (handler : Block) (scope : ScopeId)
    (i : List Frame) : Caught s r (.flow (.attempt x handler scope) :: i) :=
  ⟨x, handler, scope, i, (s.openScope scope [(x, r.toValue)]).2, _, r.toValue, rfl, rfl,
    Session.get?_openScope h scope x r.toValue, rfl, rfl⟩

end Machine

theorem Task.fails (s : Session) (r : Raised) (job : Job) : Fails s r job [] := by
  refine ⟨rfl, rfl, ?_⟩
  cases job with
  | main => rfl
  | handler inner payload rest faults => cases rest <;> rfl

theorem Task.Passes.run {s s₁ s₂ : Session} {t t₁ : Task} (h : t.Passes s s₁ t₁) {n : Nat}
    {m : Machine} (hrun : Machine.run n s₁ t₁.machine = .unfinished s₂ m) :
    t.Passes s s₂ { t₁ with machine := m } := by
  induction n generalizing s₁ t₁ with
  | zero =>
    obtain ⟨rfl, rfl⟩ := Machine.Rest.unfinished.inj hrun
    exact h
  | succ n ih =>
    simp only [Machine.run] at hrun
    split at hrun
    · next s' m' hstep =>
      exact (ih (h.step hstep) hrun :)
    · cases hrun
    · cases hrun

/-- What becomes of a fault at a moment of a life. -/
theorem livesOf.delivers {code : Set Block} {id maxDepth : Nat} {natives : Natives} {l : Life}
    (hl : l ∈ livesOf code (.initial id natives maxDepth)) {s : Session} {t : Task}
    (h : l.Passes s t) {r : Raised} (ht : t.machine.control = .raised r) : t.Delivers s r := by
  obtain ⟨js, j, s', hk, hrun, hj⟩ := Machine.run_raised s r t.machine.stack
  have hmachine : (⟨.raised r, t.machine.stack⟩ : Machine) = t.machine := by rw [← ht]
  rw [hmachine] at hrun
  refine ⟨js, j, s', hk, hrun, ?_⟩
  rcases hj with rfl | ⟨x, handler, scope, i, rfl⟩
  · exact .inr (Task.fails s' r t.job)
  · obtain ⟨t₀, ht₀, hpasses⟩ := h
    obtain ⟨l', hl', rfl, -⟩ := livesOf.passes hl ⟨t₀, ht₀, hpasses.run hrun⟩
    exact .inl (Machine.caught (livesOf.orderly hl').tidy r x handler scope i)

/-! ## Runs -/

/-- The code that a run is handed besides its source: that of the functions in its variables and in
the replies of the host. -/
def foreignCode (o : RunOptions) (replies : Set Reply) : Set Block :=
  {b | ∃ v, ((∃ x, (x, v) ∈ o.globals) ∨ .ok v ∈ replies) ∧ b ∈ v.functions.map (·.body)}

theorem foreignCode_reply (o : RunOptions) {replies : Set Reply} {reply : Reply}
    (h : reply ∈ replies) : ∀ b ∈ (Move.reply reply).code, b ∈ foreignCode o replies := by
  intro b hb
  cases reply with
  | ok v => exact ⟨v, .inr h, hb⟩
  | error reason => cases hb

theorem RunOptions.session_lived (o : RunOptions) (id : Nat) {code : Set Block}
    (h : ∀ x v, (x, v) ∈ o.globals → ∀ b ∈ v.functions.map (·.body), b ∈ code) :
    Life.ofSession (o.session id) ∈ livesOf code (.initial id o.natives o.maxDepth) := by
  refine ⟨o.globals.map fun p => .define p.1 p.2, ?_, ?_⟩
  · intro m hm
    obtain ⟨p, hp, rfl⟩ := List.mem_map.mp hm
    exact h p.1 p.2 hp
  · have hdefine : ∀ (t : Table Value) (s : Session),
        (Life.ofSession s).play (t.map fun p => .define p.1 p.2) =
          Life.ofSession (t.foldl (fun s p => s.defineGlobal p.1 p.2) s) := by
      intro t
      induction t with
      | nil => exact fun _ => rfl
      | cons p t ih => exact fun s => ih (s.defineGlobal p.1 p.2)
    exact hdefine o.globals _

/-- A started program is a life. -/
theorem startProgram_lived [Channel B] (o : RunOptions) (id : Nat) (bus : Option B)
    (program : Block) {code : Set Block} (hprogram : program ∈ code)
    (h : ∀ x v, (x, v) ∈ o.globals → ∀ b ∈ v.functions.map (·.body), b ∈ code) :
    (startProgram o id bus program).Lived (livesOf code (.initial id o.natives o.maxDepth)) := by
  have hstart : ∀ (bus : B) (c : Context), c.session = o.session id → c.program = program →
      c.cancelled = false → c.handlerFaults = [] → c.reports = [] →
      (Call.start bus c).Lived (livesOf code (.initial id o.natives o.maxDepth)) := by
    intro bus c hsession hc hcancelled hfaults hreports
    have hmem := livesOf.move (m := .main program) (o.session_lived id h)
      (by simpa [Move.code] using hprogram)
    have hfollows : c.Follows ((Life.ofSession (o.session id)).move (.main program)) :=
      ⟨hsession.symm, by simp [hreports], by simp [hfaults], hcancelled⟩
    rw [Call.start, if_neg (by simp [hcancelled]), hc]
    exact hfollows.main hmem rfl rfl none
  cases bus with
  | none => exact hstart (Channel.ofCapacity 1) (.local_ (o.session id) program) rfl rfl rfl rfl rfl
  | some bus =>
    have hattached := hstart (Channel.subscribe bus).2
      (Context.attached bus (o.session id) program).2
    exact hattached rfl rfl rfl rfl rfl

/-- The places of a program that was read are those of its tokens. -/
theorem placesOf_program {ts : List Token} {program : Block} (h : parse ts = .ok program)
    {foreign : Set Block} {pos : Position} (hpos : pos ∈ placesOf (insert program foreign)) :
    pos ∈ starts (Cursor.ended ts) ∨ pos ∈ placesOf foreign := by
  have hformed := formed_of_parse h
  obtain ⟨q, ⟨b, rfl | hb, hq⟩, hplace⟩ := hpos
  · exact .inl ((hformed false q hq).places pos hplace)
  · exact .inr ⟨q, ⟨b, hb, hq⟩, hplace⟩

/-- An error of the lexer is at text that begins no token, and tokens end with the end of input. -/
theorem tokenize_places (source : String) :
    match tokenize source with
    | .error e => ∃ before rest, source.toList = before ++ rest ∧
        e.pos = Lexer.placeAfter before ∧ Lexer.Stuck e.cause rest
    | .ok ts => ∀ pos ∈ starts (Cursor.ended ts), ∃ t ∈ ts, t.pos = pos := by
  have haccounts : Lexer.Accounts source.toList (tokenize source) :=
    Lexer.tokensFrom_accounts (Lexer.scanning_start _)
  cases htokens : tokenize source with
  | error e =>
    rw [htokens] at haccounts
    obtain ⟨ps, gap, rest, hsource, -, -, -, hpos, hstuck⟩ := haccounts
    exact ⟨_, rest, hsource, hpos, hstuck⟩
  | ok ts =>
    rw [htokens] at haccounts
    obtain ⟨-, -, -, -, -, init, last, rfl, hlast, -⟩ := haccounts
    intro pos hpos
    have hended : Cursor.ended (init ++ [last]) = init ++ [last] := by simp [Cursor.ended, hlast]
    rwa [hended] at hpos

/-! ## Reports -/

/-- What was reported when a stage is over. -/
def Call.Stage.reports : Call.Stage B → List ScriptError
  | next _ c _ | rest (.asks _ _ c _) | rest (.idle _ c _) | rest (.ended _ c _)
  | rest (.unfinished _ c _) => c.reports

theorem Context.reports_flush [Channel B] (c : Context) (bus : B) :
    (c.flush bus).2.reports = c.reports := by
  unfold Context.flush
  split <;> rfl

/-- All faults of a task are reported when it is over. -/
theorem Call.Lived.reports [Channel B] {L : Set Life} {c : Context} {call : Call}
    (h : call.Lived L c) {t : Task} (ht : call.task? = some t) {n : Nat} {s : Session} {faults : List Raised}
    (hrun : Task.run n c.session t = .over s faults) (bus : B) :
    (Call.stage n bus c call).reports = c.reports ++ faults.map .raised := by
  obtain ⟨l, hl, hc, -, hmain⟩ := h
  have hgoing : ¬ c.cancelled = true := by simp [hc.going]
  unfold Call.stage
  cases hphase : call.phase with
  | main t' =>
    obtain rfl : t' = t := by simpa [Call.task?, hphase] using ht
    have hfaults := Task.run_of_main n c.session (hmain t' hphase)
    rw [hrun] at hfaults
    have hone : ∀ (bus : B) c, (Call.afterMain bus c call faults).reports =
        c.reports ++ faults.map .raised := by
      intro bus c
      rcases hfaults with ⟨_ | f, rfl⟩
      · rfl
      · simp only [Task.faultOf]
        cases f.outside <;> simp [Call.afterMain, Call.Stage.reports, Call.endWith]
    simp only [Call.perform, if_neg hgoing, hrun, hone, Context.reports_flush]
  | handling t' =>
    obtain rfl : t' = t := by simpa [Call.task?, hphase] using ht
    simp only [Call.perform, if_neg hgoing, hrun, Call.Stage.reports, Context.record,
      Context.reports_flush]
  | settling => simp [Call.task?, hphase] at ht

theorem Outcome.reports_met {L : Set Life} {ending : Call.Ending B} (h : ending.Lived L) :
    ∀ e ∈ (Outcome.ofEnding ending).reports, ∃ r, e = .raised r ∧ ∃ l ∈ L, l.Meets r := by
  obtain ⟨c, r, heq, l, hl, hc⟩ : ∃ c r, Outcome.ofEnding ending = .ofCall c r ∧
      ∃ l ∈ L, c.Follows l := by
    cases ending with
    | ended bus c r => exact ⟨c, r, rfl, h.1⟩
    | cutOff bus c call => exact ⟨c, .error .cancelled, rfl, h⟩
    | unfinished bus c => exact ⟨c, .error .cancelled, rfl, h⟩
  intro e he
  rw [heq] at he
  obtain ⟨x, faults, rfl, hfaults, hx⟩ := hc.reports e he
  exact ⟨x, rfl, l, hl, .reported hfaults hx⟩

/-- The error of a run that ended is among those reported. -/
theorem Outcome.error_reported {L : Set Life} {c : Context} {r : CallResult} (h : c.Left L r)
    {e : ScriptError} (he : (Outcome.ofCall c r).error = some e) : e ∈ c.reports := by
  obtain ⟨⟨l, -, hc⟩, hresult⟩ := h
  cases r with
  | error e' =>
    obtain rfl : e' = e := Option.some.inj he
    exact hresult e' rfl
  | ok _ =>
    obtain ⟨x, hx, rfl⟩ := Option.map_eq_some_iff.mp he
    exact hc.faults x (List.mem_of_mem_head? hx)

/-- A fault of a run stands at a token of the source, or in code that the host handed over. -/
def Raised.StandsIn (ts : List Token) (foreign : Set Block) (r : Raised) : Prop :=
  (∃ t ∈ ts, t.pos = r.pos) ∨ r.pos ∈ placesOf foreign

/-- **Every error points into the source.** A source that cannot be read has its one error where no
token begins, or at a token. Otherwise every report is a fault at a token, and a run that ends with
an error has reported it, with a line. A fault stands at a token whenever it occurs in the run. It
travels unchanged to the next `catch`, which binds its line and column, and without one it is a
fault of the task, all of which are reported. -/
theorem runSource_errors_placed [Channel B] {σ : Type} (around : Surroundings (StateM σ)) (n : Nat)
    (globals : Table Value) (maxDepth : Nat) (bus : Option B) (source : String) (host : σ) :
    let o : RunOptions := ⟨globals, Native.standard, maxDepth⟩
    let out := ((runSource around n o bus source).run host).1
    match tokenize source with
    | .error e =>
      out.error = some (.lex e) ∧ out.reports = [.lex e] ∧
        ∃ before rest, source.toList = before ++ rest ∧
          e.pos = Lexer.placeAfter before ∧ Lexer.Stuck e.cause rest
    | .ok ts =>
      match parse ts with
      | .error e =>
        out.error = some (.parse e) ∧ out.reports = [.parse e] ∧ ∃ t ∈ ts, t.pos = e.pos
      | .ok program =>
        let first := startProgram o 0 bus program
        let ending := ((Call.drive around n 0 (first.run n)).run host).1
        let foreign := foreignCode o around.replies
        -- reports
        out = .ofEnding ending ∧ (∀ e ∈ out.reports, ∃ r, e = .raised r ∧ r.StandsIn ts foreign) ∧
        (∀ b c r, ending = .ended b c r →
          ∀ e, out.error = some e → e ∈ out.reports ∧ e.line? ≠ none) ∧
        -- moments
        ∀ b c call t, Call.Comes around.replies first b c call → call.task? = some t →
          (∀ s t' r, t.Passes c.session s t' → t'.machine.control = .raised r →
            r.StandsIn ts foreign ∧ t'.Delivers s r) ∧
          ∀ m s faults, Task.run m c.session t = .over s faults →
            (Call.stage m b c call).reports = c.reports ++ faults.map .raised := by
  intro o out
  have htokens := tokenize_places source
  split
  · next e hts =>
    rw [hts] at htokens
    have hprogram : readProgram source = .error (.lex e) := by simp [readProgram, hts]
    have hout : out = .failed (.lex e) globals :=
      congrArg Prod.fst (runSource_failed around n o bus hprogram host)
    exact ⟨by rw [hout]; rfl, by rw [hout]; rfl, htokens⟩
  · next ts hts =>
    rw [hts] at htokens
    split
    · next e hp =>
      have hformed := parse_formed ts
      rw [hp] at hformed
      have hprogram : readProgram source = .error (.parse e) := by simp [readProgram, hts, hp]
      have hout : out = .failed (.parse e) globals :=
        congrArg Prod.fst (runSource_failed around n o bus hprogram host)
      exact ⟨by rw [hout]; rfl, by rw [hout]; rfl, htokens e.pos hformed⟩
    · next program hp =>
      intro first ending foreign
      have hprogram : readProgram source = .ok program := by simp [readProgram, hts, hp]
      have hout : out = .ofEnding ending :=
        congrArg Prod.fst (runSource_run around n o bus hprogram host)
      have hfirst : first.Lived (livesOf (insert program foreign) (.initial 0 o.natives maxDepth)) :=
        startProgram_lived o 0 bus program (Set.mem_insert _ _) fun x v hx b hb =>
          .inr ⟨v, .inl ⟨x, hx⟩, hb⟩
      have hreplies : ∀ reply ∈ around.replies, ∀ b ∈ (Move.reply reply).code,
          b ∈ insert program foreign := fun reply hreply b hb =>
        .inr (foreignCode_reply o hreply b hb)
      have hplaced : ∀ l ∈ livesOf (insert program foreign) (.initial 0 o.natives maxDepth), ∀ r,
          l.Meets r → r.StandsIn ts foreign := by
        intro l hl r hr
        have hplace := ((livesOf.partOf Native.standard_tame hl).meets hr).place
        exact (placesOf_program hp hplace).imp_left (htokens r.pos)
      have hending : ending.Lived _ :=
        Call.drive_lived around hreplies n 0 (Call.Stage.run_lived hfirst n) host
      refine ⟨hout, fun e he => ?_, fun b c r hended e he => ?_, fun b c call t hcomes ht => ?_⟩
      · rw [hout] at he
        obtain ⟨r, rfl, l, hl, hr⟩ := Outcome.reports_met hending e he
        exact ⟨r, rfl, hplaced l hl r hr⟩
      · rw [hended] at hout hending
        rw [hout] at he ⊢
        have hreported := Outcome.error_reported hending he
        obtain ⟨r, rfl, -⟩ := Outcome.reports_met hending e hreported
        exact ⟨hreported, nofun⟩
      · have hlived := hcomes.lived hreplies hfirst
        refine ⟨fun s t' r hpasses hr => ?_, fun m s faults hover => hlived.reports ht hover b⟩
        obtain ⟨l, hl, hc, hwork, -⟩ := hlived
        have hpasses' : l.Passes s t' := ⟨t, hwork t ht, hc.session ▸ hpasses⟩
        exact ⟨hplaced l hl r (.raised hpasses' hr), livesOf.delivers hl hpasses' hr⟩

/-- Surroundings that cut a call off at its first command. -/
def Surroundings.absent : Surroundings (StateM Unit) :=
  ⟨fun _ => pure none, pure (), fun _ => pure ()⟩

/-- A call of a missing function that is caught, and one that is not. -/
def twoCalls : Block :=
  .mk ⟨1, 1⟩ [.attempt ⟨1, 1⟩ (.mk ⟨1, 5⟩ [.call ⟨1, 7⟩ "f" []]) "e" (.mk ⟨1, 22⟩ []),
    .call ⟨2, 1⟩ "g" []]

/-- The first fault stands at a token and is delivered, and the second is reported at a token. -/
theorem runSource_errors_placed_twoCalls :
    let source := "try \x7b f() \x7d catch $e \x7b \x7d\ng()"
    let o : RunOptions := ⟨[], Native.standard, 9⟩
    let out := ((runSource Surroundings.absent 20 o (none : Option Bus) source).run ()).1
    ∃ ts, tokenize source = .ok ts ∧ parse ts = .ok twoCalls ∧
      (∃ r, out.error = some (.raised r) ∧ .raised r ∈ out.reports ∧ ∃ t ∈ ts, t.pos = r.pos) ∧
      ∃ s t r, (Task.ofProgram twoCalls).Passes (o.session 0) s t ∧
        t.machine.control = .raised r ∧ t.Delivers s r ∧ ∃ u ∈ ts, u.pos = r.pos := by
  intro source o out
  have hforeign : ∀ pos, pos ∉ placesOf (foreignCode o Surroundings.absent.replies) := by
    rintro pos ⟨q, ⟨b, ⟨v, ⟨x, hx⟩ | ⟨command, host, hreply⟩, -⟩, -⟩, -⟩
    · cases hx
    · cases hreply
  obtain ⟨ts, hts, hp⟩ : ∃ ts, tokenize source = .ok ts ∧ parse ts = .ok twoCalls :=
    ⟨_, by cbv, by cbv⟩
  have h := runSource_errors_placed Surroundings.absent 20 [] 9 (none : Option Bus) source ()
  simp only [hts, hp] at h
  obtain ⟨hout, hreports, hended, hmoments⟩ := h
  have herror : out.error = some (.raised ⟨.undefinedFunction "g", ⟨2, 1⟩⟩) := by
    rw [show out = _ from hout]
    rfl
  have hreported := (hended _ _ _ rfl _ herror).1
  obtain ⟨_, ⟨⟩, hplaced⟩ := hreports _ hreported
  refine ⟨ts, hts, hp, ⟨_, herror, hreported, hplaced.resolve_right (hforeign _)⟩, ?_⟩
  obtain ⟨hpasses, -⟩ := hmoments _ _ _ _ (.start rfl) rfl
  have hmoment : (Task.ofProgram twoCalls).Passes (o.session 0) _ _ := .step (.step .start rfl) rfl
  obtain ⟨hplaced, hdelivers⟩ := hpasses _ _ ⟨.undefinedFunction "f", ⟨1, 7⟩⟩ hmoment rfl
  exact ⟨_, _, _, hmoment, rfl, hdelivers, hplaced.resolve_right (hforeign _)⟩

end DeskScript
