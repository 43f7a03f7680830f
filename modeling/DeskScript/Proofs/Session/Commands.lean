import DeskScript.Proofs.Machine.Arguments
import DeskScript.Proofs.Program.Formed
import DeskScript.Proofs.Session.Faults

/-!
# Commands have all their arguments

A command that a script asks for was built from the values of the arguments of a host statement.
In code that was read such a statement is complete, so there is a value for every field that must
be there, and a field for every value:

    Command.ofArgs verb vs = .ok c → c.Takes vs                          (Command.takes_of_ofArgs)

The same statement says whether the answer of the host goes into a variable.
-/

namespace DeskScript

/-! ## Fields -/

namespace Command

/-- The fields of a command that are texts, without those that are not there. -/
def texts : Command → List String
  | launch x | close x | focus x | minimize x | maximize x | read x | mkdir x | delete x | alert x
  | confirm x | play x | video x => [x]
  | wait _ => []
  | write path content => [path, content]
  | prompt message default => message :: default.toList
  | notify message title => message :: title.toList
  | stop sound => sound.toList

/-- Each argument is in a field, and each field has an argument. -/
def Takes (args : List Value) (c : Command) : Prop :=
  (∀ n, c = wait n → ∃ v, args = [v] ∧ seconds v = .ok n) ∧
    (c.verb ≠ .wait → c.texts = args.map Value.text)

theorem takes_of_ofArgs {verb : Verb} {args : List Value} (hleast : verb.arity.1 ≤ args.length)
    (hmost : args.length ≤ verb.arity.2) {c : Command} (h : ofArgs verb args = .ok c) :
    c.Takes args := by
  have hverb := verb_of_ofArgs h
  by_cases hwait : verb = .wait
  · subst hwait
    obtain ⟨v, rfl⟩ := List.length_eq_one_iff.mp (Nat.le_antisymm hmost hleast)
    refine ⟨?_, fun hne => absurd hverb hne⟩
    rintro n rfl
    obtain ⟨n', hn, hw⟩ := exceptMap_ok.mp h
    obtain rfl : n' = n := wait.inj hw
    exact ⟨v, rfl, hn⟩
  · refine ⟨?_, fun _ => ?_⟩
    · rintro n rfl
      exact absurd hverb.symm hwait
    -- no verb takes more than two arguments
    · rcases args with _ | ⟨v, _ | ⟨w, _ | ⟨x, rest⟩⟩⟩ <;> cases verb <;>
        simp [Verb.arity, ofArgs] at hleast hmost hwait h <;> (subst h; rfl)

end Command

/-! ## Tasks and lives -/

section
variable {code : Set Block} {s s' : Session} {t t' : Task}

def Progress.Gathers (code : Set Block) (s : Session) : Progress → Prop
  | busy t => t.machine.Gathers code s
  | .over _ => True

namespace Task

theorem nextHandler_gathers (code : Set Block) (s : Session) (payload : Value)
    (faults : List Raised) (hs : List Handler) :
    (nextHandler s payload faults hs).2.Gathers code (nextHandler s payload faults hs).1 := by
  cases hs with
  | nil => trivial
  | cons h rest => exact Machine.gathers_ofBlock code _ h.body _

theorem afterRun_gathers (code : Set Block) (s : Session) (r : Except Raised Flow) (j : Job) :
    (afterRun s r j).2.Gathers code (afterRun s r j).1 := by
  cases j with
  | main => trivial
  | handler inner payload rest faults => exact nextHandler_gathers code _ payload _ rest

def Rest.Gathers (code : Set Block) : Task.Rest → Prop
  | asks _ s t | unfinished s t => t.machine.Gathers code s
  | .over _ _ => True

theorem run_gathers (n : Nat) (hs : s.PartOf code) (ht : t.PartOf code)
    (h : t.machine.Gathers code s) : (run n s t).Gathers code := by
  induction n generalizing s t with
  | zero => exact h
  | succ n ih =>
    have hpart := Machine.run_partOf n hs ht.machine
    have hrun := Machine.run_gathers n hs ht.machine h
    unfold run
    cases hm : Machine.run n s t.machine <;> rw [hm] at hpart hrun
    case asks command s' m => exact hrun
    case unfinished s' m => exact hrun
    case done s' r =>
      have hafter := afterRun_partOf hpart.1 hpart.2 ht.job
      have hnext := afterRun_gathers code s' r t.job
      rcases hp : afterRun s' r t.job with ⟨s'', t' | faults⟩ <;> rw [hp] at hafter hnext <;>
        simp only [hp]
      · exact ih hafter.1 hafter.2 hnext
      · trivial

theorem Passes.gathers (h : t.Passes s s' t') (hs : s.PartOf code) (ht : t.PartOf code)
    (hg : t.machine.Gathers code s) : t'.machine.Gathers code s' := by
  induction h with
  | start => exact hg
  | step hbefore hstep ih => exact Machine.next_gathers (hbefore.partOf hs ht).2.machine ih hstep
  | @handler s₁ s₂ s₃ t₁ t₂ r _ _ hafter _ =>
    have hnext := afterRun_gathers code s₂ r t₁.job
    rw [hafter] at hnext
    exact hnext

end Task

namespace Life

theorem move_gathers {l : Life} (h : l.PartOf code) (hg : l.progress.Gathers code l.session)
    (m : Move) : (l.move m).progress.Gathers code (l.move m).session := by
  obtain ⟨s, p, reports⟩ := l
  cases m with
  | main program => exact Machine.gathers_ofBlock code s program Arena.root
  | event e => exact Task.nextHandler_gathers code s _ _ _
  | run n =>
    cases p with
    | «over» faults => exact hg
    | busy t =>
      have hrun := Task.run_gathers n h.session h.progress hg
      simp only [move]
      cases ht : Task.run n s t <;> rw [ht] at hrun <;> exact hrun
  | reply r =>
    cases p with
    | «over» faults => exact hg
    | busy t => exact Machine.answer_gathers hg _
  | take =>
    simp only [move]
    split
    · next e s' he =>
      cases p with
      | «over» faults => exact hg
      | busy t => exact ⟨fun k hk => (hg.frames k hk).mono fun hc => .taken hc he, hg.control⟩
    · exact hg
  | define x v =>
    cases p with
    | «over» faults => exact hg
    | busy t => exact ⟨fun k hk => (hg.frames k hk).mono fun hc => .defined x v hc, hg.control⟩
  | hold x =>
    cases p with
    | «over» faults => exact hg
    | busy t => exact ⟨fun k hk => (hg.frames k hk).mono fun hc => .lent x hc, hg.control⟩
  | letGo n =>
    cases p with
    | «over» faults => exact hg
    | busy t => exact ⟨fun k hk => (hg.frames k hk).mono fun hc => .takenBack n hc, hg.control⟩

theorem play_gathers {natives : Natives} (hn : natives.Tame) (id maxDepth : Nat)
    (moves : List Move) (hmoves : ∀ m ∈ moves, ∀ b ∈ m.code, b ∈ code) :
    let l := (ofSession (.initial id natives maxDepth)).play moves
    l.PartOf code ∧ l.progress.Gathers code l.session := by
  refine play_of_move (P := fun l => l.PartOf code ∧ l.progress.Gathers code l.session)
    (Q := fun m => ∀ b ∈ m.code, b ∈ code) (fun l m hl hm => ?_) ?_ hmoves
  · exact ⟨hl.1.move hm, move_gathers hl.1 hl.2 m⟩
  · exact ⟨play_partOf hn id maxDepth (List.forall_mem_nil _), trivial⟩

end Life

end

/-! ## Commands of code that was read -/

theorem Verb.answers_iff (verb : Verb) :
    verb.answers = true ↔ verb ∈ [read, confirm, prompt] := by
  cases verb <;> decide

namespace Life

/-- **Host statements are complete before they run.** Every host statement of a program has as many
arguments as its verb takes, and a variable exactly if its verb answers. In every life with code
that was read, a command that the host is asked for is that of a host statement, built from the values
that its arguments were computed to, each of them in a field of its own and no field without one.
And the answer of the host is put into a variable exactly if the host succeeded and the verb is one
of the three that answer. -/
theorem host_statements_complete :
    (∀ ts p looped q, parse ts = .ok p → q ∈ p.sites looped → q.2.Complete) ∧
    ∀ natives : Natives, natives.Tame → ∀ id maxDepth moves, (∀ b ∈ codeOf moves, b.Parsed) →
      ∀ s t, ((ofSession (.initial id natives maxDepth)).play moves).Passes s t →
        (∀ pos c into scope, t.machine.control = .asking pos c into scope →
          ∃ looped args vs s₀ s₁,
            (looped, .host pos c.verb args into) ∈ sitesOf (codeOf moves) ∧
            Evaluated scope s₀ args vs s₁ ∧ Command.ofArgs c.verb vs = .ok c ∧
            (c.verb.arity.1 ≤ vs.length ∧ vs.length ≤ c.verb.arity.2) ∧ c.Takes vs) ∧
        ∀ pos verb reply into scope, t.machine.control = .replied pos verb reply into scope →
          ∃ s' m', Machine.step s t.machine = .next s' m' ∧
            (∀ v, reply = .ok v → verb ∈ [.read, .confirm, .prompt] →
              ∃ x, into = some x ∧ s' = { s with scopes := s.scopes.set scope x v }) ∧
            (¬ (reply.isOk ∧ verb ∈ [.read, .confirm, .prompt]) → s' = s) := by
  refine ⟨fun ts p looped q hp hq => (formed_of_parse hp looped q hq).complete, ?_⟩
  intro natives hn id maxDepth moves hparsed s t ⟨t₀, ht₀, hpasses⟩
  have hmoves : ∀ m ∈ moves, ∀ b ∈ m.code, b ∈ codeOf moves := fun m hm b hb => ⟨m, hm, hb⟩
  obtain ⟨hpart, hg⟩ := play_gathers hn id maxDepth moves hmoves
  have hprogress := hpart.progress
  rw [ht₀] at hprogress hg
  have hcontrol := (hpasses.gathers hpart.session hprogress hg).control
  have hcomplete : ∀ q ∈ sitesOf (codeOf moves), q.2.Complete := fun q ⟨b, hb, hq⟩ =>
    (hparsed b hb).complete hq
  refine ⟨fun pos c into scope hc => ?_, fun pos verb reply into scope hc => ?_⟩
  · rw [hc] at hcontrol
    obtain ⟨looped, verb, args, vs, s₀, s₁, hsite, hevaluated, hbuilt⟩ := hcontrol
    obtain ⟨hcount, -⟩ := hcomplete _ hsite
    obtain rfl := Command.verb_of_ofArgs hbuilt
    rw [← hevaluated.length_eq] at hcount
    exact ⟨looped, args, vs, s₀, s₁, hsite, hevaluated, hbuilt, hcount,
      Command.takes_of_ofArgs hcount.1 hcount.2 hbuilt⟩
  · rw [hc] at hcontrol
    obtain ⟨looped, args, hsite⟩ := hcontrol
    obtain ⟨-, hinto⟩ := hcomplete _ hsite
    rw [← Verb.answers_iff, ← hinto]
    obtain ⟨⟨control, k⟩, job⟩ := t
    obtain rfl : control = .replied pos verb reply into scope := hc
    cases reply with
    | error reason => exact ⟨s, _, rfl, nofun, fun _ => rfl⟩
    | ok v =>
      cases into with
      | none => exact ⟨s, _, rfl, nofun, fun _ => rfl⟩
      | some x =>
        refine ⟨_, _, rfl, ?_, ?_⟩
        · rintro _ ⟨⟩ -
          exact ⟨x, rfl, rfl⟩
        · exact fun h => absurd ⟨rfl, rfl⟩ h

/-- `prompt "name" "me" into $x` -/
def promptingTokens : List Token :=
  [⟨.keyword .prompt, "prompt", ⟨1, 1⟩⟩, ⟨.string "name", "\"name\"", ⟨1, 8⟩⟩,
    ⟨.string "me", "\"me\"", ⟨1, 15⟩⟩, ⟨.keyword .into, "into", ⟨1, 20⟩⟩,
    ⟨.variable "x", "$x", ⟨1, 25⟩⟩]

def prompting : Block :=
  .mk ⟨1, 1⟩ [.host ⟨1, 1⟩ .prompt
    [.literal ⟨1, 8⟩ (.string "name"), .literal ⟨1, 15⟩ (.string "me")] (some "x")]

/-- Both arguments are in the command, and the answer of the host is in the variable. -/
theorem host_statements_complete_prompting :
    let asked : List Move := [.main prompting, .run 9]
    let replied : List Move := asked ++ [.reply (.ok (.string "you"))]
    let l (moves : List Move) := (ofSession (.initial 7 Native.standard 9)).play moves
    (parse promptingTokens = .ok prompting ∧
      (∀ b ∈ codeOf asked, b.Parsed) ∧ ∀ b ∈ codeOf replied, b.Parsed) ∧
    (∃ s t pos scope, (l asked).Passes s t ∧
      t.machine.control = .asking pos (.prompt "name" (some "me")) (some "x") scope ∧
      ∃ vs, (Command.prompt "name" (some "me")).Takes vs) ∧
    ∃ s t pos scope s' m', (l replied).Passes s t ∧
      t.machine.control = .replied pos .prompt (.ok (.string "you")) (some "x") scope ∧
      Machine.step s t.machine = .next s' m' ∧ s'.global? "x" = some (.string "you") := by
  intro asked replied l
  have hparse : parse promptingTokens = .ok prompting := rfl
  have hcode (moves : List Move) (hm : ∀ m ∈ moves, ∀ b ∈ m.code, b = prompting) :
      ∀ b ∈ codeOf moves, b.Parsed := by
    rintro b ⟨m, hmem, hb⟩
    exact ⟨promptingTokens, prompting, hparse, .inl (hm m hmem b hb)⟩
  have hasked : ∀ b ∈ codeOf asked, b.Parsed := hcode asked (by simp [asked, Move.code])
  have hreplied : ∀ b ∈ codeOf replied, b.Parsed :=
    hcode replied (by simp [replied, asked, Move.code, Value.functions])
  obtain ⟨-, hrun⟩ := host_statements_complete
  refine ⟨⟨hparse, hasked, hreplied⟩, ?_, ?_⟩
  · have htext (x : String) : Value.text (.string x) = x := by simp [Value.text, Value.display]
    obtain ⟨s, t, hpasses, hcontrol⟩ : ∃ s t, (l asked).Passes s t ∧ t.machine.control =
        .asking ⟨1, 1⟩ (.prompt (Value.text (.string "name")) (some (Value.text (.string "me"))))
          (some "x") Arena.root := ⟨_, _, ⟨_, rfl, .start⟩, rfl⟩
    rw [htext, htext] at hcontrol
    obtain ⟨hbuilt, -⟩ := hrun _ Native.standard_tame 7 9 asked hasked s t hpasses
    obtain ⟨_, _, vs, _, _, _, _, _, _, htakes⟩ := hbuilt _ _ _ _ hcontrol
    exact ⟨s, t, _, _, hpasses, hcontrol, vs, htakes⟩
  · have hpasses : (l replied).Passes _ _ := ⟨_, rfl, .start⟩
    obtain ⟨-, hstored⟩ := hrun _ Native.standard_tame 7 9 replied hreplied _ _ hpasses
    obtain ⟨s', m', hstep, hset, -⟩ := hstored _ _ _ _ _ rfl
    obtain ⟨x, hx, rfl⟩ := hset _ rfl (by decide)
    obtain rfl := Option.some.inj hx
    refine ⟨_, _, ⟨1, 1⟩, Arena.root, _, m', hpasses, ?_, hstep, ?_⟩
    · simp only [Task.answer, Except.map, Value.rename_string]
      rfl
    · rw [Value.rename_string]
      rfl

end Life

end DeskScript
