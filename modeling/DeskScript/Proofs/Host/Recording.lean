import DeskScript.Host
import Mathlib.Data.List.Basic

/-!
# What a recording host answers

A recording host has a log, a table of failures and a table of queues, and answers are
queued, failures set and commands executed in any order. All that it says can be told from
the operations so far. Of the answers `queued` under a name, some have been `given`, and
the others wait in the same order:

    given name past ++ (after past).waiting name = queued name past       (given_append_waiting)

A command gets the oldest one that waits under its own name, or its default answer, unless it
is set to fail. Operations under other names make no difference.
-/

namespace DeskScript

namespace Recording

/-- What is done with a recording host. -/
inductive Op where
  | respond (name : String) (v : Value)
  | failOn (name message : String)
  | execute (c : Command)

namespace Op

/-- The name that an operation is about. -/
def name : Op → String
  | respond name _ | failOn name _ => name
  | execute c => c.verb.name

/-- The answer that is queued under a name. -/
def queued? (name : String) : Op → Option Value
  | respond n v => if n = name then some v else none
  | _ => none

/-- The message that commands of a name are made to fail with. -/
def message? (name : String) : Op → Option String
  | failOn n m => if n = name then some m else none
  | _ => none

end Op

def perform (r : Recording) : Op → Recording
  | .respond name v => r.respond name v
  | .failOn name message => r.failOn name message
  | .execute c => (r.execute c).2

/-- The host after some operations, of which the latest comes first. -/
def after (past : List Op) : Recording := past.foldr (fun op r => r.perform op) empty

/-- The answers that wait under a name, the oldest first. -/
def waiting (r : Recording) (name : String) : List Value := (Table.get? r.answers name).getD []

/-! ## What is known from the operations -/

/-- The answers ever queued under a name, the oldest first. -/
def queued (name : String) (past : List Op) : List Value :=
  (past.filterMap (Op.queued? name)).reverse

/-- The message in force: the one that was set last. -/
def failure? (name : String) (past : List Op) : Option String := past.findSome? (Op.message? name)

/-- The log that the operations should leave. -/
def entries : List Op → List LogEntry
  | [] => []
  | .execute c :: past => entries past ++ [⟨c, failure? c.verb.name past⟩]
  | _ :: past => entries past

/-- What the host has replied to the commands of a name that an answer was there for. -/
def given (name : String) : List Op → List Value
  | [] => []
  | .execute c :: past =>
    if c.verb.name = name ∧ failure? name past = none ∧
        (given name past).length < (queued name past).length then
      given name past ++ ((after past).execute c).1.toOption.toList
    else given name past
  | _ :: past => given name past

/-! ## One operation -/

section
variable (r : Recording) (name : String)

theorem waiting_respond (n : String) (v : Value) :
    (r.respond n v).waiting name =
      r.waiting name ++ (Op.queued? name (.respond n v)).toList := by
  by_cases h : n = name
  · simp [waiting, respond, Op.queued?, h]
  · simp [waiting, respond, Op.queued?, h, Table.get?_put_ne _ (Ne.symm h)]

theorem failures_failOn (n message : String) :
    Table.get? (r.failOn n message).failures name =
      (Op.message? name (.failOn n message)).or (Table.get? r.failures name) := by
  by_cases h : n = name
  · simp [failOn, Op.message?, h]
  · simp [failOn, Op.message?, h, Table.get?_put_ne _ (Ne.symm h)]

variable {r} {c : Command}

/-- A command that is made to fail leaves everything but the log. -/
theorem execute_failing {message : String} (h : Table.get? r.failures c.verb.name = some message) :
    r.execute c = (.error message, { r with log := r.log.push ⟨c, some message⟩ }) := by
  simp [execute, h]

theorem execute_waiting (h : Table.get? r.failures c.verb.name = none) {v : Value}
    {rest : List Value} (hw : r.waiting c.verb.name = v :: rest) :
    r.execute c = (.ok v,
      ⟨r.log.push ⟨c, none⟩, Table.put r.answers c.verb.name rest, r.failures⟩) := by
  unfold waiting at hw
  simp [execute, h, hw]

theorem execute_default (h : Table.get? r.failures c.verb.name = none)
    (hw : r.waiting c.verb.name = []) :
    r.execute c = (.ok c.defaultAnswer, { r with log := r.log.push ⟨c, none⟩ }) := by
  unfold waiting at hw
  simp [execute, h, hw]

variable (r c)

theorem failures_execute : (r.execute c).2.failures = r.failures := by
  cases hf : Table.get? r.failures c.verb.name with
  | some message => rw [execute_failing hf]
  | none =>
    cases hw : r.waiting c.verb.name with
    | nil => rw [execute_default hf hw]
    | cons v rest => rw [execute_waiting hf hw]

theorem log_execute : (r.execute c).2.log =
    r.log.push ⟨c, Table.get? r.failures c.verb.name⟩ := by
  cases hf : Table.get? r.failures c.verb.name with
  | some message => rw [execute_failing hf]
  | none =>
    cases hw : r.waiting c.verb.name with
    | nil => rw [execute_default hf hw]
    | cons v rest => rw [execute_waiting hf hw]

theorem reply_execute : (r.execute c).1 =
    match Table.get? r.failures c.verb.name with
    | some message => .error message
    | none => .ok ((r.waiting c.verb.name).head?.getD c.defaultAnswer) := by
  cases hf : Table.get? r.failures c.verb.name with
  | some message => rw [execute_failing hf]
  | none =>
    cases hw : r.waiting c.verb.name with
    | nil => rw [execute_default hf hw]; rfl
    | cons v rest => rw [execute_waiting hf hw]; rfl

theorem waiting_execute : (r.execute c).2.waiting name =
    if c.verb.name = name ∧ Table.get? r.failures name = none then (r.waiting name).tail
    else r.waiting name := by
  by_cases hname : c.verb.name = name
  · subst hname
    cases hf : Table.get? r.failures c.verb.name with
    | some message => simp [execute_failing hf, waiting]
    | none =>
      cases hw : r.waiting c.verb.name with
      | nil => simpa [execute_default hf hw, waiting] using hw
      | cons v rest => simp [execute_waiting hf hw, waiting]
  · rw [if_neg fun h => hname h.1]
    have hput (rest : List Value) : Table.get? (Table.put r.answers c.verb.name rest) name =
        Table.get? r.answers name := Table.get?_put_ne _ (Ne.symm hname) rest
    cases hf : Table.get? r.failures c.verb.name with
    | some message => simp [execute_failing hf, waiting]
    | none =>
      cases hw : r.waiting c.verb.name with
      | nil => simp [execute_default hf hw, waiting]
      | cons v rest => simp [execute_waiting hf hw, waiting, hput]

end

/-! ## All operations -/

theorem failures_after (name : String) (past : List Op) :
    Table.get? (after past).failures name = failure? name past := by
  induction past with
  | nil => rfl
  | cons op past ih =>
    have hafter : after (op :: past) = (after past).perform op := rfl
    rw [hafter, failure?, List.findSome?_cons]
    cases op with
    | respond n v => exact ih
    | failOn n message =>
      rw [perform, failures_failOn, ih]
      cases Op.message? name (.failOn n message) <;> rfl
    | execute c => rw [perform, failures_execute, ih]; rfl

theorem log_after (past : List Op) : (after past).log.toList = entries past := by
  induction past with
  | nil => rfl
  | cons op past ih =>
    have hafter : after (op :: past) = (after past).perform op := rfl
    rw [hafter]
    cases op with
    | respond n v => exact ih
    | failOn n message => exact ih
    | execute c =>
      rw [perform, log_execute, Array.toList_push, ih, failures_after]
      rfl

theorem queued_cons (name : String) (op : Op) (past : List Op) :
    queued name (op :: past) = queued name past ++ (op.queued? name).toList := by
  cases h : op.queued? name <;> simp [queued, h]

/-- **No answer is lost, given twice or given out of order.** -/
theorem given_append_waiting (name : String) (past : List Op) :
    given name past ++ (after past).waiting name = queued name past := by
  induction past with
  | nil => rfl
  | cons op past ih =>
    have hafter : after (op :: past) = (after past).perform op := rfl
    rw [hafter, queued_cons]
    cases op with
    | respond n v =>
      have hgiven : given name (.respond n v :: past) = given name past := rfl
      rw [hgiven, perform, waiting_respond, ← List.append_assoc, ih]
    | failOn n message => exact ih.trans (List.append_nil _).symm
    | execute c =>
      simp only [Op.queued?, Option.toList_none, List.append_nil]
      rw [perform, waiting_execute, given, failures_after]
      by_cases h : c.verb.name = name ∧ failure? name past = none
      · obtain ⟨rfl, hf⟩ := h
        have hreply := reply_execute (after past) c
        rw [failures_after, hf] at hreply
        -- an answer is given exactly if one waits
        cases hw : (after past).waiting c.verb.name with
        | nil => simp [← ih, hw]
        | cons v rest => simp [← ih, hw, hf, hreply, Except.toOption]
      · rw [if_neg h, if_neg fun h' => h ⟨h'.1, h'.2.1⟩, ih]

theorem head?_waiting_after (name : String) (past : List Op) :
    ((after past).waiting name).head? = (queued name past)[(given name past).length]? := by
  rw [← given_append_waiting, List.getElem?_append_right (Nat.le_refl _), Nat.sub_self,
    List.head?_eq_getElem?]

/-- The reply to a command, by the operations before it. -/
theorem reply_after (past : List Op) (c : Command) :
    ((after past).execute c).1 =
      match failure? c.verb.name past with
      | some message => .error message
      | none => .ok ((queued c.verb.name past)[(given c.verb.name past).length]?.getD
          c.defaultAnswer) := by
  rw [reply_execute, failures_after, head?_waiting_after]

/-! ## Operations under other names -/

section
variable (name : String) (past : List Op)

/-- The operations under one name. -/
def under : List Op := past.filter (·.name = name)

theorem failure?_under : failure? name (under name past) = failure? name past := by
  induction past with
  | nil => rfl
  | cons op past ih =>
    by_cases h : op.name = name
    · rw [under, List.filter_cons_of_pos (by simpa using h)]
      simp only [failure?, List.findSome?_cons] at ih ⊢
      rw [← ih]
      rfl
    · rw [under, List.filter_cons_of_neg (by simpa using h)]
      have hnone : op.message? name = none := by cases op <;> simp_all [Op.message?, Op.name]
      rw [failure?, failure?, List.findSome?_cons, hnone]
      exact ih

theorem queued_under : queued name (under name past) = queued name past := by
  induction past with
  | nil => rfl
  | cons op past ih =>
    rw [queued_cons, ← ih]
    by_cases h : op.name = name
    · rw [under, List.filter_cons_of_pos (by simpa using h), queued_cons]
      rfl
    · rw [under, List.filter_cons_of_neg (by simpa using h)]
      have hnone : op.queued? name = none := by cases op <;> simp_all [Op.queued?, Op.name]
      rw [hnone, Option.toList_none, List.append_nil]
      rfl

theorem given_under : given name (under name past) = given name past := by
  induction past with
  | nil => rfl
  | cons op past ih =>
    by_cases h : op.name = name
    · have hcons : under name (op :: past) = op :: under name past :=
        List.filter_cons_of_pos (by simpa using h)
      rw [hcons]
      cases op with
      | respond n v => exact ih
      | failOn n message => exact ih
      | execute c =>
        obtain rfl : c.verb.name = name := h
        simp only [given, reply_after, failure?_under, queued_under, ih]
    · have hskip : under name (op :: past) = under name past :=
        List.filter_cons_of_neg (by simpa using h)
      rw [hskip, ih]
      cases op with
      | respond n v => rfl
      | failOn n message => rfl
      | execute c => rw [given, if_neg fun h' => h h'.1]

end

/-- **A recording host is a faithful log with a queue for each name.** After any operations, the log
has one entry for each command, in order, with the message in force at its time. Under each name
the answers given and then those waiting are the ones that were queued. The next command fails
with the message in force, and then no answer is taken; otherwise it gets the oldest answer not yet
given under its name, or its default answer. Only what was done under its name matters for that. -/
theorem answers_in_order (past : List Op) :
    (after past).log.toList = entries past ∧
    (∀ name, given name past ++ (after past).waiting name = queued name past) ∧
    (∀ c message, failure? c.verb.name past = some message →
      ((after past).execute c).1 = .error message ∧
      ∀ name, ((after past).execute c).2.waiting name = (after past).waiting name) ∧
    (∀ c, failure? c.verb.name past = none →
      ((after past).execute c).1 = .ok ((queued c.verb.name past)[(given c.verb.name past).length]?.getD
        c.defaultAnswer)) ∧
    (∀ c past', past'.filter (·.name = c.verb.name) = past.filter (·.name = c.verb.name) →
      ((after past').execute c).1 = ((after past).execute c).1) := by
  refine ⟨log_after past, fun name => given_append_waiting name past, fun c message h => ?_,
    fun c h => ?_, fun c past' h => ?_⟩
  · have hfailing := execute_failing ((failures_after _ past).trans h)
    exact ⟨by rw [hfailing], fun name => by rw [hfailing]; rfl⟩
  · rw [reply_after, h]
  · have hsame : under c.verb.name past' = under c.verb.name past := h
    rw [reply_after, reply_after, ← failure?_under, ← queued_under, ← given_under, hsame,
      failure?_under, queued_under, given_under]

/-- Two answers for `confirm` and one for `read`, a command answered and one made to fail. -/
def interview : List Op :=
  [.execute (.read "b"), .failOn "read" "gone", .failOn "read" "busy", .execute (.confirm "a"),
    .respond "read" (.string "text"), .respond "confirm" (.bool false),
    .respond "confirm" (.bool true)]

theorem answers_in_order_interview :
    (entries interview).map (·.failure) = [none, some "gone"] ∧
    (failure? "read" interview = some "gone" ∧ failure? "confirm" interview = none) ∧
    ((after interview).execute (.read "c")).1 = .error "gone" ∧
    given "confirm" interview = [.bool true] ∧
    ((after interview).execute (.confirm "d")).1 = .ok (.bool false) ∧
    ((after interview).execute (.prompt "e" (some "f"))).1 = .ok (.string "f") := by
  obtain ⟨-, -, hfailing, hanswered, -⟩ := answers_in_order interview
  exact ⟨rfl, ⟨rfl, rfl⟩, (hfailing (.read "c") "gone" rfl).1, rfl, hanswered (.confirm "d") rfl,
    hanswered (.prompt "e" (some "f")) rfl⟩

end Recording

end DeskScript
