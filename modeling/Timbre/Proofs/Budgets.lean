import Timbre.Proofs.Lexical

/-!
# Larger budgets

A budget decides only whether evaluation finishes. An answer that is found within a
budget is found within every larger one, so the answers to growing budgets settle: on
the first one that is finished, or on none. What terms settle on can be put together
from what their parts settle on, without counting what each part spends.
-/

namespace Timbre.Lexical

variable {α β : Type}

/-- The later answer is the earlier one, unless that was not finished. -/
def Kept (earlier later : Except Failure α) : Prop :=
  earlier ≠ .error .unfinished → later = earlier

/-- An answer keeps itself. -/
theorem kept_refl (answer : Except Failure α) : Kept answer answer := fun _ => rfl

/-- A sequence keeps its answer if each of its parts does. -/
theorem Kept.bind {earlier later : Except Failure α} {next resume : α → Except Failure β}
    (first : Kept earlier later) (second : ∀ value, Kept (next value) (resume value)) :
    Kept (earlier >>= next) (later >>= resume) := by
  intro finished
  cases earlier with
  | error reason =>
    have same : later = .error reason := first fun spent => finished (congrArg (· >>= next) spent)
    rw [same]
    rfl
  | ok value =>
    have same : later = .ok value := first fun impossible => nomatch impossible
    rw [same]
    exact second value finished

/-! ### The rules for one node -/

section Rules

variable {smaller larger : Term → Environment → Except Failure Meaning}
  (kept : ∀ term environment, Kept (smaller term environment) (larger term environment))

include kept

/-- Asking for a number keeps its answer with a larger budget. -/
theorem kept_number (term : Term) (environment : Environment) (context : String) (line : Nat) :
    Kept (number smaller term environment context line)
      (number larger term environment context line) := by
  apply (kept term environment).bind
  intro meaning
  exact kept_refl _

/-- An application keeps its answer with a larger budget. -/
theorem kept_apply (function : Meaning) (argument : Term) (environment : Environment)
    (line : Nat) :
    Kept (apply smaller function argument environment line)
      (apply larger function argument environment line) := by
  cases function with
  | number value => exact kept_refl _
  | closure parameter body captured =>
    apply (kept argument environment).bind
    intro meaning
    exact kept body _
  | builtin operator =>
    cases operator with
    | unary operator =>
      apply (kept_number kept argument environment operator.name line).bind
      intro x
      exact kept_refl _
    | binary operator => exact kept_refl _
  | awaiting operator operand captured =>
    apply (kept_number kept operand captured operator.name line).bind
    intro a
    apply (kept_number kept argument environment operator.name line).bind
    intro b
    exact kept_refl _

/-- The meaning of a name is kept with a larger budget. -/
theorem kept_identifier (program : Program) (name : String) (line : Nat)
    (environment : Environment) :
    Kept (identifier smaller program name line environment)
      (identifier larger program name line environment) := by
  unfold identifier
  cases lookup name environment with
  | some meaning => exact kept_refl _
  | none =>
    cases program.definition name with
    | none => exact kept_refl _
    | some definition => exact kept definition.body root

/-- Adding definitions keeps its answer with a larger budget. -/
theorem kept_bindAll (definitions : List Definition) (environment : Environment) :
    Kept (bindAll smaller definitions environment) (bindAll larger definitions environment) := by
  induction definitions generalizing environment with
  | nil => exact kept_refl _
  | cons definition rest inductionHypothesis =>
    apply (kept definition.body environment).bind
    intro meaning
    exact inductionHypothesis _

/-- The choice of a clause is kept with a larger budget. -/
theorem kept_choose (value : Int) (environment : Environment) (clauses : List Clause) :
    Kept (choose smaller value environment clauses)
      (choose larger value environment clauses) := by
  induction clauses with
  | nil => exact kept_refl _
  | cons clause rest inductionHypothesis =>
    unfold choose
    cases clause.pattern with
    | none => exact kept_refl _
    | some pattern =>
      apply (kept_number kept pattern environment "case pattern" clause.line).bind
      intro candidate
      split
      · exact kept_refl _
      · exact inductionHypothesis

end Rules

variable {program : Program} {term : Term} {environment : Environment}

/-- One more evaluation inside another changes no finished answer. -/
theorem kept_evaluate_succ (program : Program) (budget : Nat) (term : Term)
    (environment : Environment) :
    Kept (evaluate program budget term environment)
      (evaluate program (budget + 1) term environment) := by
  induction budget generalizing term environment with
  | zero =>
    intro finished
    exact absurd rfl finished
  | succ budget kept =>
    cases term with
    | number value line => exact kept_refl _
    | builtin operator line => exact kept_refl _
    | lambda parameter body line => exact kept_refl _
    | identifier name line => exact kept_identifier kept program name line environment
    | application function argument line =>
      apply (kept function environment).bind
      intro meaning
      exact kept_apply kept meaning argument environment line
    | conditional condition consequent alternative line =>
      apply (kept_number kept condition environment "if" line).bind
      intro decision
      split
      · exact kept alternative environment
      · exact kept consequent environment
    | selection scrutinee clauses line =>
      apply (kept_number kept scrutinee environment "case" line).bind
      intro value
      apply (kept_choose kept (nearestWhole value) environment clauses).bind
      intro chosen
      cases chosen with
      | none => exact kept_refl _
      | some clause => exact kept clause.result environment
    | binding definitions body line =>
      apply (kept_bindAll kept definitions environment).bind
      intro inner
      exact kept body inner

/-- A finished answer is found within every larger budget. -/
theorem evaluate_kept {budget more : Nat} (le : budget ≤ more)
    (finished : evaluate program budget term environment ≠ .error .unfinished) :
    evaluate program more term environment = evaluate program budget term environment := by
  induction le with
  | refl => rfl
  | @step more le inductionHypothesis =>
    rw [← inductionHypothesis]
    apply kept_evaluate_succ
    rwa [inductionHypothesis]

/-! ### What growing budgets settle on -/

/-- The answers to growing budgets are the same from some budget on. -/
def Settles (answers : Nat → Except Failure α) (answer : Except Failure α) : Prop :=
  ∃ enough, ∀ more, enough ≤ more → answers more = answer

/-- What the answers for a term settle on. -/
abbrev SettlesOn (program : Program) (environment : Environment) (term : Term)
    (answer : Except Failure Meaning) : Prop :=
  Settles (fun budget => evaluate program budget term environment) answer

/-- A term settles on its finished answer, and on none if it has none. -/
theorem exists_settlesOn (program : Program) (environment : Environment) (term : Term) :
    ∃ answer, SettlesOn program environment term answer := by
  by_cases finishes : ∃ budget, evaluate program budget term environment ≠ .error .unfinished
  · obtain ⟨budget, finished⟩ := finishes
    exact ⟨_, budget, fun more le => evaluate_kept le finished⟩
  · refine ⟨.error .unfinished, 0, ?_⟩
    intro more _
    exact Classical.not_not.mp fun finished => finishes ⟨more, finished⟩

namespace Settles

/-- Answers that do not depend on the budget settle at once. -/
theorem const (answer : Except Failure α) : Settles (fun _ => answer) answer :=
  ⟨0, fun _ _ => rfl⟩

/-- The first evaluation can be left out of account. -/
theorem of_succ {answers : Nat → Except Failure α} {answer : Except Failure α}
    (settles : Settles (fun budget => answers (budget + 1)) answer) : Settles answers answer := by
  obtain ⟨enough, same⟩ := settles
  refine ⟨enough + 1, ?_⟩
  intro more le
  obtain ⟨fewer, rfl⟩ : ∃ fewer, more = fewer + 1 := ⟨more - 1, by omega⟩
  exact same fewer (by omega)

/-- A sequence settles once its parts have: from the larger of two budgets on, both
answer. -/
theorem bind {answers : Nat → Except Failure α} {next : Nat → α → Except Failure β}
    {value : α} {answer : Except Failure β} (first : Settles answers (.ok value))
    (second : Settles (fun budget => next budget value) answer) :
    Settles (fun budget => answers budget >>= next budget) answer := by
  obtain ⟨enough, same⟩ := first
  obtain ⟨sufficient, continued⟩ := second
  refine ⟨max enough sufficient, ?_⟩
  intro more le
  have found : answers more = .ok value := same more (by omega)
  have followed : next more value = answer := continued more (by omega)
  show answers more >>= next more = answer
  rw [found]
  exact followed

/-- What a term settles on is its answer within any budget that it finishes in. -/
theorem eq_of_finished {answer : Except Failure Meaning} {budget : Nat}
    (settles : SettlesOn program environment term answer)
    (finished : evaluate program budget term environment ≠ .error .unfinished) :
    evaluate program budget term environment = answer := by
  obtain ⟨enough, same⟩ := settles
  rw [← same (max budget enough) (by omega)]
  exact (evaluate_kept (by omega) finished).symm

/-- A term settles on the meaning that it is given within some budget. -/
theorem of_ok {meaning : Meaning} {budget : Nat}
    (found : evaluate program budget term environment = .ok meaning) :
    SettlesOn program environment term (.ok meaning) := by
  refine ⟨budget, ?_⟩
  intro more le
  rw [← found]
  exact evaluate_kept le fun spent => nomatch found.symm.trans spent

/-- A term that settles on a number settles on it where a number is asked for. -/
theorem number {value : Float}
    (settles : SettlesOn program environment term (.ok (.number value))) (context : String)
    (line : Nat) :
    Settles (fun budget => Lexical.number (evaluate program budget) term environment context line)
      (.ok value) :=
  settles.bind (const _)

/-- A numeral settles on its value. -/
theorem literal (program : Program) (environment : Environment) (value : Float) (line : Nat) :
    SettlesOn program environment (.number value line) (.ok (.number value)) :=
  of_succ (const _)

end Settles

end Timbre.Lexical
