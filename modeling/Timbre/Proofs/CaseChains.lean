import Timbre.Proofs.Budgets
import Timbre.Proofs.LiveScopes

/-!
# Selections and chains of conditionals

A selection over numerals that ends in a wildcard can be written as a chain of
conditionals, one for each numeral, that compare the scrutinee with it. The selection
evaluates the scrutinee once and the chain once for each comparison, over frames that
have grown in between. Where the scrutinee stands for a number, both take the same
branch, and they finish alike.

Lexical meanings know nothing of frames, so there the scrutinee stands for the same
number each time. Machines follow by the environments that their live scopes represent.
-/

namespace Timbre

open Lexical (Meaning Environment Settles SettlesOn)

/-- What is seen of a result: a number as it is, and the type of anything else. -/
inductive Observation where
  | number (value : Float)
  | other (kind : Kind)

/-- What is seen of a value. -/
def Value.observation : Value → Observation
  | number value => .number value
  | value => .other value.kind

/-- What is seen of a meaning. -/
def Lexical.Meaning.observation : Meaning → Observation
  | number value => .number value
  | meaning => .other meaning.kind

/-- Only a number is seen as a number. -/
theorem Lexical.Meaning.eq_number_of_observation {answer : Except Failure Meaning}
    {value : Float} (seen : answer.map Meaning.observation = .ok (.number value)) :
    answer = .ok (.number value) := by
  cases answer with
  | error reason => nomatch seen
  | ok meaning =>
    cases meaning with
    | number found =>
      cases seen
      rfl
    | closure => nomatch seen
    | builtin => nomatch seen
    | awaiting => nomatch seen

/-- A value and a meaning that agree are seen alike. -/
theorem Agrees.observation_eq {frames : Frames} {value : Value} {meaning : Meaning}
    (agrees : Agrees frames value meaning) : value.observation = meaning.observation := by
  cases agrees <;> rfl

/-- What is seen of simulating work is what is seen of the answer. -/
theorem Eval.Simulates.observation_eq {frames : Frames} {work : Eval Value}
    {answer : Except Failure Meaning} (simulates : Simulates Agrees frames work answer) :
    (work.run frames : Except Failure Value × Frames).1.map Value.observation =
      answer.map Meaning.observation := by
  unfold Simulates at simulates
  cases outcome : (work.run frames : Except Failure Value × Frames) with
  | mk result after =>
    rw [outcome] at simulates
    cases result with
    | error reason =>
      cases answer with
      | error expected => exact congrArg Except.error simulates
      | ok meaning => exact simulates.elim
    | ok value =>
      cases answer with
      | error expected => exact simulates.elim
      | ok meaning => exact congrArg Except.ok simulates.observation_eq

namespace Machine

/-- What is seen of evaluating a term in a scope. -/
def observe (machine : Machine) (budget : Nat) (term : Term) (scope : Scope) :
    Except Failure Observation :=
  (machine.eval budget term scope).1.map Value.observation

/-- If the second term finishes within some budget, the first one is seen to finish in the
same way within every budget that is large enough. -/
def FinishesAs (machine : Machine) (scope : Scope) (first second : Term) : Prop :=
  ∀ budget, machine.observe budget second scope ≠ .error .unfinished →
    ∃ enough, ∀ more, enough ≤ more →
      machine.observe more first scope = machine.observe budget second scope

/-- A live scope of a machine stands for an environment, in which terms mean what the
machine finds. -/
theorem Reached.observe_eq {program : Program} {machine : Machine}
    (reached : Reached program machine) {scope : Scope} (live : machine.frames.Live scope) :
    ∃ environment, ∀ budget term,
      machine.observe budget term scope =
        (Lexical.evaluate program budget term environment).map Meaning.observation := by
  obtain ⟨environment, represented⟩ := reached.grounded.represents live
  refine ⟨environment, ?_⟩
  intro budget term
  have refines := refines_evaluate machine.program budget
  rw [← reached.program_eq]
  exact (refines.simulates reached.rooted represented term).observation_eq

end Machine

/-! ### Branches that are taken -/

/-- A truth value rounds to zero exactly when it is false. -/
theorem nearestWhole_truth (condition : Bool) :
    nearestWhole (truth condition) = 0 ↔ condition = false := by
  cases condition <;> decide

namespace Lexical.Settles

variable {program : Program} {environment : Environment} {scrutinee : Term} {value : Float}
  {answer : Except Failure Meaning}

/-- An infix operator gives its value for the numbers that its operands settle on. -/
theorem infixed {left right : Term} {a b : Float}
    (first : SettlesOn program environment left (.ok (.number a)))
    (second : SettlesOn program environment right (.ok (.number b)))
    (operator : BinaryBuiltin) (line : Nat) :
    SettlesOn program environment (.infixed operator left right line)
      (.ok (.number (operator.apply a b))) := by
  have partly : SettlesOn program environment
      (.application (.builtin (.binary operator) line) left line)
      (.ok (.awaiting operator left environment)) :=
    of_succ ((of_succ (const _)).bind (const _))
  apply of_succ
  apply partly.bind
  apply (first.number operator.name line).bind
  apply (second.number operator.name line).bind
  exact const _

/-- A conditional settles as the branch does that is taken. -/
theorem conditional {condition consequent alternative : Term} {decision : Float}
    (decided : SettlesOn program environment condition (.ok (.number decision)))
    (branch : SettlesOn program environment
      (if nearestWhole decision = 0 then alternative else consequent) answer) (line : Nat) :
    SettlesOn program environment (.conditional condition consequent alternative line)
      answer := by
  apply of_succ
  apply (decided.number "if" line).bind
  by_cases negative : nearestWhole decision = 0
  · simpa only [if_pos negative] using branch
  · simpa only [if_neg negative] using branch

/-- A comparison with a numeral decides by the nearest whole numbers. -/
theorem comparison {consequent alternative : Term} {numeral : Float}
    (settles : SettlesOn program environment scrutinee (.ok (.number value)))
    (branch : SettlesOn program environment
      (if nearestWhole numeral = nearestWhole value then consequent else alternative) answer)
    (numeralLine operatorLine line : Nat) :
    SettlesOn program environment
      (.conditional (.infixed .eq scrutinee (.number numeral numeralLine) operatorLine)
        consequent alternative line) answer := by
  have compared := settles.infixed (literal program environment numeral numeralLine) .eq
    operatorLine
  apply compared.conditional
  by_cases same : nearestWhole numeral = nearestWhole value
  · simpa [BinaryBuiltin.apply, nearestWhole_truth, same] using branch
  · simpa [BinaryBuiltin.apply, nearestWhole_truth, same, Ne.symm same] using branch

/-- A clause with a numeral is chosen if its nearest whole number is the one that is looked
for, and passed over otherwise. -/
theorem choose_numeral {clauses : List Clause} {numeral : Float} {target : Int}
    {result : Term} {patternLine line : Nat} {chosen : Except Failure (Option Clause)}
    (continued : Settles (fun budget =>
      if nearestWhole numeral = target then
        .ok (some ⟨some (.number numeral patternLine), result, line⟩)
      else choose (evaluate program budget) target environment clauses) chosen) :
    Settles (fun budget => choose (evaluate program budget) target environment
      (⟨some (.number numeral patternLine), result, line⟩ :: clauses)) chosen :=
  ((literal program environment numeral patternLine).number "case pattern" line).bind continued

/-- A selection settles as the result of the clause does that is chosen. -/
theorem selection {clauses : List Clause} {clause : Clause}
    (settles : SettlesOn program environment scrutinee (.ok (.number value)))
    (chosen : Settles
      (fun budget => choose (evaluate program budget) (nearestWhole value) environment clauses)
      (.ok (some clause)))
    (result : SettlesOn program environment clause.result answer) (line : Nat) :
    SettlesOn program environment (.selection scrutinee clauses line) answer := by
  apply of_succ
  apply (settles.number "case" line).bind
  apply chosen.bind
  exact result

end Lexical.Settles

/-- The chain of conditionals that takes the branches of a selection: a comparison of the
scrutinee with each numeral, and the result of the wildcard last. -/
inductive Unrolls (scrutinee : Term) : List Clause → Term → Prop where
  | wildcard (result : Term) (line : Nat) : Unrolls scrutinee [⟨none, result, line⟩] result
  | numeral {clauses : List Clause} {chain : Term} (value : Float) (result : Term)
      (line patternLine numeralLine operatorLine conditionalLine : Nat)
      (rest : Unrolls scrutinee clauses chain) :
      Unrolls scrutinee (⟨some (.number value patternLine), result, line⟩ :: clauses)
        (.conditional (.infixed .eq scrutinee (.number value numeralLine) operatorLine) result
          chain conditionalLine)

namespace Unrolls

variable {program : Program} {environment : Environment} {scrutinee chain : Term}
  {clauses : List Clause} {value : Float}

/-- The selection chooses a clause, and the chain settles as its result does. The induction
follows the chain: either the first numeral is the one, or both pass on to the rest. -/
theorem chosen (unrolls : Unrolls scrutinee clauses chain)
    (settles : SettlesOn program environment scrutinee (.ok (.number value))) :
    ∃ clause : Clause,
      Settles (fun budget => Lexical.choose (Lexical.evaluate program budget) (nearestWhole value)
        environment clauses) (.ok (some clause)) ∧
      ∀ answer, SettlesOn program environment clause.result answer →
        SettlesOn program environment chain answer := by
  induction unrolls with
  | wildcard result line => exact ⟨_, .const _, fun answer result => result⟩
  | numeral numeral result line patternLine numeralLine operatorLine conditionalLine rest
      inductionHypothesis =>
    by_cases same : nearestWhole numeral = nearestWhole value
    · refine ⟨⟨some (.number numeral patternLine), result, line⟩, .choose_numeral ?_, ?_⟩
      · simpa only [if_pos same] using Settles.const _
      · intro answer taken
        apply settles.comparison
        simpa only [if_pos same] using taken
    · obtain ⟨clause, chosen, follows⟩ := inductionHypothesis
      refine ⟨clause, .choose_numeral ?_, ?_⟩
      · simpa only [if_neg same] using chosen
      · intro answer taken
        apply settles.comparison
        simpa only [if_neg same] using follows answer taken

/-- A selection and its chain settle on one answer, which may be that neither finishes. -/
theorem settlesOn (unrolls : Unrolls scrutinee clauses chain)
    (settles : SettlesOn program environment scrutinee (.ok (.number value))) (line : Nat) :
    ∃ answer, SettlesOn program environment (.selection scrutinee clauses line) answer ∧
      SettlesOn program environment chain answer := by
  obtain ⟨clause, chosen, follows⟩ := unrolls.chosen settles
  obtain ⟨answer, result⟩ := Lexical.exists_settlesOn program environment clause.result
  exact ⟨answer, settles.selection chosen result line, follows answer result⟩

end Unrolls

namespace Machine

variable {program : Program} {machine : Machine} {scope : Scope}

/-- Terms that settle on one answer finish alike. -/
theorem finishesAs_of_settlesOn {environment : Environment} {first second : Term}
    {answer : Except Failure Meaning}
    (observed : ∀ budget term, machine.observe budget term scope =
      (Lexical.evaluate program budget term environment).map Meaning.observation)
    (settles : SettlesOn program environment first answer)
    (other : SettlesOn program environment second answer) :
    machine.FinishesAs scope first second := by
  intro budget finished
  rw [observed] at finished ⊢
  have same : Lexical.evaluate program budget second environment = answer := by
    apply other.eq_of_finished
    intro spent
    rw [spent] at finished
    exact finished rfl
  obtain ⟨enough, constant⟩ := settles
  refine ⟨enough, ?_⟩
  intro more le
  rw [observed, same]
  exact congrArg (Except.map Meaning.observation) (constant more le)

/-- Where the scrutinee stands for a number, a selection over numerals with a wildcard and
the chain of conditionals that compares with the numerals in order finish alike: with the
same number, with values of the same type, or with the same fault. -/
theorem selection_as_conditionals (reached : Reached program machine)
    (live : machine.frames.Live scope) {scrutinee chain : Term} {clauses : List Clause}
    (unrolls : Unrolls scrutinee clauses chain) {budget : Nat} {value : Float}
    (numeric : (machine.eval budget scrutinee scope).1 = .ok (.number value)) (line : Nat) :
    machine.FinishesAs scope (.selection scrutinee clauses line) chain ∧
      machine.FinishesAs scope chain (.selection scrutinee clauses line) := by
  obtain ⟨environment, observed⟩ := reached.observe_eq live
  have seen : (Lexical.evaluate program budget scrutinee environment).map Meaning.observation =
      .ok (.number value) := by
    rw [← observed, observe, numeric]
    rfl
  have found := Meaning.eq_number_of_observation seen
  obtain ⟨answer, selection, conditionals⟩ := unrolls.settlesOn (.of_ok found) line
  exact ⟨finishesAs_of_settlesOn observed selection conditionals,
    finishesAs_of_settlesOn observed conditionals selection⟩

/-- The scrutinee applies a function to a name that is bound, so that every comparison
leaves one more frame behind, and it is the second numeral that agrees. -/
theorem selection_as_conditionals_second :
    let machine := (start (.ofStatements [])).perform (.bind rootScope "x" (.number 2))
    let scrutinee := .application (.lambda "y" (.identifier "y" 1) 1) (.identifier "x" 1) 1
    let selection := .selection scrutinee [⟨some (.number 1 1), .number 10 1, 1⟩,
      ⟨some (.number 2 2), .number 20 2, 2⟩, ⟨none, .identifier "z" 3, 3⟩] 1
    let conditionals := .conditional (.infixed .eq scrutinee (.number 1 1) 1) (.number 10 1)
      (.conditional (.infixed .eq scrutinee (.number 2 2) 2) (.number 20 2)
        (.identifier "z" 3) 2) 1
    (machine.eval 2 scrutinee (some 1)).1 = .ok (.number 2) ∧
      machine.observe 3 selection (some 1) = .ok (.number 20) ∧
      machine.FinishesAs (some 1) selection conditionals ∧
      machine.FinishesAs (some 1) conditionals selection := by
  intro machine scrutinee selection conditionals
  have reached : Reached (.ofStatements []) machine :=
    .perform .start _ ⟨Frames.root_grounded.root, Frames.root.holds_number 2⟩
  have live : machine.frames.Live (some 1) :=
    Frames.root.bind_live rootScope "x" (.number 2)
  have numeric : (machine.eval 2 scrutinee (some 1)).1 = .ok (.number 2) := rfl
  refine ⟨numeric, rfl, ?_⟩
  apply selection_as_conditionals reached live ?_ numeric
  exact .numeral _ _ _ _ _ _ _ (.numeral _ _ _ _ _ _ _ (.wildcard _ _))

end Machine

end Timbre
