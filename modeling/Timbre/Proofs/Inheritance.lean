import Timbre.Evaluation

/-!
# What evaluation inherits from its parts

The rules for the nodes are put together from a few kinds of work: to answer, to
fail, to look at the frames, to bind a name, and to do one piece of work after
another. A property that these have, and that a sequence has when its parts have
it, is therefore a property of evaluation for every budget, term and scope.

Rules fail in their own ways only. The faults about the entry of a call, that it is
unknown, has another form or gives no number, are left to the call.
-/

namespace Timbre

/-- Whether a fault may arise from evaluating a term; the others are about the entry
of a call. -/
def Fault.ofTerm : Fault → Bool
  | unknownDefinition _ | notEvaluable _ | nonNumericResult _ => false
  | _ => true

namespace Eval

/-- The work that rules are made of has a property, and a sequence inherits it from
its parts. -/
structure Inherited (holds : (α : Type) → Eval α → Prop) : Prop where
  pure {α : Type} (value : α) : holds α (pure value)
  raise {α : Type} (reason : Fault) : reason.ofTerm = true → holds α (raise reason)
  unfinished {α : Type} : holds α (throw .unfinished)
  get : holds Frames get
  bindName (scope : Scope) (name : String) (value : Value) :
    holds Scope (bindName scope name value)
  bind {α β : Type} {work : Eval α} {next : α → Eval β} :
    holds α work → (∀ value, holds β (next value)) → holds β (work >>= next)

namespace Inherited

variable {holds : (α : Type) → Eval α → Prop} (inherited : Inherited holds)

section Rules

variable {evaluate : Term → Scope → Eval Value}
  (inner : ∀ term scope, holds Value (evaluate term scope))

include inherited inner

/-- Asking for a number inherits the property: it is one evaluation, and a fault if
there is no number. -/
theorem number (term : Term) (scope : Scope) (context : String) (line : Nat) :
    holds Float (number evaluate term scope context line) := by
  apply inherited.bind (inner term scope)
  intro value
  cases value with
  | number value => exact inherited.pure value
  | closure => exact inherited.raise _ rfl
  | builtin => exact inherited.raise _ rfl
  | awaiting => exact inherited.raise _ rfl

/-- An application inherits the property, whatever is applied. -/
theorem apply (function : Value) (argument : Term) (scope : Scope) (line : Nat) :
    holds Value (apply evaluate function argument scope line) := by
  cases function with
  | number value => exact inherited.raise _ rfl
  | closure parameter body captured =>
    apply inherited.bind (inner argument scope)
    intro value
    apply inherited.bind (inherited.bindName captured parameter value)
    intro extended
    exact inner body extended
  | builtin operator =>
    cases operator with
    | unary operator =>
      apply inherited.bind (inherited.number inner argument scope operator.name line)
      intro x
      exact inherited.pure _
    | binary operator => exact inherited.pure _
  | awaiting operator operand captured =>
    apply inherited.bind (inherited.number inner operand captured operator.name line)
    intro a
    apply inherited.bind (inherited.number inner argument scope operator.name line)
    intro b
    exact inherited.pure _

/-- The value of a name inherits the property, wherever the name is bound. -/
theorem identifier (program : Program) (name : String) (line : Nat) (scope : Scope) :
    holds Value (identifier evaluate program name line scope) := by
  apply inherited.bind inherited.get
  intro frames
  cases frames.find scope name with
  | bound value => exact inherited.pure value
  | unbound =>
    cases found : program.definition name with
    | none => simpa only [found] using inherited.raise _ rfl
    | some definition => simpa only [found] using inner definition.body rootScope
  | endless => exact inherited.unfinished

/-- Binding definitions inherits the property; the induction is on the list. -/
theorem bindAll (definitions : List Definition) (scope : Scope) :
    holds Scope (bindAll evaluate definitions scope) := by
  induction definitions generalizing scope with
  | nil => exact inherited.pure scope
  | cons definition rest inductionHypothesis =>
    simp only [Eval.bindAll, List.foldlM_cons]
    apply inherited.bind
    · apply inherited.bind (inner definition.body scope)
      intro value
      exact inherited.bindName scope definition.name value
    · intro extended
      exact inductionHypothesis extended

/-- The choice of a clause inherits the property; the induction is on the clauses. -/
theorem choose (value : Int) (scope : Scope) (clauses : List Clause) :
    holds (Option Clause) (choose evaluate value scope clauses) := by
  induction clauses with
  | nil => exact inherited.pure none
  | cons clause rest inductionHypothesis =>
    cases form : clause.pattern with
    | none => simpa only [Eval.choose, form] using inherited.pure (some clause)
    | some pattern =>
      simp only [Eval.choose, form]
      apply inherited.bind (inherited.number inner pattern scope "case pattern" clause.line)
      intro candidate
      split
      · exact inherited.pure (some clause)
      · exact inductionHypothesis

/-- The evaluation of a node inherits the property from those of its parts. -/
theorem node (program : Program) (term : Term) (scope : Scope) :
    holds Value (node evaluate program term scope) := by
  cases term with
  | number value line => exact inherited.pure _
  | builtin operator line => exact inherited.pure _
  | lambda parameter body line => exact inherited.pure _
  | identifier name line => exact inherited.identifier inner program name line scope
  | application function argument line =>
    apply inherited.bind (inner function scope)
    intro value
    exact inherited.apply inner value argument scope line
  | conditional condition consequent alternative line =>
    apply inherited.bind (inherited.number inner condition scope "if" line)
    intro decision
    split
    · exact inner alternative scope
    · exact inner consequent scope
  | selection scrutinee clauses line =>
    apply inherited.bind (inherited.number inner scrutinee scope "case" line)
    intro value
    apply inherited.bind (inherited.choose inner (nearestWhole value) scope clauses)
    intro chosen
    cases chosen with
    | none => exact inherited.raise _ rfl
    | some clause => exact inner clause.result scope
  | binding definitions body line =>
    apply inherited.bind (inherited.bindAll inner definitions scope)
    intro extended
    exact inner body extended

end Rules

include inherited

/-- Induction on the budget, each step by the rule for the node. -/
theorem evaluate (program : Program) (budget : Nat) (term : Term) (scope : Scope) :
    holds Value (evaluate program budget term scope) := by
  induction budget generalizing term scope with
  | zero => exact inherited.unfinished
  | succ budget inductionHypothesis => exact inherited.node inductionHypothesis program term scope

/-- What a call does with the two parameters and the body of its entry. -/
theorem drive (nonNumeric : ∀ kind, holds Float (Eval.raise (.nonNumericResult kind)))
    (program : Program) (budget : Nat) (frequencyName timeName : String) (body : Term)
    (frequency time : Float) :
    holds Float (do
      let scope ← Eval.bindName rootScope frequencyName (.number frequency)
      let scope ← Eval.bindName scope timeName (.number time)
      match ← Timbre.evaluate program budget body scope with
      | .number value => return value
      | value => Eval.raise (.nonNumericResult value.kind)) := by
  apply inherited.bind (inherited.bindName rootScope frequencyName (.number frequency))
  intro outer
  apply inherited.bind (inherited.bindName outer timeName (.number time))
  intro scope
  apply inherited.bind (inherited.evaluate program budget body scope)
  intro value
  cases value with
  | number value => exact inherited.pure value
  | closure => exact nonNumeric _
  | builtin => exact nonNumeric _
  | awaiting => exact nonNumeric _

end Inherited

end Eval

end Timbre
