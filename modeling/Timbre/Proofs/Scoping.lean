import Timbre.Proofs.LexicalRefinement
import Timbre.Proofs.Occurrence

/-!
# Unknown identifiers are unbound in the program

Names are looked for while a program runs, in scopes that closures and waiting
operators carry far from where they were made. Still the names that such a scope
knows are those that the program text binds around the captured term. So an
identifier that is not found is one that the text leaves unbound: nothing around
it binds its name, the name is not that of the circle constant, and no definition
has it.

The invariant is about what is captured. Each free identifier of a captured term
is bound by the environment captured with it, or it is accounted for: it is free
in a definition of the program as well.
-/

namespace Timbre

/-- An identifier that the program text leaves without a meaning. -/
structure Program.Unresolved (program : Program) (name : String) (line : Nat) : Prop where
  occurs : program.HasFree name line
  constant : name ≠ circleConstantName
  undefined : ¬ program.Defines name

/-- Every identifier is bound around it, is the circle constant or names a
definition. -/
def Program.Resolved (program : Program) : Prop :=
  ∀ statement ∈ program.statements, ∀ name line, statement.term.Free name line →
    name = circleConstantName ∨ program.Defines name

namespace Lexical

/-- The names that an environment binds. -/
def names (environment : Environment) : List String := environment.map Prod.fst

/-- A name that is not found is not bound. -/
theorem lookup_eq_none {name : String} {environment : Environment}
    (missing : lookup name environment = none) : name ∉ names environment := by
  induction environment with
  | nil => simp [names]
  | cons binding outer inductionHypothesis =>
    obtain ⟨bound, meaning⟩ := binding
    by_cases same : bound = name
    · simp [lookup, same] at missing
    · simp only [lookup, same, if_false] at missing
      have outside := inductionHypothesis missing
      simp only [names, List.map_cons, List.mem_cons, not_or]
      exact ⟨fun equal => same equal.symm, outside⟩

/-- What is found for a name is bound to it. -/
theorem lookup_eq_some {name : String} {meaning : Meaning} {environment : Environment}
    (found : lookup name environment = some meaning) : (name, meaning) ∈ environment := by
  induction environment with
  | nil => cases found
  | cons binding outer inductionHypothesis =>
    obtain ⟨bound, first⟩ := binding
    by_cases same : bound = name
    · simp only [lookup, same, if_true, Option.some.injEq] at found
      simp [same, found]
    · simp only [lookup, same, if_false] at found
      exact List.mem_cons_of_mem _ (inductionHypothesis found)

section Invariant

variable (origin : String → Nat → Prop)

/-- The free identifiers of a term that are not among the bound names are
accounted for. -/
def Accounted (bound : List String) (term : Term) : Prop :=
  ∀ name line, term.Free name line → name ∉ bound → name ≠ circleConstantName ∧ origin name line

/-- Captured terms are accounted for in the environments captured with them. -/
inductive Grounded : Meaning → Prop where
  | number (value : Float) : Grounded (.number value)
  | builtin (operator : Builtin) : Grounded (.builtin operator)
  | closure {parameter : String} {body : Term} {captured : Environment}
      (accounted : Accounted origin (parameter :: names captured) body)
      (grounded : ∀ binding ∈ captured, Grounded binding.2) :
      Grounded (.closure parameter body captured)
  | awaiting {operator : BinaryBuiltin} {operand : Term} {captured : Environment}
      (accounted : Accounted origin (names captured) operand)
      (grounded : ∀ binding ∈ captured, Grounded binding.2) :
      Grounded (.awaiting operator operand captured)

/-- All that an environment binds is grounded. -/
def GroundedAll (environment : Environment) : Prop :=
  ∀ binding ∈ environment, Grounded origin binding.2

/-- An answer that `holds` is true of, or a failure. If the failure is about an
unknown identifier, that identifier is accounted for and has no definition. -/
def Traced {α : Type} (program : Program) (holds : α → Prop) : Except Failure α → Prop
  | .ok value => holds value
  | .error reason => ∀ name line, reason = .fault (.unknownIdentifier name line) →
      (name ≠ circleConstantName ∧ origin name line) ∧ ¬ program.Defines name

end Invariant

variable {origin : String → Nat → Prop} {program : Program} {α β : Type}

/-- A grounded meaning in front leaves an environment grounded. -/
theorem groundedAll_cons {environment : Environment} {meaning : Meaning} (name : String)
    (first : Grounded origin meaning) (rest : GroundedAll origin environment) :
    GroundedAll origin ((name, meaning) :: environment) := by
  intro binding member
  obtain rfl | member := List.mem_cons.mp member
  · exact first
  · exact rest binding member

/-- The root is grounded: the circle constant is a number. -/
theorem groundedAll_root : GroundedAll origin root :=
  groundedAll_cons circleConstantName (.number circleConstant) (by simp [GroundedAll])

/-- What is free in a definition is accounted for where only the circle constant
is bound. -/
theorem accounted_root {term : Term}
    (accounted : ∀ name line, term.Free name line → origin name line) :
    Accounted origin (names root) term := by
  intro name line free unbound
  refine ⟨?_, accounted name line free⟩
  simpa [names, root] using unbound

/-- The parameter of a lambda is bound in its body. -/
theorem Accounted.body {bound : List String} {parameter : String} {body : Term} {line : Nat}
    (accounted : Accounted origin bound (.lambda parameter body line)) :
    Accounted origin (parameter :: bound) body := by
  intro name place free unbound
  rw [List.mem_cons, not_or] at unbound
  exact accounted name place (.lambda (Ne.symm unbound.1) free) unbound.2

namespace Traced

variable {holds : α → Prop} {result : β → Prop}

/-- A sequence is traced if its parts are. -/
theorem bind {answer : Except Failure α} {next : α → Except Failure β}
    (first : Traced origin program holds answer)
    (second : ∀ value, holds value → Traced origin program result (next value)) :
    Traced origin program result (answer >>= next) := by
  cases answer with
  | error reason => exact first
  | ok value => exact second value first

/-- A fault of another kind is about no unknown identifier. -/
theorem raise {reason : Fault} (other : ∀ name line, reason ≠ .unknownIdentifier name line) :
    Traced origin program holds (Lexical.raise reason) := by
  intro name line same
  exact absurd (Failure.fault.inj same) (other name line)

end Traced

/-! ### The rules for one node

The evaluator inside is known to be traced wherever a term is accounted for. -/

/-- Evaluation of accounted terms gives grounded meanings, or fails as it may. -/
def TracedBelow (origin : String → Nat → Prop) (program : Program)
    (evaluate : Term → Environment → Except Failure Meaning) : Prop :=
  ∀ term environment, Accounted origin (names environment) term → GroundedAll origin environment →
    Traced origin program (Grounded origin) (evaluate term environment)

section Rules

variable {evaluate : Term → Environment → Except Failure Meaning}
  (traced : TracedBelow origin program evaluate) {environment : Environment}
  (grounded : GroundedAll origin environment)

include traced grounded

/-- Asking an accounted term for a number is traced. -/
theorem traced_number {term : Term} (accounted : Accounted origin (names environment) term)
    (context : String) (line : Nat) :
    Traced origin program (fun _ => True) (number evaluate term environment context line) := by
  apply (traced term environment accounted grounded).bind
  intro meaning _
  cases meaning with
  | number value => exact trivial
  | closure => exact Traced.raise (by simp)
  | builtin => exact Traced.raise (by simp)
  | awaiting => exact Traced.raise (by simp)

/-- Applying a grounded meaning to an accounted argument is traced. -/
theorem traced_apply {function : Meaning} (known : Grounded origin function) {argument : Term}
    (accounted : Accounted origin (names environment) argument) (line : Nat) :
    Traced origin program (Grounded origin)
      (apply evaluate function argument environment line) := by
  cases known with
  | number value => exact Traced.raise (by simp)
  | closure body captured =>
    apply (traced argument environment accounted grounded).bind
    intro meaning first
    exact traced _ _ body (groundedAll_cons _ first captured)
  | builtin operator =>
    cases operator with
    | unary operator =>
      apply (traced_number traced grounded accounted operator.name line).bind
      intro x _
      exact Grounded.number _
    | binary operator => exact Grounded.awaiting accounted grounded
  | @awaiting operator operand captured kept outer =>
    apply (traced_number traced outer kept operator.name line).bind
    intro a _
    apply (traced_number traced grounded accounted operator.name line).bind
    intro b _
    exact Grounded.number _

/-- An identifier that is neither bound nor defined is free in its own node, so
the invariant accounts for it. -/
theorem traced_identifier
    (definitions : ∀ name line, program.HasFree name line → origin name line)
    {name : String} {line : Nat}
    (accounted : Accounted origin (names environment) (.identifier name line)) :
    Traced origin program (Grounded origin)
      (identifier evaluate program name line environment) := by
  unfold identifier
  cases found : lookup name environment with
  | some meaning => exact grounded _ (lookup_eq_some found)
  | none =>
    cases defined : program.definition name with
    | some definition =>
      have listed := (Program.defines_of_definition defined).1
      have known : Accounted origin (names root) definition.body :=
        accounted_root fun name line free => definitions name line ⟨definition, listed, free⟩
      exact traced definition.body root known groundedAll_root
    | none =>
      intro other place same
      cases same
      exact ⟨accounted name line .identifier (lookup_eq_none found),
        Program.definition_eq_none.mp defined⟩

/-- The definitions of a binding are bound one after another, and the body is
accounted for in the environment that results. What is free in the binding of the
later definitions and not the name of the first is free in the whole. -/
theorem traced_bindAll {definitions : List Definition} {body : Term} {line : Nat}
    (accounted : Accounted origin (names environment) (.binding definitions body line)) :
    Traced origin program
      (fun inner => GroundedAll origin inner ∧ Accounted origin (names inner) body)
      (bindAll evaluate definitions environment) := by
  induction definitions generalizing environment with
  | nil =>
    refine ⟨grounded, ?_⟩
    intro name place free unbound
    exact accounted name place (.body (by simp) free) unbound
  | cons definition rest inductionHypothesis =>
    have first : Accounted origin (names environment) definition.body := by
      intro name place free unbound
      have whole := @Term.Free.bound name place [] rest definition body line (by simp) free
      exact accounted name place whole unbound
    apply (traced definition.body environment first grounded).bind
    intro meaning known
    apply inductionHypothesis (groundedAll_cons definition.name known grounded)
    intro name place free unbound
    simp only [names, List.map_cons, List.mem_cons, not_or] at unbound
    obtain ⟨different, outside⟩ := unbound
    refine accounted name place ?_ outside
    cases free with
    | @bound before after other body place unseen inside =>
      have earlier : ∀ previous ∈ definition :: before, previous.name ≠ name := by
        simpa using ⟨Ne.symm different, unseen⟩
      exact .bound earlier inside
    | body unseen inside =>
      refine .body ?_ inside
      simpa using ⟨Ne.symm different, unseen⟩

/-- The clause that is taken is one of the clauses. -/
theorem traced_choose {clauses : List Clause}
    (accounted : ∀ clause ∈ clauses, ∀ pattern, clause.pattern = some pattern →
      Accounted origin (names environment) pattern) (value : Int) :
    Traced origin program (fun chosen => ∀ clause, chosen = some clause → clause ∈ clauses)
      (choose evaluate value environment clauses) := by
  induction clauses with
  | nil =>
    intro clause same
    cases same
  | cons clause rest inductionHypothesis =>
    unfold choose
    cases form : clause.pattern with
    | none =>
      intro chosen same
      cases same
      simp
    | some pattern =>
      have known := accounted clause (by simp) pattern form
      apply (traced_number traced grounded known "case pattern" clause.line).bind
      intro candidate _
      have later := inductionHypothesis fun other member => accounted other (by simp [member])
      split
      · intro chosen same
        cases same
        simp
      · revert later
        cases choose evaluate value environment rest with
        | error reason => exact id
        | ok chosen =>
          intro later clause same
          exact List.mem_cons_of_mem _ (later clause same)

end Rules

section Program

variable (definitions : ∀ name line, program.HasFree name line → origin name line)

include definitions

/-- The invariant holds of the evaluator for every budget: induction on the
budget, with one case for each node. -/
theorem traced_evaluate (budget : Nat) :
    TracedBelow origin program (evaluate program budget) := by
  induction budget with
  | zero =>
    intro term environment accounted grounded name line same
    cases same
  | succ budget traced =>
    intro term environment accounted grounded
    cases term with
    | number value line => exact Grounded.number value
    | builtin operator line => exact Grounded.builtin operator
    | lambda parameter body line => exact Grounded.closure accounted.body grounded
    | identifier name line => exact traced_identifier traced grounded definitions accounted
    | application function argument line =>
      have first : Accounted origin (names environment) function :=
        fun name place free => accounted name place (.function free)
      have second : Accounted origin (names environment) argument :=
        fun name place free => accounted name place (.argument free)
      apply (traced function environment first grounded).bind
      intro meaning known
      exact traced_apply traced grounded known second line
    | conditional condition consequent alternative line =>
      have tested : Accounted origin (names environment) condition :=
        fun name place free => accounted name place (.condition free)
      apply (traced_number traced grounded tested "if" line).bind
      intro decision _
      split
      · exact traced alternative environment
          (fun name place free => accounted name place (.alternative free)) grounded
      · exact traced consequent environment
          (fun name place free => accounted name place (.consequent free)) grounded
    | selection scrutinee clauses line =>
      have examined : Accounted origin (names environment) scrutinee :=
        fun name place free => accounted name place (.scrutinee free)
      apply (traced_number traced grounded examined "case" line).bind
      intro value _
      have patterns : ∀ clause ∈ clauses, ∀ pattern, clause.pattern = some pattern →
          Accounted origin (names environment) pattern :=
        fun clause listed pattern form name place free =>
          accounted name place (.pattern listed form free)
      apply (traced_choose traced grounded patterns (nearestWhole value)).bind
      intro chosen listed
      cases chosen with
      | none => exact Traced.raise (by simp)
      | some clause =>
        exact traced clause.result environment
          (fun name place free => accounted name place (.result (listed clause rfl) free)) grounded
    | binding definitions body line =>
      apply (traced_bindAll traced grounded accounted).bind
      rintro inner ⟨extended, known⟩
      exact traced body inner known extended

/-- A call keeps the invariant from the start: the body of a waveform sees its two
parameters and the circle constant. -/
theorem traced_call (budget : Nat) (name : String) (frequency time : Float) :
    Traced origin program (fun _ => True) (call program budget name frequency time) := by
  unfold call
  cases found : program.definition name with
  | none => exact Traced.raise (by simp)
  | some definition =>
    obtain ⟨definitionName, term, line⟩ := definition
    dsimp only
    have listed := (Program.defines_of_definition found).1
    have whole : Accounted origin (names root) term :=
      accounted_root fun name line free => definitions name line ⟨_, listed, free⟩
    -- Either the body is a pair of nested lambdas or the call is refused.
    split
    · rename_i frequencyName timeName body _ _
      have grounded : GroundedAll origin
          ((timeName, .number time) :: (frequencyName, .number frequency) :: root) :=
        groundedAll_cons _ (.number time)
          (groundedAll_cons _ (.number frequency) groundedAll_root)
      apply (traced_evaluate definitions budget body
        ((timeName, .number time) :: (frequencyName, .number frequency) :: root)
        whole.body.body grounded).bind
      intro meaning _
      cases meaning with
      | number value => exact trivial
      | closure => exact Traced.raise (by simp)
      | builtin => exact Traced.raise (by simp)
      | awaiting => exact Traced.raise (by simp)
    · exact Traced.raise (by simp)

end Program

end Lexical

namespace Machine

variable {machine : Machine} {budget : Nat} {name : String} {line : Nat}

/-- A call that does not find an identifier has met one that the program leaves
unresolved. -/
theorem call_unresolved (rooted : machine.frames.Rooted) {entry : String}
    {frequency time : Float}
    (failed : (machine.call budget entry frequency time).1 =
      .error (.fault (.unknownIdentifier name line))) :
    machine.program.Unresolved name line := by
  rw [call_rooted_lexical machine rooted] at failed
  have traced : Lexical.Traced machine.program.HasFree machine.program (fun _ => True)
      (Lexical.call machine.program budget entry frequency time) :=
    Lexical.traced_call (fun _ _ free => free) budget entry frequency time
  rw [failed] at traced
  obtain ⟨⟨constant, occurs⟩, undefined⟩ := traced name line rfl
  exact ⟨occurs, constant, undefined⟩

/-- Evaluating a term in the root scope fails only as its lexical meaning does. -/
theorem eval_root_failure (rooted : machine.frames.Rooted) {term : Term} {reason : Failure}
    (failed : (machine.eval budget term rootScope).1 = .error reason) :
    Lexical.evaluate machine.program budget term Lexical.root = .error reason := by
  have simulates :=
    (refines_evaluate machine.program budget).simulates rooted rooted.represents term
  unfold Eval.Simulates at simulates
  simp only [eval, run] at failed
  cases outcome : ((evaluate machine.program budget term rootScope).run machine.frames :
      Except Failure Value × Frames) with
  | mk result after =>
    rw [outcome] at simulates failed
    cases failed
    cases answer : Lexical.evaluate machine.program budget term Lexical.root with
    | ok meaning => simp [answer] at simulates
    | error expected =>
      simp only [answer] at simulates
      rw [simulates]

/-- The same for a term in the root scope: the identifier is free in the term or
in a definition. -/
theorem eval_unresolved (rooted : machine.frames.Rooted) {term : Term}
    (failed : (machine.eval budget term rootScope).1 =
      .error (.fault (.unknownIdentifier name line))) :
    (term.Free name line ∨ machine.program.HasFree name line) ∧
      name ≠ circleConstantName ∧ ¬ machine.program.Defines name := by
  let origin := fun name line => term.Free name line ∨ machine.program.HasFree name line
  have accounted : Lexical.Accounted origin (Lexical.names Lexical.root) term :=
    Lexical.accounted_root fun _ _ free => .inl free
  have evaluated : Lexical.TracedBelow origin machine.program _ :=
    Lexical.traced_evaluate (fun _ _ free => .inr free) budget
  have traced := evaluated term Lexical.root accounted Lexical.groundedAll_root
  rw [eval_root_failure rooted failed] at traced
  obtain ⟨⟨constant, occurs⟩, undefined⟩ := traced name line rfl
  exact ⟨occurs, constant, undefined⟩

/-- Scoping is sound. A call that reports an unknown identifier reports one that is
free in a definition of the program, is not the circle constant and is not
defined, whatever the machine did before. In a program whose identifiers are all
resolved, neither a call nor the evaluation of a statement reports one. -/
theorem scope_soundness (program : Program) (history : List Operation) (budget : Nat) :
    (∀ entry frequency time name line,
      (((start program).performAll history).call budget entry frequency time).1 =
          .error (.fault (.unknownIdentifier name line)) →
        program.Unresolved name line) ∧
    (program.Resolved →
      (∀ entry frequency time name line,
        (((start program).performAll history).call budget entry frequency time).1 ≠
          .error (.fault (.unknownIdentifier name line))) ∧
      ∀ statement ∈ program.statements, ∀ name line,
        (((start program).performAll history).eval budget statement.term rootScope).1 ≠
          .error (.fault (.unknownIdentifier name line))) := by
  have rooted : ((start program).performAll history).frames.Rooted :=
    performAll_rooted (start program) history Frames.root_rooted
  have same : ((start program).performAll history).program = program :=
    performAll_program (start program) history
  -- In a resolved program nothing that is free in a statement is unresolved.
  have resolves : program.Resolved → ∀ statement ∈ program.statements, ∀ name line,
      statement.term.Free name line → name ≠ circleConstantName → program.Defines name := by
    intro resolved statement member name line free constant
    exact (resolved statement member name line free).resolve_left constant
  have called : ∀ entry frequency time name line,
      (((start program).performAll history).call budget entry frequency time).1 =
          .error (.fault (.unknownIdentifier name line)) →
        program.Unresolved name line := by
    intro entry frequency time name line failed
    have unresolved := call_unresolved rooted failed
    rwa [same] at unresolved
  refine ⟨called, fun resolved => ⟨?_, ?_⟩⟩
  · intro entry frequency time name line failed
    obtain ⟨⟨definition, listed, free⟩, constant, undefined⟩ :=
      called entry frequency time name line failed
    have member := Program.statement_of_definition listed
    exact undefined (resolves resolved _ member name line free constant)
  · intro statement member name line failed
    obtain ⟨occurs, constant, undefined⟩ := eval_unresolved rooted failed
    rw [same] at occurs undefined
    obtain free | ⟨definition, listed, free⟩ := occurs
    · exact undefined (resolves resolved statement member name line free constant)
    · have member := Program.statement_of_definition listed
      exact undefined (resolves resolved _ member name line free constant)

/-- The closure `\x. y` meets the unknown name far from the line it stands on, and
the program with `x` in its place has nothing unresolved. -/
theorem scope_soundness_constant_function :
    let wave (name : String) := Program.ofStatements [
      .definition ⟨"k", .lambda "x" (.identifier name 1) 1, 1⟩,
      .definition ⟨"main", .lambda "f" (.lambda "t"
        (.application (.identifier "k" 2) (.identifier "f" 2) 2) 2) 2, 2⟩]
    ((start (wave "y")).call 4 "main" 440 0).1 = .error (.fault (.unknownIdentifier "y" 1)) ∧
      (wave "y").Unresolved "y" 1 ∧ (wave "x").Resolved ∧
      ∀ name line, ((start (wave "x")).call 4 "main" 440 0).1 ≠
        .error (.fault (.unknownIdentifier name line)) := by
  intro wave
  have failed : ((start (wave "y")).call 4 "main" 440 0).1 =
      .error (.fault (.unknownIdentifier "y" 1)) := rfl
  have resolved : (wave "x").Resolved := by
    intro statement member name line free
    simp only [wave, Program.ofStatements, List.mem_cons, List.not_mem_nil, or_false] at member
    obtain rfl | rfl := member
    · cases free with
      | lambda different inside =>
        cases inside
        exact absurd rfl different
    · cases free with
      | lambda different inside =>
        cases inside with
        | lambda _ inside =>
          cases inside with
          | function inside =>
            cases inside
            exact .inr ⟨_, .head _, rfl⟩
          | argument inside =>
            cases inside
            exact absurd rfl different
  exact ⟨failed, (scope_soundness (wave "y") [] 4).1 _ _ _ _ _ failed, resolved,
    ((scope_soundness (wave "x") [] 4).2 resolved).1 _ _ _⟩

end Machine

end Timbre
