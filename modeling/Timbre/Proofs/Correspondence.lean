import Timbre.Proofs.LexicalRefinement
import Timbre.Proofs.Occurrence

/-!
# Programs that answer alike

Two programs may differ in their text and still answer every call in the same way.
That is shown by a correspondence between their terms. Corresponding terms are the
same kind of node, on the same line, over corresponding parts. Nothing is asked of
the clauses after a wildcard, which are never tried. The first definitions of a
name correspond as well, unless the name is that of the circle constant: every
environment binds it, so a definition of it is never looked for.

Corresponding terms have meanings that cannot be told apart, in environments that
agree on the free names of the first one. This is proved by induction on the budget,
over the rules for one node. Along the way every fault is traced to the node that
raised it, which is one of the terms that have a counterpart.
-/

namespace Timbre

open Lexical (Meaning Environment lookup)

/-- A name is free in a term. -/
def Term.Mentions (term : Term) (name : String) : Prop := ∃ line, term.Free name line

/-- The faults that a node raises by itself, as opposed to its parts. -/
inductive Term.Raises : Term → Fault → Prop where
  | unknown (name : String) (line : Nat) :
      Raises (.identifier name line) (.unknownIdentifier name line)
  | inapplicable (function argument : Term) (line : Nat) (found : Kind) :
      Raises (.application function argument line) (.notApplicable found line)
  | operand (function argument : Term) (line : Nat) (operator : String) (found : Kind) :
      Raises (.application function argument line) (.expectedNumber operator found line)
  | condition (condition consequent alternative : Term) (line : Nat) (found : Kind) :
      Raises (.conditional condition consequent alternative line)
        (.expectedNumber "if" found line)
  | scrutinee (scrutinee : Term) (clauses : List Clause) (line : Nat) (found : Kind) :
      Raises (.selection scrutinee clauses line) (.expectedNumber "case" found line)
  | pattern {clauses : List Clause} {clause : Clause} (listed : clause ∈ clauses)
      (scrutinee : Term) (line : Nat) (found : Kind) :
      Raises (.selection scrutinee clauses line)
        (.expectedNumber "case pattern" found clause.line)
  | unmatched {clauses : List Clause} (selective : ∀ clause ∈ clauses, clause.pattern ≠ none)
      (scrutinee : Term) (line : Nat) (value : Int) :
      Raises (.selection scrutinee clauses line) (.noMatchingClause value line)

section Nodes

variable (terms : Term → Term → Prop)

/-- Clauses that are tried and taken alike. -/
inductive ClausesMatch : List Clause → List Clause → Prop where
  | nil : ClausesMatch [] []
  | wildcard {result other : Term} {line place : Nat} {rest others : List Clause}
      (results : terms result other) :
      ClausesMatch (⟨none, result, line⟩ :: rest) (⟨none, other, place⟩ :: others)
  | pattern {pattern counterpart result other : Term} {line : Nat} {rest others : List Clause}
      (patterns : terms pattern counterpart) (results : terms result other)
      (following : ClausesMatch rest others) :
      ClausesMatch (⟨some pattern, result, line⟩ :: rest)
        (⟨some counterpart, other, line⟩ :: others)

/-- Definitions that bind the same names to corresponding terms. -/
inductive DefinitionsMatch : List Definition → List Definition → Prop where
  | nil : DefinitionsMatch [] []
  | cons {name : String} {body counterpart : Term} {line place : Nat}
      {rest others : List Definition} (bodies : terms body counterpart)
      (following : DefinitionsMatch rest others) :
      DefinitionsMatch (⟨name, body, line⟩ :: rest) (⟨name, counterpart, place⟩ :: others)

/-- The same kind of node over corresponding parts. -/
inductive Matches : Term → Term → Prop where
  | number (value : Float) (line : Nat) : Matches (.number value line) (.number value line)
  | builtin (operator : Builtin) (line : Nat) :
      Matches (.builtin operator line) (.builtin operator line)
  | identifier (name : String) (line : Nat) :
      Matches (.identifier name line) (.identifier name line)
  | lambda {body other : Term} (parameter : String) (line : Nat) (bodies : terms body other) :
      Matches (.lambda parameter body line) (.lambda parameter other line)
  | application {function argument applied operand : Term} (line : Nat)
      (functions : terms function applied) (arguments : terms argument operand) :
      Matches (.application function argument line) (.application applied operand line)
  | conditional {condition consequent alternative decision positive negative : Term}
      (line : Nat) (conditions : terms condition decision)
      (consequents : terms consequent positive) (alternatives : terms alternative negative) :
      Matches (.conditional condition consequent alternative line)
        (.conditional decision positive negative line)
  | selection {scrutinee examined : Term} {clauses others : List Clause} (line : Nat)
      (scrutinees : terms scrutinee examined) (choices : ClausesMatch terms clauses others) :
      Matches (.selection scrutinee clauses line) (.selection examined others line)
  | binding {definitions others : List Definition} {body inside : Term} (line : Nat)
      (bound : DefinitionsMatch terms definitions others) (bodies : terms body inside) :
      Matches (.binding definitions body line) (.binding others inside line)

end Nodes

/-- First definitions that correspond: neither is there, or the bodies do. -/
abbrev DefinedAlike (terms : Term → Term → Prop) (program other : Program) (name : String) :
    Prop :=
  Option.Rel (fun first second : Definition => terms first.body second.body)
    (program.definition name) (other.definition name)

/-- Terms of one program with counterparts in another. -/
structure Correspondence (program other : Program) where
  terms : Term → Term → Prop
  nodes : ∀ {term counterpart}, terms term counterpart → Matches terms term counterpart
  definitions : ∀ name, name ≠ circleConstantName → DefinedAlike terms program other name

/-- What a new machine answers is what lexical scoping prescribes. -/
theorem Program.call_eq_meaning (program : Program) (budget : Nat) (name : String)
    (frequency time : Float) :
    program.call budget name frequency time =
      Lexical.call program budget name frequency time :=
  Machine.call_rooted_lexical (.start program) Frames.root_rooted budget name frequency time

namespace Correspondence

variable {program other : Program} (between : Correspondence program other)

/-- A term that has a counterpart raises a fault. -/
def Raised (reason : Fault) : Prop :=
  ∃ term counterpart, between.terms term counterpart ∧ term.Raises reason

/-- Meanings that cannot be told apart. Captured environments bind the circle
constant and agree on the free names of what was captured. -/
inductive Alike : Meaning → Meaning → Prop where
  | number (value : Float) : Alike (.number value) (.number value)
  | builtin (operator : Builtin) : Alike (.builtin operator) (.builtin operator)
  | closure {parameter : String} {body counterpart : Term} {captured others : Environment}
      (bodies : between.terms body counterpart)
      (constant : (lookup circleConstantName captured).isSome)
      (agree : ∀ name, name ≠ parameter → body.Mentions name →
        Option.Rel Alike (lookup name captured) (lookup name others)) :
      Alike (.closure parameter body captured) (.closure parameter counterpart others)
  | awaiting {operator : BinaryBuiltin} {operand counterpart : Term}
      {captured others : Environment} (operands : between.terms operand counterpart)
      (constant : (lookup circleConstantName captured).isSome)
      (agree : ∀ name, operand.Mentions name →
        Option.Rel Alike (lookup name captured) (lookup name others)) :
      Alike (.awaiting operator operand captured) (.awaiting operator counterpart others)

/-- Environments that agree as far as a term can see, and bind the circle constant. -/
structure Agree (term : Term) (environment others : Environment) : Prop where
  constant : (lookup circleConstantName environment).isSome
  alike : ∀ name, term.Mentions name →
    Option.Rel between.Alike (lookup name environment) (lookup name others)

/-- Both answers are successes that `holds` is true of, or both are the same failure.
A fault that is not about the entry of a call has been raised by a term with a
counterpart. -/
inductive SameAnswer {α β : Type} (holds : α → β → Prop) :
    Except Failure α → Except Failure β → Prop where
  | ok {value : α} {result : β} (related : holds value result) :
      SameAnswer holds (.ok value) (.ok result)
  | error {reason : Failure}
      (traced : ∀ fault, reason = .fault fault → fault.ofTerm = true → between.Raised fault) :
      SameAnswer holds (.error reason) (.error reason)

variable {between} {α β γ δ : Type}

namespace SameAnswer

/-- A sequence has the same answer in both programs if each of its parts has. -/
theorem bind {holds : α → β → Prop} {later : γ → δ → Prop} {answer : Except Failure α}
    {expected : Except Failure β} {next : α → Except Failure γ} {resume : β → Except Failure δ}
    (first : between.SameAnswer holds answer expected)
    (second : ∀ value result, holds value result →
      between.SameAnswer later (next value) (resume result)) :
    between.SameAnswer later (answer >>= next) (expected >>= resume) := by
  cases first with
  | ok related => exact second _ _ related
  | error traced => exact .error traced

/-- A fault is the same answer, if a term with a counterpart raises it or it is about
the entry. -/
theorem raise {holds : α → β → Prop} {reason : Fault}
    (raised : reason.ofTerm = true → between.Raised reason) :
    between.SameAnswer holds (Lexical.raise reason) (Lexical.raise reason) := by
  refine .error ?_
  intro fault same ordinary
  cases same
  exact raised ordinary

/-- A budget that is spent on both sides is the same answer. -/
theorem unfinished {holds : α → β → Prop} :
    between.SameAnswer holds (.error .unfinished) (.error .unfinished) :=
  .error fun _ impossible => nomatch impossible

/-- The same answer about equal values is an equal answer. -/
theorem eq {answer expected : Except Failure α} (same : between.SameAnswer Eq answer expected) :
    answer = expected := by
  cases same with
  | ok same => rw [same]
  | error traced => rfl

end SameAnswer

namespace Agree

/-- A part of a term sees no more than the term does. -/
theorem part {term inner : Term} {environment others : Environment}
    (agree : between.Agree term environment others)
    (seen : ∀ name line, inner.Free name line → term.Free name line) :
    between.Agree inner environment others := by
  refine ⟨agree.constant, ?_⟩
  rintro name ⟨line, free⟩
  exact agree.alike name ⟨line, seen name line free⟩

/-- A name is bound to alike meanings where all other names that a term sees have
alike meanings. -/
theorem cons {term : Term} {environment others : Environment} {name : String}
    {meaning counterpart : Meaning} (alike : between.Alike meaning counterpart)
    (constant : (lookup circleConstantName environment).isSome)
    (outer : ∀ free, free ≠ name → term.Mentions free →
      Option.Rel between.Alike (lookup free environment) (lookup free others)) :
    between.Agree term ((name, meaning) :: environment) ((name, counterpart) :: others) := by
  constructor
  · by_cases same : name = circleConstantName
    · simp [lookup, same]
    · simpa [lookup, same] using constant
  · intro free mentioned
    by_cases same : name = free
    · simpa [lookup, same] using Option.Rel.some alike
    · simpa [lookup, same] using outer free (Ne.symm same) mentioned

/-- One more name that is bound to alike meanings. -/
theorem extend {term : Term} {environment others : Environment} {meaning counterpart : Meaning}
    (agree : between.Agree term environment others) (name : String)
    (alike : between.Alike meaning counterpart) :
    between.Agree term ((name, meaning) :: environment) ((name, counterpart) :: others) :=
  cons alike agree.constant fun free _ mentioned => agree.alike free mentioned

/-- The environment of definitions agrees with itself. -/
theorem root (term : Term) : between.Agree term Lexical.root Lexical.root := by
  refine ⟨rfl, ?_⟩
  intro name _
  by_cases same : circleConstantName = name
  · simpa [lookup, Lexical.root, same] using Option.Rel.some (.number circleConstant)
  · simp [lookup, Lexical.root, same]

end Agree

/-! ### The rules for one node -/

/-- Evaluators that answer alike for corresponding terms where environments agree. -/
def AnswersAlike (between : Correspondence program other)
    (evaluate reference : Term → Environment → Except Failure Meaning) : Prop :=
  ∀ {term counterpart environment others}, between.terms term counterpart →
    between.Agree term environment others →
      between.SameAnswer between.Alike (evaluate term environment) (reference counterpart others)

section Rules

variable {evaluate reference : Term → Environment → Except Failure Meaning}
  (inner : between.AnswersAlike evaluate reference) {environment others : Environment}

include inner

/-- Asking corresponding terms for a number has the same answer. -/
theorem number_alike {term counterpart : Term} (corresponds : between.terms term counterpart)
    (agree : between.Agree term environment others) (context : String) (line : Nat)
    (raised : ∀ found, between.Raised (.expectedNumber context found line)) :
    between.SameAnswer Eq (Lexical.number evaluate term environment context line)
      (Lexical.number reference counterpart others context line) := by
  apply (inner corresponds agree).bind
  intro meaning expected alike
  cases alike with
  | number value => exact .ok rfl
  | builtin operator => exact .raise fun _ => raised _
  | closure bodies constant known => exact .raise fun _ => raised _
  | awaiting operands constant known => exact .raise fun _ => raised _

/-- Meanings that cannot be told apart answer alike when they are applied to
corresponding arguments. -/
theorem apply_alike {first second : Meaning} (functions : between.Alike first second)
    {function argument operand node : Term} {line : Nat}
    (whole : between.terms (.application function argument line) node)
    (corresponds : between.terms argument operand)
    (agree : between.Agree argument environment others) :
    between.SameAnswer between.Alike (Lexical.apply evaluate first argument environment line)
      (Lexical.apply reference second operand others line) := by
  have raised : ∀ operator found, between.Raised (.expectedNumber operator found line) :=
    fun operator found => ⟨_, node, whole, .operand function argument line operator found⟩
  cases functions with
  | number value =>
    exact .raise fun _ => ⟨_, node, whole, .inapplicable function argument line _⟩
  | closure bodies constant known =>
    apply (inner corresponds agree).bind
    intro meaning expected alike
    exact inner bodies (.cons alike constant known)
  | builtin operator =>
    cases operator with
    | unary operator =>
      apply (number_alike inner corresponds agree operator.name line (raised _)).bind
      rintro x _ rfl
      exact .ok (.number _)
    | binary operator => exact .ok (.awaiting corresponds agree.constant agree.alike)
  | @awaiting operator kept counterpart captured outer operands constant known =>
    apply (number_alike inner operands ⟨constant, known⟩ operator.name line (raised _)).bind
    rintro a _ rfl
    apply (number_alike inner corresponds agree operator.name line (raised _)).bind
    rintro b _ rfl
    exact .ok (.number _)

/-- The environment binds the circle constant, so a name that is not bound is another
one, and its definitions correspond. -/
theorem identifier_alike {name : String} {line : Nat}
    (whole : between.terms (.identifier name line) (.identifier name line))
    (agree : between.Agree (.identifier name line) environment others) :
    between.SameAnswer between.Alike
      (Lexical.identifier evaluate program name line environment)
      (Lexical.identifier reference other name line others) := by
  have found := agree.alike name ⟨line, .identifier⟩
  have ordinary : lookup name environment = none → name ≠ circleConstantName := by
    rintro unbound rfl
    simpa [unbound] using agree.constant
  unfold Lexical.identifier
  generalize lookup name environment = first at found ordinary ⊢
  generalize lookup name others = second at found ⊢
  cases found with
  | some alike => exact .ok alike
  | none =>
    have defined := between.definitions name (ordinary rfl)
    unfold DefinedAlike at defined
    generalize program.definition name = left at defined ⊢
    generalize other.definition name = right at defined ⊢
    cases defined with
    | none => exact .raise fun _ => ⟨_, _, whole, .unknown name line⟩
    | some bodies => exact inner bodies (.root _)

/-- Definitions are bound one after another, and the environments that result agree
as far as the body can see. What the later definitions and the body see, apart from
the name bound first, the whole binding sees too. -/
theorem bindAll_alike {definitions counterparts : List Definition}
    (matched : DefinitionsMatch between.terms definitions counterparts) {body : Term}
    {line : Nat} (agree : between.Agree (.binding definitions body line) environment others) :
    between.SameAnswer (between.Agree body)
      (Lexical.bindAll evaluate definitions environment)
      (Lexical.bindAll reference counterparts others) := by
  induction matched generalizing environment others with
  | nil => exact .ok (agree.part fun name place free => .body (by simp) free)
  | @cons name first counterpart _ _ rest remaining bodies following inductionHypothesis =>
    have seen : between.Agree first environment others := agree.part fun free place inside =>
      @Term.Free.bound free place [] rest ⟨name, first, _⟩ body line (by simp) inside
    apply (inner bodies seen).bind
    intro meaning expected alike
    apply inductionHypothesis
    refine .cons alike agree.constant ?_
    rintro free different ⟨place, inside⟩
    refine agree.alike free ⟨place, ?_⟩
    cases inside with
    | @bound before after definition _ _ unseen inside =>
      refine @Term.Free.bound free place (⟨name, first, _⟩ :: before) after definition body line
        ?_ inside
      simpa using ⟨Ne.symm different, unseen⟩
    | body unseen inside =>
      refine .body ?_ inside
      simpa using ⟨Ne.symm different, unseen⟩

/-- Corresponding clauses are taken, or no clause is a wildcard and none is taken. -/
theorem choose_alike {clauses counterparts : List Clause}
    (matched : ClausesMatch between.terms clauses counterparts)
    (agree : ∀ clause ∈ clauses, ∀ pattern, clause.pattern = some pattern →
      between.Agree pattern environment others)
    (raised : ∀ clause ∈ clauses, ∀ found,
      between.Raised (.expectedNumber "case pattern" found clause.line)) (value : Int) :
    between.SameAnswer
      (fun chosen expected =>
        Option.Rel (fun clause counterpart : Clause => clause ∈ clauses ∧
          between.terms clause.result counterpart.result) chosen expected ∧
        (chosen = none → ∀ clause ∈ clauses, clause.pattern ≠ none))
      (Lexical.choose evaluate value environment clauses)
      (Lexical.choose reference value others counterparts) := by
  induction matched with
  | nil => exact .ok ⟨.none, by simp⟩
  | wildcard results => exact .ok ⟨.some ⟨.head _, results⟩, by simp⟩
  | @pattern pattern counterpart result taken line rest remaining patterns results following
      inductionHypothesis =>
    apply (number_alike inner patterns (agree _ (.head _) pattern rfl) "case pattern" line
      (raised _ (.head _))).bind
    rintro candidate _ rfl
    have later := inductionHypothesis (fun clause member => agree clause (.tail _ member))
      (fun clause member => raised clause (.tail _ member))
    split
    · exact .ok ⟨.some ⟨.head _, results⟩, by simp⟩
    · generalize Lexical.choose evaluate value environment rest = answer at later ⊢
      generalize Lexical.choose reference value others remaining = expected at later ⊢
      cases later with
      | error traced => exact .error traced
      | ok related =>
        obtain ⟨chosen, selective⟩ := related
        refine .ok ⟨?_, ?_⟩
        · cases chosen with
          | none => exact .none
          | some taken => exact .some ⟨.tail _ taken.1, taken.2⟩
        · intro none clause member
          cases member with
          | head => simp
          | tail _ member => exact selective none clause member

end Rules

/-! ### Evaluation and calls -/

/-- Corresponding terms answer alike for every budget: induction on the budget, with
one case for each node. -/
theorem evaluate_alike (between : Correspondence program other) (budget : Nat) :
    between.AnswersAlike (Lexical.evaluate program budget) (Lexical.evaluate other budget) := by
  induction budget with
  | zero =>
    intro term counterpart environment others corresponds agree
    exact .unfinished
  | succ budget inner =>
    intro term counterpart environment others corresponds agree
    cases between.nodes corresponds with
    | number value line => exact .ok (.number value)
    | builtin operator line => exact .ok (.builtin operator)
    | identifier name line => exact identifier_alike inner corresponds agree
    | lambda parameter line bodies =>
      refine .ok (.closure bodies agree.constant ?_)
      rintro name different ⟨place, free⟩
      exact agree.alike name ⟨place, .lambda (Ne.symm different) free⟩
    | application line functions arguments =>
      apply (inner functions (agree.part fun _ _ => .function)).bind
      intro meaning expected alike
      exact apply_alike inner alike corresponds arguments (agree.part fun _ _ => .argument)
    | @conditional condition consequent alternative _ _ _ line conditions consequents
        alternatives =>
      apply (number_alike inner conditions (agree.part fun _ _ => .condition) "if" line
        fun found =>
          ⟨_, _, corresponds, .condition condition consequent alternative line found⟩).bind
      rintro decision _ rfl
      split
      · exact inner alternatives (agree.part fun _ _ => .alternative)
      · exact inner consequents (agree.part fun _ _ => .consequent)
    | @selection scrutinee examined clauses counterparts line scrutinees choices =>
      apply (number_alike inner scrutinees (agree.part fun _ _ => .scrutinee) "case" line
        fun found => ⟨_, _, corresponds, .scrutinee scrutinee clauses line found⟩).bind
      rintro value _ rfl
      apply (choose_alike inner choices
        (fun clause member pattern form => agree.part fun _ _ => .pattern member form)
        (fun clause member found => ⟨_, _, corresponds, .pattern member scrutinee line found⟩)
        (nearestWhole value)).bind
      rintro chosen expected ⟨taken, selective⟩
      cases taken with
      | none =>
        exact .raise fun _ =>
          ⟨_, _, corresponds, .unmatched (selective rfl) scrutinee line (nearestWhole value)⟩
      | some taken => exact inner taken.2 (agree.part fun _ _ => .result taken.1)
    | binding line bound bodies =>
      apply (bindAll_alike inner bound agree).bind
      intro inside expected within
      exact inner bodies within

/-- Corresponding terms are driven as waveforms with the same parameters over
corresponding bodies, or neither is. -/
theorem asWaveform_alike {term counterpart : Term}
    (corresponds : between.terms term counterpart) :
    Option.Rel (fun first second : String × String × Term => first.1 = second.1 ∧
      first.2.1 = second.2.1 ∧ between.terms first.2.2 second.2.2)
      term.asWaveform counterpart.asWaveform := by
  cases between.nodes corresponds with
  | lambda frequency line outer =>
    cases between.nodes outer with
    | lambda time line inner => exact .some ⟨rfl, rfl, inner⟩
    | _ => exact .none
  | _ => exact .none

/-- Meanings that cannot be told apart give a waveform the same answer. -/
theorem result_alike {first second : Meaning} : between.Alike first second →
    between.SameAnswer Eq
      (match first with
        | .number value => return value
        | meaning => Lexical.raise (.nonNumericResult meaning.kind))
      (match second with
        | .number value => return value
        | meaning => Lexical.raise (.nonNumericResult meaning.kind)) := by
  intro alike
  cases alike with
  | number value => exact .ok rfl
  | builtin operator => exact .raise fun impossible => nomatch impossible
  | closure bodies constant known => exact .raise fun impossible => nomatch impossible
  | awaiting operands constant known => exact .raise fun impossible => nomatch impossible

variable {name : String}

/-- A call of a name whose definitions correspond has the same answer. -/
theorem call_alike (entry : DefinedAlike between.terms program other name) (budget : Nat)
    (frequency time : Float) :
    between.SameAnswer Eq (Lexical.call program budget name frequency time)
      (Lexical.call other budget name frequency time) := by
  unfold DefinedAlike at entry
  rw [Lexical.call_eq_asWaveform, Lexical.call_eq_asWaveform]
  generalize program.definition name = left at entry ⊢
  generalize other.definition name = right at entry ⊢
  cases entry with
  | none => exact .raise fun impossible => nomatch impossible
  | @some definition counterpart bodies =>
    have waveforms := between.asWaveform_alike bodies
    dsimp only
    generalize definition.body.asWaveform = first at waveforms ⊢
    generalize counterpart.body.asWaveform = second at waveforms ⊢
    cases waveforms with
    | none => exact .raise fun impossible => nomatch impossible
    | @some driven expected same =>
      obtain ⟨frequencyName, timeName, body⟩ := driven
      obtain ⟨_, _, inside⟩ := expected
      obtain ⟨rfl, rfl, corresponds⟩ := same
      have started : between.Agree body Lexical.root Lexical.root := .root body
      have bound := (started.extend frequencyName (.number frequency)).extend timeName
        (.number time)
      apply (between.evaluate_alike budget corresponds bound).bind
      intro meaning expected alike
      exact result_alike alike

/-- A call of a name whose definitions correspond gives the same number or the same
failure in both programs. -/
theorem call_eq (entry : DefinedAlike between.terms program other name) (budget : Nat)
    (frequency time : Float) :
    program.call budget name frequency time = other.call budget name frequency time := by
  rw [program.call_eq_meaning, other.call_eq_meaning]
  exact (call_alike entry budget frequency time).eq

/-- A call that fails inside the body of its entry has met a term with a counterpart
that raises the fault. -/
theorem call_raised (entry : DefinedAlike between.terms program other name) {budget : Nat}
    {frequency time : Float} {reason : Fault}
    (failed : program.call budget name frequency time = .error (.fault reason))
    (ordinary : reason.ofTerm = true) : between.Raised reason := by
  have answers := call_alike entry budget frequency time
  rw [program.call_eq_meaning] at failed
  rw [failed] at answers
  generalize Lexical.call other budget name frequency time = expected at answers
  cases answers with
  | error traced => exact traced reason rfl ordinary

end Correspondence

end Timbre
