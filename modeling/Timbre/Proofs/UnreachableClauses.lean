import Mathlib.Data.List.Forall2
import Mathlib.Data.List.Nodup
import Timbre.Proofs.ClausePlaces
import Timbre.Proofs.Diagnostics

/-!
# Warnings about unreachable clauses

The diagnostics about clauses are one for each unreachable clause outside patterns,
in the order of a walk over the program. The clauses are listed by their places, so
this is a correspondence between warnings and clauses and not only one between their
lines.

It is put together from lists of places for parts that no place has in common. A
node lists the places in its parts, one part after another; a selection also lists
its own clauses, each before what stands in its result.
-/

namespace Timbre

/-- A list of values, each of which something holds of together with a key. All such
keys take part, each once. -/
def Enumerates {κ β : Type} (holds : κ → β → Prop) (values : List β) : Prop :=
  ∃ keys : List κ, keys.Nodup ∧ (∀ key, key ∈ keys ↔ ∃ value, holds key value) ∧
    List.Forall₂ holds keys values

namespace Enumerates

variable {κ ι β γ : Type} {holds other : κ → β → Prop} {values others : List β}

/-- What never holds is enumerated by the empty list. -/
theorem nil (never : ∀ key value, ¬ holds key value) : Enumerates holds [] :=
  ⟨[], .nil, by simp [never], .nil⟩

/-- What holds of one key and one value is enumerated by the value. -/
theorem single (key : κ) (value : β) :
    Enumerates (fun place found => place = key ∧ found = value) [value] :=
  ⟨[key], by simp, by simp, .cons ⟨rfl, rfl⟩ .nil⟩

/-- Equivalent properties are enumerated by the same values. -/
theorem congr (listed : Enumerates holds values)
    (same : ∀ key value, other key value ↔ holds key value) : Enumerates other values := by
  have equal : other = holds := funext fun key => funext fun value => propext (same key value)
  rwa [equal]

/-- One list after another, where no key takes part in both. -/
theorem append (first : Enumerates holds values) (second : Enumerates other others)
    (apart : ∀ key value found, holds key value → ¬ other key found) :
    Enumerates (fun key value => holds key value ∨ other key value) (values ++ others) := by
  obtain ⟨keys, distinct, members, listed⟩ := first
  obtain ⟨more, distinctToo, membersToo, listedToo⟩ := second
  refine ⟨keys ++ more, List.nodup_append.mpr ⟨distinct, distinctToo, ?_⟩, ?_, ?_⟩
  · rintro key member _ memberToo rfl
    obtain ⟨value, held⟩ := (members key).mp member
    obtain ⟨found, heldToo⟩ := (membersToo key).mp memberToo
    exact apart key value found held heldToo
  · intro key
    rw [List.mem_append, members, membersToo, exists_or]
  · exact List.rel_append (listed.imp fun _ _ => .inl) (listedToo.imp fun _ _ => .inr)

/-- The same keys under other names. -/
theorem image (listed : Enumerates holds values) {rename : κ → ι}
    (injective : Function.Injective rename) :
    Enumerates (fun key value => ∃ inner, key = rename inner ∧ holds inner value) values := by
  obtain ⟨keys, distinct, members, listed⟩ := listed
  refine ⟨keys.map rename, distinct.map injective, ?_, ?_⟩
  · intro key
    rw [List.mem_map]
    constructor
    · rintro ⟨inner, member, rfl⟩
      obtain ⟨value, held⟩ := (members inner).mp member
      exact ⟨value, inner, rfl, held⟩
    · rintro ⟨value, inner, rfl, held⟩
      exact ⟨inner, (members inner).mpr ⟨value, held⟩, rfl⟩
  · rw [List.forall₂_map_left_iff]
    exact listed.imp fun inner value held => ⟨inner, rfl, held⟩

/-- What is made of the values. -/
theorem map (listed : Enumerates holds values) (make : β → γ) :
    Enumerates (fun key made => ∃ value, made = make value ∧ holds key value)
      (values.map make) := by
  obtain ⟨keys, distinct, members, listed⟩ := listed
  refine ⟨keys, distinct, ?_, ?_⟩
  · intro key
    rw [members]
    constructor
    · rintro ⟨value, held⟩
      exact ⟨make value, value, rfl, held⟩
    · rintro ⟨_, value, rfl, held⟩
      exact ⟨value, held⟩
  · rw [List.forall₂_map_right_iff]
    exact listed.imp fun key value held => ⟨value, rfl, held⟩

/-- The lists of several items, where no key takes part in two. -/
theorem flatMap {items : List ι} {holds : ι → κ → β → Prop} {values : ι → List β}
    (each : ∀ item ∈ items, Enumerates (holds item) (values item))
    (apart : items.Pairwise fun first second =>
      ∀ key value found, holds first key value → ¬ holds second key found) :
    Enumerates (fun key value => ∃ item ∈ items, holds item key value)
      (items.flatMap values) := by
  induction items with
  | nil => exact .nil (by simp)
  | cons item rest inductionHypothesis =>
    obtain ⟨separate, apart⟩ := List.pairwise_cons.mp apart
    have later := inductionHypothesis (fun other member => each other (.tail _ member)) apart
    rw [List.flatMap_cons]
    refine ((each item (.head _)).append later ?_).congr (by simp)
    rintro key value found held ⟨other, member, heldToo⟩
    exact separate other member key value found held heldToo

end Enumerates

/-- Numbers in a numbered list are distinct. -/
theorem pairwise_zipIdx {α : Type} (items : List α) :
    items.zipIdx.Pairwise fun first second => first.2 ≠ second.2 := by
  rw [← List.pairwise_map, List.zipIdx_map_snd]
  exact List.nodup_range'

/-- Numbering a list does not change what is gathered from its items. -/
theorem flatMap_zipIdx {α β : Type} (items : List α) (lists : α → List β) :
    items.zipIdx.flatMap (fun item => lists item.1) = items.flatMap lists := by
  conv_rhs => rw [← List.zipIdx_map_fst 0 items, List.flatMap_map]

namespace Term

/-- An unreachable clause at a place outside patterns is on a line. -/
def Flags (term : Term) (place : Place) (line : Nat) : Prop :=
  term.Unreachable place ∧ place.Outside ∧ (term.clauseAt place).map (·.line) = some line

/-- A clause of the node itself is flagged if it is covered. -/
theorem flags_here {term : Term} {index line : Nat} :
    term.Flags (.here index) line ↔
      ∃ clause, term.clauses[index]? = some clause ∧ clause.line = line ∧
        Covered term.clauses index := by
  simp only [Flags, Unreachable, Place.Outside, clauseAt, Option.map_eq_some_iff, true_and]
  constructor
  · rintro ⟨⟨-, covered⟩, clause, found, same⟩
    exact ⟨clause, found, same, covered⟩
  · rintro ⟨clause, found, same, covered⟩
    exact ⟨⟨(List.getElem?_eq_some_iff.mp found).1, covered⟩, clause, found, same⟩

/-- A clause under a step is flagged if the step leads to a part, not a pattern, that
flags it. -/
theorem flags_under {term : Term} {step : Step} {place : Place} {line : Nat} :
    term.Flags (.under step place) line ↔
      ∃ inner, (step.isPattern = false ∧ term.descend step = some inner) ∧
        inner.Flags place line := by
  simp only [Flags, Unreachable, Place.Outside, clauseAt]
  cases term.descend step with
  | none => simp
  | some inner => simp [and_assoc, and_left_comm]

/-- A part that a step leads to flags a clause. -/
def Beneath (step : Step) (inner : Term) (place : Place) (line : Nat) : Prop :=
  ∃ rest, place = .under step rest ∧ inner.Flags rest line

/-- What a part flags is enumerated under the step that leads to it. -/
theorem beneath_enumerated {inner : Term} {lines : List Nat} (step : Step)
    (listed : Enumerates inner.Flags lines) : Enumerates (Beneath step inner) lines :=
  listed.image fun _ _ same => (Place.under.inj same).2

/-- Parts that different steps lead to flag different places. -/
theorem Beneath.apart {first second : Step} (different : first ≠ second) {inner outer : Term}
    {place : Place} {line found : Nat} (beneath : Beneath first inner place line) :
    ¬ Beneath second outer place found := by
  rintro ⟨_, same, -⟩
  obtain ⟨_, rfl, -⟩ := beneath
  exact different (Place.under.inj same).1

/-! ### Nodes without clauses -/

/-- The parts of a node that is no selection, in the order in which they are visited. -/
def visits : Term → List (Step × Term)
  | number _ _ | builtin _ _ | identifier _ _ | selection _ _ _ => []
  | lambda _ body _ => [(.body, body)]
  | application function argument _ => [(.function, function), (.argument, argument)]
  | conditional condition consequent alternative _ =>
      [(.condition, condition), (.consequent, consequent), (.alternative, alternative)]
  | binding definitions body _ =>
      definitions.zipIdx.map (fun item => (.bound item.2, item.1.body)) ++ [(.inside, body)]

/-- A node is no selection. -/
def Plain : Term → Prop
  | selection _ _ _ => False
  | _ => True

/-- The parts that a plain node visits are all but the patterns. -/
theorem Plain.mem_visits {term inner : Term} {step : Step} (plain : term.Plain) :
    (step, inner) ∈ term.visits ↔ step.isPattern = false ∧ term.descend step = some inner := by
  cases term with
  | selection => cases plain
  | binding definitions body line =>
    cases step with
    | bound index =>
      simp [visits, descend, Step.isPattern, List.mem_zipIdx_iff_getElem?]
    | _ => simp [visits, descend, Step.isPattern, eq_comm]
  | _ => cases step <;> simp [visits, descend, Step.isPattern, eq_comm]

/-- No part is visited twice. -/
theorem nodup_visits (term : Term) : (term.visits.map Prod.fst).Nodup := by
  cases term with
  | binding definitions body line =>
    have numbered : (definitions.zipIdx.map fun item => Step.bound item.2).Nodup :=
      List.pairwise_map.mpr ((pairwise_zipIdx definitions).imp (by simp))
    rw [visits, List.map_append, List.map_map]
    refine List.nodup_append.mpr ⟨numbered, by simp, ?_⟩
    rintro _ member _ last rfl
    obtain ⟨item, -, impossible⟩ := List.mem_map.mp member
    cases impossible.trans (List.mem_singleton.mp last)
  | _ => simp [visits]

/-- The dead clauses among definitions are those of their bodies, in order. -/
theorem deadAmongDefinitions_eq (definitions : List Definition) :
    deadAmongDefinitions definitions = definitions.flatMap (·.body.deadClauses) := by
  induction definitions with
  | nil => rfl
  | cons definition rest inductionHypothesis =>
    rw [deadAmongDefinitions, inductionHypothesis, List.flatMap_cons]

/-- The dead clauses of a plain node are those of its parts, in the order of the visits.
-/
theorem Plain.deadClauses_eq {term : Term} (plain : term.Plain) :
    term.deadClauses = term.visits.flatMap (·.2.deadClauses) := by
  cases term with
  | selection => cases plain
  | binding definitions body line =>
    simp [visits, deadClauses, deadAmongDefinitions_eq, List.flatMap_map,
      flatMap_zipIdx definitions fun definition => definition.body.deadClauses]
  | _ => simp [visits, deadClauses]

/-- A node that is no selection flags what its parts do. -/
theorem Plain.flags {term : Term} (plain : term.Plain) {place : Place} {line : Nat} :
    term.Flags place line ↔ ∃ part ∈ term.visits, Beneath part.1 part.2 place line := by
  cases place with
  | here index =>
    have empty : term.clauses = [] := by
      cases term with
      | selection => cases plain
      | _ => rfl
    simp [flags_here, empty, Beneath]
  | under step place =>
    rw [flags_under]
    constructor
    · rintro ⟨inner, visited, flagged⟩
      exact ⟨(step, inner), plain.mem_visits.mpr visited, place, rfl, flagged⟩
    · rintro ⟨⟨_, inner⟩, member, _, same, flagged⟩
      cases same
      exact ⟨inner, plain.mem_visits.mp member, flagged⟩

/-- The lists of the parts, one after another. -/
theorem Plain.enumerated {term : Term} (plain : term.Plain)
    (inner : ∀ step inner, term.descend step = some inner →
      Enumerates inner.Flags inner.deadClauses) : Enumerates term.Flags term.deadClauses := by
  rw [plain.deadClauses_eq]
  refine (Enumerates.flatMap ?_ ?_).congr fun place line => plain.flags
  · rintro ⟨step, part⟩ member
    exact beneath_enumerated step (inner step part (plain.mem_visits.mp member).2)
  · exact (List.pairwise_map.mp term.nodup_visits).imp fun different _ _ _ =>
      Beneath.apart different

/-! ### Selections -/

/-- A wildcard among the clauses before one covers it. -/
theorem any_take_iff_covered {clauses : List Clause} {index : Nat} :
    (clauses.take index).any (·.pattern.isNone) = true ↔ Covered clauses index := by
  simp only [List.any_eq_true, List.mem_iff_getElem?, List.getElem?_take, Covered,
    Option.isNone_iff_eq_none]
  constructor
  · rintro ⟨wildcard, ⟨earlier, found⟩, wild⟩
    split at found
    · exact ⟨earlier, ‹_›, wildcard, found, wild⟩
    · cases found
  · rintro ⟨earlier, before, wildcard, found, wild⟩
    exact ⟨wildcard, ⟨earlier, by rwa [if_pos before]⟩, wild⟩

/-- What a clause of a selection contributes: itself, if it is covered, and what is
flagged in its result. -/
def deadAt (covered : Bool) (clauses : List Clause) (item : Clause × Nat) : List Nat :=
  (if covered || (clauses.take item.2).any (·.pattern.isNone) then [item.1.line] else []) ++
    item.1.result.deadClauses

/-- The dead clauses among clauses are gathered clause by clause, with what comes before
each. -/
theorem deadAmongClauses_eq (covered : Bool) (clauses : List Clause) :
    deadAmongClauses covered clauses = clauses.zipIdx.flatMap (deadAt covered clauses) := by
  induction clauses generalizing covered with
  | nil => rfl
  | cons clause rest inductionHypothesis =>
    rw [List.zipIdx_cons, List.zipIdx_succ, List.flatMap_cons, List.flatMap_map, deadAmongClauses,
      inductionHypothesis]
    congr 1
    · simp [deadAt]
    · congr 1
      funext ⟨other, index⟩
      simp [deadAt, Bool.or_assoc]

/-- A clause of a selection is flagged if it is covered, and its result flags what
stands in it. -/
def FlagsClause (clauses : List Clause) (item : Clause × Nat) (place : Place) (line : Nat) :
    Prop :=
  (Covered clauses item.2 ∧ place = .here item.2 ∧ line = item.1.line) ∨
    Beneath (.result item.2) item.1.result place line

/-- What a clause contributes enumerates what is flagged in it, if its result does so.
-/
theorem flagsClause_enumerated {clauses : List Clause} {item : Clause × Nat}
    (result : Enumerates item.1.result.Flags item.1.result.deadClauses) :
    Enumerates (FlagsClause clauses item) (deadAt false clauses item) := by
  refine Enumerates.append ?_ (beneath_enumerated _ result) ?_
  · by_cases covered : Covered clauses item.2
    · have wildcard := any_take_iff_covered.mpr covered
      simp only [wildcard, covered, true_and, Bool.or_true, if_true]
      exact .single _ _
    · have selective := mt any_take_iff_covered.mp covered
      simp only [selective, Bool.or_false, covered, false_and]
      exact .nil (by simp)
  · rintro _ _ _ ⟨-, rfl, -⟩ ⟨_, impossible, -⟩
    cases impossible

/-- Clauses with different numbers flag different places. -/
theorem FlagsClause.apart {clauses : List Clause} {first second : Clause × Nat}
    (different : first.2 ≠ second.2) {place : Place} {line found : Nat}
    (flagged : FlagsClause clauses first place line) :
    ¬ FlagsClause clauses second place found := by
  rintro (⟨-, same, -⟩ | beneath)
  · obtain ⟨-, rfl, -⟩ | ⟨_, rfl, -⟩ := flagged
    · exact different (Place.here.inj same)
    · cases same
  · obtain ⟨-, rfl, -⟩ | flagged := flagged
    · obtain ⟨_, impossible, -⟩ := beneath
      cases impossible
    · exact flagged.apart (fun same => different (Step.result.inj same)) beneath

/-- A selection flags what its scrutinee does and what its clauses do. -/
theorem flags_selection {scrutinee : Term} {clauses : List Clause} {line found : Nat}
    {place : Place} :
    (selection scrutinee clauses line).Flags place found ↔
      Beneath .scrutinee scrutinee place found ∨
        ∃ item ∈ clauses.zipIdx, FlagsClause clauses item place found := by
  constructor
  · intro flagged
    cases place with
    | here index =>
      obtain ⟨clause, listed, rfl, covered⟩ := flags_here.mp flagged
      exact .inr ⟨(clause, index), List.mem_zipIdx_iff_getElem?.mpr listed,
        .inl ⟨covered, rfl, rfl⟩⟩
    | under step place =>
      obtain ⟨inner, ⟨visited, reached⟩, flagged⟩ := flags_under.mp flagged
      cases step with
      | scrutinee =>
        cases reached
        exact .inl ⟨place, rfl, flagged⟩
      | result index =>
        obtain ⟨clause, listed, rfl⟩ := Option.map_eq_some_iff.mp reached
        exact .inr ⟨(clause, index), List.mem_zipIdx_iff_getElem?.mpr listed,
          .inr ⟨place, rfl, flagged⟩⟩
      | pattern index => cases visited
      | _ => cases reached
  · rintro (⟨inner, rfl, flagged⟩ | ⟨⟨clause, index⟩, member, flagged⟩)
    · exact flags_under.mpr ⟨scrutinee, ⟨rfl, rfl⟩, flagged⟩
    · have listed := List.mem_zipIdx_iff_getElem?.mp member
      obtain ⟨covered, rfl, rfl⟩ | ⟨inner, rfl, flagged⟩ := flagged
      · exact flags_here.mpr ⟨clause, listed, rfl, covered⟩
      · exact flags_under.mpr ⟨clause.result, ⟨rfl, Option.map_eq_some_iff.mpr
          ⟨clause, listed, rfl⟩⟩, flagged⟩

/-- The lines of the clauses that a term flags: induction on the term, one part of a
node after another. -/
theorem deadClauses_enumerated (term : Term) : Enumerates term.Flags term.deadClauses := by
  induction term using parts_induction with
  | node term inner =>
    cases term with
    | selection scrutinee clauses line =>
      rw [deadClauses, deadAmongClauses_eq]
      -- First the scrutinee, then the clauses with their results; none shares a place.
      refine ((beneath_enumerated .scrutinee (inner .scrutinee scrutinee rfl)).append
        (.flatMap ?_ ?_) ?_).congr fun place found => flags_selection
      · rintro ⟨clause, index⟩ member
        exact flagsClause_enumerated (inner (.result index) clause.result
          (Option.map_eq_some_iff.mpr ⟨clause, List.mem_zipIdx_iff_getElem?.mp member, rfl⟩))
      · exact (pairwise_zipIdx clauses).imp fun different _ _ _ => FlagsClause.apart different
      · rintro place line found beneath ⟨item, -, ⟨-, rfl, -⟩ | flagged⟩
        · obtain ⟨_, impossible, -⟩ := beneath
          cases impossible
        · exact beneath.apart (by simp) flagged
    | _ => exact Plain.enumerated trivial inner

end Term

namespace Program

/-- The warnings about clauses. -/
def clauseWarnings (program : Program) : List Diagnostic :=
  program.diagnostics.filter (·.finding = .unreachableClause)

/-- A warning is about an unreachable clause at a place outside patterns. -/
def Flags (program : Program) (place : Place) (warning : Diagnostic) : Prop :=
  program.Unreachable place ∧ place.inside.Outside ∧
    (program.clauseAt place).map (fun clause => ⟨.unreachableClause, clause.line⟩) = some warning

/-- A warning of a program is flagged in the term of one statement. -/
theorem flags_iff {program : Program} {place : Place} {warning : Diagnostic} :
    program.Flags place warning ↔ ∃ item ∈ program.statements.zipIdx,
      ∃ inner, place = ⟨item.2, inner⟩ ∧ ∃ line, warning = ⟨.unreachableClause, line⟩ ∧
        item.1.term.Flags inner line := by
  constructor
  · rintro ⟨⟨statement, found, unreachable⟩, outside, warned⟩
    rw [clauseAt, found] at warned
    obtain ⟨clause, placed, rfl⟩ := Option.map_eq_some_iff.mp warned
    exact ⟨(statement, place.statement), List.mem_zipIdx_iff_getElem?.mpr found, place.inside, rfl,
      clause.line, rfl, unreachable, outside, Option.map_eq_some_iff.mpr ⟨clause, placed, rfl⟩⟩
  · rintro ⟨⟨statement, index⟩, member, inner, rfl, line, rfl, unreachable, outside, placed⟩
    have found := List.mem_zipIdx_iff_getElem?.mp member
    obtain ⟨clause, stands, rfl⟩ := Option.map_eq_some_iff.mp placed
    refine ⟨⟨statement, found, unreachable⟩, outside, ?_⟩
    rw [clauseAt, found]
    exact Option.map_eq_some_iff.mpr ⟨clause, stands, rfl⟩

/-- The warnings are one for each unreachable clause outside patterns. -/
theorem clauseWarnings_enumerated (program : Program) :
    Enumerates program.Flags program.clauseWarnings := by
  unfold clauseWarnings
  rw [diagnostics_eq, filter_diagnosticsAfter, ← flatMap_zipIdx]
  refine (Enumerates.flatMap ?_ ?_).congr fun place warning => flags_iff
  · rintro ⟨statement, index⟩ -
    exact (statement.term.deadClauses_enumerated.map _).image fun _ _ same => (Place.mk.inj same).2
  · refine (pairwise_zipIdx _).imp ?_
    rintro first second different place warning found ⟨_, rfl, -⟩ ⟨_, same, -⟩
    exact different (Place.mk.inj same).1

end Program

end Timbre
