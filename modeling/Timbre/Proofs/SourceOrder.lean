import Mathlib.Data.List.Pairwise
import Timbre.Proofs.Appending
import Timbre.Proofs.Diagnostics
import Timbre.Proofs.ErrorPlaces
import Timbre.Proofs.ParserSoundness

/-!
# Diagnostics come in the order of the text

A diagnostic about a statement has the line of its first token, and one about a clause
the line of its pattern. The grammar uses each token once and in order, and the walk that
collects the diagnostics meets the clauses in the order of their tokens: the operands of
an infix operator keep their order inside the nested applications, and a clause comes
before what stands in its result. So the lines of the unreachable clauses of a term are
some of the lines of its tokens, in the same order.

The tokens of a text stand on lines that never decrease and are counted from one. The
diagnostics inherit both.
-/

namespace Timbre

/-- The lines of tokens. -/
def linesOf (tokens : List Located) : List Nat := tokens.map (·.position.line)

/-- The line of the first token comes before the others. -/
theorem linesOf_cons (first : Located) (rest : List Located) :
    linesOf (first :: rest) = first.position.line :: linesOf rest := rfl

/-- The lines of tokens one after another are in the same order. -/
theorem linesOf_append (before after : List Located) :
    linesOf (before ++ after) = linesOf before ++ linesOf after :=
  List.map_append

/-- The tokens of a text stand on lines that never decrease. -/
theorem tokenize_lines_ordered {source : String} {tokens : List Located}
    (accepted : tokenize source = .ok tokens) : (linesOf tokens).Pairwise (· ≤ ·) := by
  obtain ⟨found, listed, rfl⟩ := tokenize_eq_ok.mp accepted
  have tiles := Cursor.scanAll_tiles _ (scanAll_accepted listed)
  have covered := (lexItems_delivers source).tiles tiles
  rw [listed] at covered
  rw [linesOf, List.map_map, List.pairwise_map]
  refine covered.ordered.imp ?_
  rintro earlier later ⟨-, before⟩
  rcases before with less | ⟨same, -⟩
  · exact Nat.le_of_lt less
  · exact Nat.le_of_eq same

namespace Grammar

/-- The lines of unreachable clauses in what is derived are among the given lines, in the
same order. The line of a clause or a definition itself comes before those inside it, and
clauses may follow a wildcard. -/
def Symbol.Follows (lines : List Nat) : (symbol : Symbol) → symbol.Tree → Prop
  | term _, tree => tree.deadClauses.Sublist lines
  | clause, tree => (tree.line :: tree.result.deadClauses).Sublist lines
  | clauses, tree => ∀ covered, (deadAmongClauses covered tree).Sublist lines
  | definition, tree => (tree.line :: tree.body.deadClauses).Sublist lines
  | definitions, tree => (deadAmongDefinitions tree).Sublist lines

/-- A clause may or may not be flagged itself. -/
theorem flagged_sublist (covered : Bool) {clause : Clause} {lines : List Nat}
    (follows : Symbol.Follows lines .clause clause) :
    ((if covered then [clause.line] else []) ++ clause.result.deadClauses).Sublist lines := by
  cases covered with
  | true => exact follows
  | false => exact (List.sublist_cons_self _ _).trans follows

/-- The walk over what is derived meets the lines of unreachable clauses in the order of
the tokens. -/
theorem Derives.follows {symbol : Symbol} {tokens : List Located} {tree : symbol.Tree}
    (derived : Derives symbol tokens tree) : symbol.Follows (linesOf tokens) tree := by
  induction derived with
  | operand first inside => exact inside
  | joined p listed first second left right =>
    rw [linesOf_append, linesOf_cons]
    exact List.Sublist.append left (right.cons p.line)
  | function first inside => exact inside
  | applied start first second function argument =>
    rw [linesOf_append]
    exact List.Sublist.append function argument
  | number value p => exact List.nil_sublist _
  | identifier name p => exact List.nil_sublist _
  | builtin operator p => exact List.nil_sublist _
  | parenthesized p q expression inside =>
    rw [List.cons_append, linesOf_cons, linesOf_append]
    exact (List.sublist_append_of_sublist_left inside).cons p.line
  | lambda name p q r expression body => exact ((body.cons r.line).cons q.line).cons p.line
  | selection p q r expression choices scrutinee listed =>
    simp only [List.cons_append, List.append_assoc, linesOf_cons, linesOf_append]
    refine (List.Sublist.append scrutinee (List.Sublist.cons q.line ?_)).cons p.line
    exact List.sublist_append_of_sublist_left (listed false)
  | conditional p q r s decision positive negative condition consequent alternative =>
    simp only [Symbol.Follows, Term.deadClauses, List.cons_append, List.append_assoc, linesOf_cons,
      linesOf_append]
    refine (List.Sublist.append condition (List.Sublist.cons q.line ?_)).cons p.line
    refine List.Sublist.append consequent (List.Sublist.cons r.line ?_)
    exact List.sublist_append_of_sublist_left alternative
  | binding p q r bound expression definitions body =>
    simp only [List.cons_append, List.append_assoc, linesOf_cons, linesOf_append]
    refine (List.Sublist.append definitions (List.Sublist.cons q.line ?_)).cons p.line
    exact List.sublist_append_of_sublist_left body
  | numbered value p q expression result => exact (result.cons q.line).cons_cons p.line
  | wildcard p q expression result => exact (result.cons q.line).cons_cons p.line
  | lastClause last only =>
    intro covered
    simpa only [deadAmongClauses, List.append_nil] using flagged_sublist covered only
  | moreClauses p first rest one others =>
    intro covered
    rw [linesOf_append, linesOf_cons]
    exact List.Sublist.append (flagged_sublist covered one) ((others _).cons p.line)
  | named name p q expression body => exact (body.cons q.line).cons_cons p.line
  | lastDefinition last only =>
    have inside := (List.sublist_cons_self _ _).trans only
    simpa only [Symbol.Follows, deadAmongDefinitions, List.append_nil] using inside
  | moreDefinitions p first rest one others =>
    rw [linesOf_append, linesOf_cons]
    have inside := (List.sublist_cons_self _ _).trans one
    exact List.Sublist.append inside (others.cons p.line)

end Grammar

/-- Diagnostics whose lines are some of the given ones and never decrease. -/
structure InOrder (lines : List Nat) (diagnostics : List Diagnostic) : Prop where
  listed : ∀ diagnostic ∈ diagnostics, diagnostic.line ∈ lines
  ordered : (diagnostics.map (·.line)).Pairwise (· ≤ ·)

namespace InOrder

variable {lines others : List Nat} {diagnostics later : List Diagnostic}

/-- The empty list of diagnostics is in order. -/
theorem nil (lines : List Nat) : InOrder lines [] := ⟨by simp, .nil⟩

/-- Diagnostics about one line are in order. -/
theorem on_line {line : Nat} (same : ∀ diagnostic ∈ diagnostics, diagnostic.line = line) :
    InOrder [line] diagnostics where
  listed := fun diagnostic member => List.mem_singleton.mpr (same diagnostic member)
  ordered := by
    rw [List.pairwise_map]
    apply List.pairwise_of_forall_mem_list
    intro one first two second
    exact Nat.le_of_eq ((same one first).trans (same two second).symm)

/-- Diagnostics about one part of a text in front of those about the next part. -/
theorem append (first : InOrder lines diagnostics) (second : InOrder others later)
    (sorted : (lines ++ others).Pairwise (· ≤ ·)) :
    InOrder (lines ++ others) (diagnostics ++ later) where
  listed := by
    intro diagnostic member
    rcases List.mem_append.mp member with before | after
    · exact List.mem_append_left _ (first.listed diagnostic before)
    · exact List.mem_append_right _ (second.listed diagnostic after)
  ordered := by
    rw [List.map_append, List.pairwise_append]
    refine ⟨first.ordered, second.ordered, ?_⟩
    intro one before two after
    obtain ⟨diagnostic, member, rfl⟩ := List.mem_map.mp before
    obtain ⟨other, memberToo, rfl⟩ := List.mem_map.mp after
    exact (List.pairwise_append.mp sorted).2.2 _ (first.listed diagnostic member) _
      (second.listed other memberToo)

/-- More lines may be given. -/
theorem mono (inOrder : InOrder lines diagnostics) (among : lines ⊆ others) :
    InOrder others diagnostics :=
  ⟨fun diagnostic member => among (inOrder.listed diagnostic member), inOrder.ordered⟩

/-- The diagnostics about a term, when its unreachable clauses follow the lines. -/
theorem of_term {term : Term} (follows : term.deadClauses.Sublist lines)
    (sorted : lines.Pairwise (· ≤ ·)) : InOrder lines term.diagnostics := by
  have same : term.diagnostics.map (·.line) = term.deadClauses := by
    simp [Term.diagnostics, Function.comp_def]
  constructor
  · intro diagnostic member
    apply follows.subset
    rw [← same]
    exact List.mem_map_of_mem member
  · rw [same]
    exact sorted.sublist follows

end InOrder

namespace Grammar

/-- A statement begins with a token on the line that is reported for the statement
itself. -/
theorem DerivesStatement.heads {tokens : List Located} {statement : Statement}
    (derived : DerivesStatement tokens statement) :
    ∃ first rest, tokens = first :: rest ∧ ∀ earlier,
      ∀ diagnostic ∈ Program.headDiagnostics earlier statement,
        diagnostic.line = first.position.line := by
  cases derived with
  | expression start derived =>
    refine ⟨start, _, rfl, ?_⟩
    intro earlier diagnostic member
    rw [List.mem_singleton.mp member]
  | definition derived =>
    cases derived with
    | named name p q expression =>
      refine ⟨_, _, rfl, ?_⟩
      intro earlier diagnostic member
      rcases List.mem_append.mp member with repeated | constant
      · obtain ⟨first, -, rfl⟩ := List.mem_map.mp repeated
        rfl
      · split at constant
        · rw [List.mem_singleton.mp constant]
        · nomatch constant

/-- The lines of unreachable clauses in a statement are among those of its tokens, in
the same order. -/
theorem DerivesStatement.follows {tokens : List Located} {statement : Statement}
    (derived : DerivesStatement tokens statement) :
    statement.term.deadClauses.Sublist (linesOf tokens) := by
  cases derived with
  | expression start derived => exact derived.follows
  | definition derived => exact (List.sublist_cons_self _ _).trans derived.follows

/-- What is said about one statement, first about itself and then about its term, is in the
order of its tokens. -/
theorem DerivesStatement.inOrder {tokens : List Located} {statement : Statement}
    (derived : DerivesStatement tokens statement) (earlier : List Definition)
    (sorted : (linesOf tokens).Pairwise (· ≤ ·)) :
    InOrder (linesOf tokens)
      (Program.headDiagnostics earlier statement ++ statement.term.diagnostics) := by
  have clauses := InOrder.of_term derived.follows sorted
  obtain ⟨first, rest, rfl, same⟩ := derived.heads
  rw [linesOf_cons] at sorted clauses ⊢
  -- The first line stands for the statement and again for its first token.
  have doubled : ([first.position.line] ++ first.position.line :: linesOf rest).Pairwise
      (· ≤ ·) :=
    List.pairwise_cons.mpr
      ⟨List.forall_mem_cons.mpr ⟨Nat.le_refl _, (List.pairwise_cons.mp sorted).1⟩, sorted⟩
  refine ((InOrder.on_line (same earlier)).append clauses doubled).mono ?_
  exact List.cons_subset.mpr ⟨List.mem_cons_self .., List.Subset.refl _⟩

/-- The diagnostics about a program are in the order of its tokens. The induction is on the
statements, over any definitions before them. -/
theorem DerivesProgram.inOrder {tokens : List Located} {statements : List Statement}
    (derived : DerivesProgram tokens statements) (earlier : List Definition)
    (sorted : (linesOf tokens).Pairwise (· ≤ ·)) :
    InOrder (linesOf tokens) (Program.diagnosticsAfter earlier statements) := by
  induction derived generalizing earlier with
  | empty => exact InOrder.nil _
  | next first rest inductionHypothesis =>
    rw [linesOf_append] at sorted ⊢
    obtain ⟨before, after, -⟩ := List.pairwise_append.mp sorted
    rw [Program.diagnosticsAfter_cons]
    exact (first.inOrder earlier before).append (inductionHypothesis _ after) sorted
  | nextComma p first rest inductionHypothesis =>
    rw [linesOf_append, linesOf_cons] at sorted ⊢
    obtain ⟨before, after, -⟩ := List.pairwise_append.mp sorted
    rw [Program.diagnosticsAfter_cons]
    refine (first.inOrder earlier before).append (InOrder.mono ?_ (List.subset_cons_self ..)) sorted
    exact inductionHypothesis _ (List.pairwise_cons.mp after).2

end Grammar

namespace Program

/-- The lines of the diagnostics about a source text never decrease. They are counted from
one, and none is below the line of the last token. -/
theorem diagnostics_in_source_order {source : String} {program : Program}
    (parsed : Program.ofSource source = .ok program) :
    (program.diagnostics.map (·.line)).Pairwise (· ≤ ·) ∧
      ∃ tokens, tokenize source = .ok tokens ∧
        ∀ diagnostic ∈ program.diagnostics, 1 ≤ diagnostic.line ∧
          ∃ last ∈ tokens.getLast?, diagnostic.line ≤ last.position.line := by
  obtain ⟨tokens, rest, accepted, read⟩ := Program.ofSource_eq_ok.mp parsed
  have sorted := tokenize_lines_ordered accepted
  have inOrder := (Parser.statements_derives read).2.inOrder [] sorted
  refine ⟨inOrder.ordered, tokens, accepted, ?_⟩
  intro diagnostic member
  have listed := inOrder.listed diagnostic member
  obtain ⟨found, inside, same⟩ := List.mem_map.mp listed
  constructor
  · rw [← same]
    exact (Position.counted (tokenize_position accepted inside)).1
  · have nonempty : tokens ≠ [] := List.ne_nil_of_mem inside
    refine ⟨tokens.getLast nonempty, List.getLast?_eq_some_getLast nonempty, ?_⟩
    have before := sorted.rel_getLast listed
    simpa [linesOf, List.getLast_map] using before

/-- A selection inside the first clause of another, as an operand, has an unreachable clause
before the one of the outer selection. A second definition follows, reported twice. -/
theorem diagnostics_in_source_order_nested :
    let source := "pi = x + case x of _ -> case y of _ -> a,\n_ -> b end,\n_ -> c end\npi = x"
    let inner : Term := .selection (.identifier "y" 1)
      [⟨none, .identifier "a" 1, 1⟩, ⟨none, .identifier "b" 2, 2⟩] 1
    let outer : Term := .selection (.identifier "x" 1)
      [⟨none, inner, 1⟩, ⟨none, .identifier "c" 3, 3⟩] 1
    let program :=
      Program.ofStatements [.definition ⟨"pi", .infixed .plus (.identifier "x" 1) outer 1, 1⟩,
        .definition ⟨"pi", .identifier "x" 4, 4⟩]
    Program.ofSource source = .ok program ∧
      program.diagnostics = [⟨.circleConstantDefined, 1⟩, ⟨.unreachableClause, 2⟩,
        ⟨.unreachableClause, 3⟩, ⟨.alreadyDefined "pi" 1, 4⟩, ⟨.circleConstantDefined, 4⟩] ∧
      (program.diagnostics.map (·.line)).Pairwise (· ≤ ·) ∧
      ∃ tokens, tokenize source = .ok tokens ∧
        ∀ diagnostic ∈ program.diagnostics, 1 ≤ diagnostic.line ∧
          ∃ last ∈ tokens.getLast?, diagnostic.line ≤ last.position.line := by
  intro source inner outer program
  have lexed : tokenize
      "pi = x + case x of _ -> case y of _ -> a,\n_ -> b end,\n_ -> c end\npi = x" =
      .ok [⟨.identifier "pi", ⟨1, 1⟩⟩, ⟨.mark .assign, ⟨1, 4⟩⟩, ⟨.identifier "x", ⟨1, 6⟩⟩,
        ⟨.mark .plus, ⟨1, 8⟩⟩, ⟨.keyword .caseWord, ⟨1, 10⟩⟩, ⟨.identifier "x", ⟨1, 15⟩⟩,
        ⟨.keyword .ofWord, ⟨1, 17⟩⟩, ⟨.mark .underscore, ⟨1, 20⟩⟩, ⟨.mark .arrow, ⟨1, 22⟩⟩,
        ⟨.keyword .caseWord, ⟨1, 25⟩⟩, ⟨.identifier "y", ⟨1, 30⟩⟩, ⟨.keyword .ofWord, ⟨1, 32⟩⟩,
        ⟨.mark .underscore, ⟨1, 35⟩⟩, ⟨.mark .arrow, ⟨1, 37⟩⟩, ⟨.identifier "a", ⟨1, 40⟩⟩,
        ⟨.mark .comma, ⟨1, 41⟩⟩, ⟨.mark .underscore, ⟨2, 1⟩⟩, ⟨.mark .arrow, ⟨2, 3⟩⟩,
        ⟨.identifier "b", ⟨2, 6⟩⟩, ⟨.keyword .endWord, ⟨2, 8⟩⟩, ⟨.mark .comma, ⟨2, 11⟩⟩,
        ⟨.mark .underscore, ⟨3, 1⟩⟩, ⟨.mark .arrow, ⟨3, 3⟩⟩, ⟨.identifier "c", ⟨3, 6⟩⟩,
        ⟨.keyword .endWord, ⟨3, 8⟩⟩, ⟨.identifier "pi", ⟨4, 1⟩⟩, ⟨.mark .assign, ⟨4, 4⟩⟩,
        ⟨.identifier "x", ⟨4, 6⟩⟩] := rfl
  have parsed : Program.ofSource source = .ok program :=
    Program.ofSource_eq_ok.mpr ⟨_, [], lexed, rfl⟩
  have found : program.diagnostics = [⟨.circleConstantDefined, 1⟩, ⟨.unreachableClause, 2⟩,
      ⟨.unreachableClause, 3⟩, ⟨.alreadyDefined "pi" 1, 4⟩, ⟨.circleConstantDefined, 4⟩] := rfl
  exact ⟨parsed, found, diagnostics_in_source_order parsed⟩

end Program

end Timbre
