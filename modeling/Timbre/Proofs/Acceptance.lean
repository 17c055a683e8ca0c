import Timbre.Proofs.ParserCompleteness

/-!
# Exactly the programs of the grammar are accepted

Two expressions in a row, without a comma between them, are two statements of the
grammar and one expression of the parser: an expression takes in the expressions
that follow it, up to a comma, a definition or the end. Where it stops, the rest of
the program goes on, so the statement parser reaches the end of every list of
tokens that the grammar derives. What it answers is then one of the derivations.
-/

namespace Timbre

namespace Grammar

/-- What may come after a statement: a program, or a comma and a program. -/
def Resumes (tokens : List Located) : Prop :=
  ∃ after statements, DerivesProgram after statements ∧
    (tokens = after ∨ ∃ p, tokens = ⟨.mark .comma, p⟩ :: after)

/-- A phrase is read up to a place where an expression stops and the program
resumes. -/
def ReadsOn (tokens : List Located) : Prop :=
  ∃ used rest, tokens = used ++ rest ∧ Outline .phrase used ∧ Stops rest ∧ Resumes rest

/-- An expression stops before a definition. -/
theorem Stops.definition {tokens rest : List Located} {definition : Definition}
    (derived : Derives .definition tokens definition) : Stops (tokens ++ rest) := by
  cases derived with
  | named name p q expression =>
    intro next more same
    cases same
    exact ⟨by simp, rfl, fun _ => rfl⟩

/-- An expression takes in the expressions that follow it: induction on the
program after it. -/
theorem DerivesProgram.readsOn {after : List Located} {statements : List Statement}
    (program : DerivesProgram after statements) {tokens : List Located}
    (phrase : Outline .phrase tokens) : ReadsOn (tokens ++ after) := by
  induction program generalizing tokens with
  | empty => exact ⟨tokens, [], rfl, phrase, stops_nil, [], [], .empty, .inl rfl⟩
  | @next before after statement others first following inductionHypothesis =>
    cases first with
    | definition derived =>
      exact ⟨tokens, before ++ after, rfl, phrase, .definition derived, before ++ after, _,
        .next (.definition derived) following, .inl rfl⟩
    | expression start derived =>
      rw [← List.append_assoc]
      exact inductionHypothesis (phrase.append_tail (.beside derived.outline) (.inl rfl))
  | @nextComma before after statement others p first following =>
    cases first with
    | definition derived =>
      exact ⟨tokens, _, rfl, phrase, .definition derived, _, _,
        .nextComma p (.definition derived) following, .inl rfl⟩
    | expression start derived =>
      refine ⟨_, ⟨.mark .comma, p⟩ :: after, (List.append_assoc ..).symm,
        phrase.append_tail (.beside derived.outline) (.inl rfl), stops_closing rfl p after, after,
        others, following, .inr ⟨p, rfl⟩⟩

/-- A phrase in front of what may come after a statement is read up to there. -/
theorem Resumes.readsOn {after : List Located} (resumes : Resumes after) {tokens : List Located}
    (phrase : Outline .phrase tokens) : ReadsOn (tokens ++ after) := by
  have again := resumes
  obtain ⟨program, statements, derived, rfl | ⟨p, rfl⟩⟩ := resumes
  · exact derived.readsOn phrase
  · exact ⟨tokens, _, rfl, phrase, stops_closing rfl p program, again⟩

/-- A statement begins with a token that may begin an atom. -/
theorem DerivesStatement.startsAtom {first : Located} {more : List Located}
    {statement : Statement} (derived : DerivesStatement (first :: more) statement) :
    first.token.startsAtom = true := by
  cases derived with
  | definition derived =>
    cases derived with
    | named name p q expression => rfl
  | expression start derived =>
    obtain ⟨_, _, same, starts, -⟩ := derived.outline.phrase_beginsOperand
    cases same
    exact starts

/-- A program that is not empty has a first statement. -/
theorem DerivesProgram.first_statement {tokens : List Located} {statements : List Statement}
    (program : DerivesProgram tokens statements) (nonempty : tokens ≠ []) :
    ∃ before after statement, tokens = before ++ after ∧ DerivesStatement before statement ∧
      Resumes after := by
  cases program with
  | empty => exact absurd rfl nonempty
  | next first following => exact ⟨_, _, _, rfl, first, _, _, following, .inl rfl⟩
  | nextComma p first following =>
    exact ⟨_, _, _, rfl, first, _, _, following, .inr ⟨p, rfl⟩⟩

/-- No program begins with a comma. -/
theorem DerivesProgram.no_comma {tokens after : List Located} {statements : List Statement}
    {p : Position} (program : DerivesProgram tokens statements) :
    tokens ≠ ⟨.mark .comma, p⟩ :: after := by
  rintro rfl
  obtain ⟨before, others, statement, split, derived, -⟩ := program.first_statement (by simp)
  obtain ⟨first, more, rfl⟩ := List.exists_cons_of_ne_nil derived.nonempty
  cases split
  cases derived.startsAtom

end Grammar

namespace Parser

open Grammar

/-- A statement is accepted where a program may resume after it. The parser may
take more than the statement; the program resumes after what it takes. -/
theorem statement_accepts {tokens after : List Located} {statement : Statement}
    (derived : DerivesStatement tokens statement) (resumes : Resumes after) :
    ∃ found rest, Parser.statement (tokens ++ after) = .ok found rest ∧ Resumes rest := by
  cases derived with
  | definition derived =>
    cases derived with
    | named name p q expression =>
      obtain ⟨used, rest, split, phrase, stops, again⟩ := resumes.readsOn expression.outline
      obtain ⟨body, taken⟩ := expression_accepts phrase stops
      refine ⟨.definition ⟨name, body, p.line⟩, rest, ?_, again⟩
      refine bind_eq_ok.mpr ⟨⟨name, body, p.line⟩, rest, ?_, rfl⟩
      simp only [List.cons_append, split]
      exact definition_eq_ok.mpr ⟨p, q, used ++ rest, rfl, rfl, taken⟩
  | expression start derived =>
    obtain ⟨used, rest, split, phrase, stops, again⟩ := resumes.readsOn derived.outline
    obtain ⟨term, taken⟩ := expression_accepts phrase stops
    obtain ⟨undefined, allowed⟩ := phrase.defines_nothing stops
    have parsed : ∃ found, Parser.statement (used ++ rest) = .ok found rest := by
      simp only [Parser.statement, undefined, allowed, Bool.or_self, Bool.false_eq_true, if_false]
      exact ⟨_, bind_eq_ok.mpr ⟨term, rest, taken, rfl⟩⟩
    obtain ⟨found, parsed⟩ := parsed
    rw [split]
    exact ⟨found, rest, parsed, again⟩

/-- An optional comma is taken where a program may resume, and leaves a program. -/
theorem optionalComma_accepts {tokens : List Located} (resumes : Resumes tokens) :
    ∃ rest statements, optionalComma tokens = .ok () rest ∧ DerivesProgram rest statements := by
  obtain ⟨program, statements, derived, rfl | ⟨p, rfl⟩⟩ := resumes
  · refine ⟨tokens, statements, ?_, derived⟩
    unfold optionalComma
    split
    · exact absurd rfl derived.no_comma
    · rfl
  · exact ⟨program, statements, rfl, derived⟩

/-- Every program is accepted up to its end: induction on the bound, which
suffices because a statement takes a token. -/
theorem statementsWithin_accepts {rounds : Nat} {tokens : List Located}
    {statements : List Statement} (enough : tokens.length ≤ rounds)
    (program : DerivesProgram tokens statements) :
    ∃ found, statementsWithin rounds tokens = .ok found [] := by
  induction rounds generalizing tokens statements with
  | zero =>
    have empty : tokens = [] := List.eq_nil_of_length_eq_zero (by omega)
    subst empty
    exact ⟨[], rfl⟩
  | succ rounds inductionHypothesis =>
    cases tokens with
    | nil => exact ⟨[], rfl⟩
    | cons start more =>
      obtain ⟨before, after, statement, split, derived, resumes⟩ :=
        program.first_statement (by simp)
      obtain ⟨found, rest, taken, again⟩ := statement_accepts derived resumes
      obtain ⟨following, remaining, passed, continued⟩ := optionalComma_accepts again
      rw [← split] at taken
      have fewer : following.length ≤ rounds := by
        obtain ⟨used, same, member⟩ := statement_yields taken
        obtain ⟨comma, rfl, -⟩ := optionalComma_yields passed
        have progress : 0 < used.length := List.length_pos_iff.mpr member.nonempty
        rw [same, List.length_append, List.length_append] at enough
        omega
      obtain ⟨others, finished⟩ := inductionHypothesis fewer continued
      refine ⟨found :: others, bind_eq_ok.mpr ⟨found, rest, taken, ?_⟩⟩
      refine bind_eq_ok.mpr ⟨(), following, passed, ?_⟩
      exact bind_eq_ok.mpr ⟨others, [], finished, rfl⟩

end Parser

/-- A list of tokens is accepted as a program if and only if the grammar derives
it, and the statements are then those of a derivation of the whole list. -/
theorem Program.ofTokens_accepts_grammar (tokens : List Located) :
    ((∃ program, Program.ofTokens tokens = .ok program) ↔
      ∃ statements, Grammar.DerivesProgram tokens statements) ∧
    ∀ program, Program.ofTokens tokens = .ok program →
      Grammar.DerivesProgram tokens program.statements := by
  have derives : ∀ program, Program.ofTokens tokens = .ok program →
      Grammar.DerivesProgram tokens program.statements := by
    intro program accepted
    unfold Program.ofTokens at accepted
    cases outcome : Parser.statements tokens with
    | error reason rest => simp [outcome] at accepted
    | ok statements rest =>
      simp only [outcome] at accepted
      cases accepted
      exact (Parser.statements_derives outcome).2
  refine ⟨⟨?_, ?_⟩, derives⟩
  · rintro ⟨program, accepted⟩
    exact ⟨program.statements, derives program accepted⟩
  · rintro ⟨statements, derived⟩
    obtain ⟨found, accepted⟩ := Parser.statementsWithin_accepts (Nat.le_refl _) derived
    refine ⟨.ofStatements found, ?_⟩
    unfold Program.ofTokens Parser.statements
    rw [accepted]

end Timbre
