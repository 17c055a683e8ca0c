import Mathlib.Data.List.Induction
import Mathlib.Data.List.Nodup
import Mathlib.Data.List.Perm.Subperm
import Timbre.Proofs.Appending
import Timbre.Proofs.Parts
import Timbre.Proofs.Sampling

/-!
# Reports about missing clauses

A selection without a matching clause is reported with its line and with the value
that no clause matched. Reports are told apart by both. So a sampler reports each
pair of a line and a value once: as many reports about one selection as there are
values that reach it and match nothing, whatever the number of requests.

The lines are those of selections in the program. Where each line always meets the
same value, there are therefore no more reports than selections; where one line
meets two values, it is reported twice.
-/

namespace Timbre

mutual

/-- The lines of the selections in a term, each as often as it has one. -/
def Term.selections : Term → List Nat
  | .number _ _ | .builtin _ _ | .identifier _ _ => []
  | .lambda _ body _ => body.selections
  | .application function argument _ => function.selections ++ argument.selections
  | .conditional condition consequent alternative _ =>
      condition.selections ++ consequent.selections ++ alternative.selections
  | .selection scrutinee clauses line =>
      line :: (scrutinee.selections ++ selectionsAmongClauses clauses)
  | .binding definitions body _ => selectionsAmongDefinitions definitions ++ body.selections

/-- The same for a list of clauses. -/
def selectionsAmongClauses : List (ClauseOf Term) → List Nat
  | [] => []
  | ⟨pattern, result, _⟩ :: rest =>
      selectionsInPattern pattern ++ result.selections ++ selectionsAmongClauses rest

/-- The same for a pattern. -/
def selectionsInPattern : Option Term → List Nat
  | none => []
  | some pattern => pattern.selections

/-- The same for a list of definitions. -/
def selectionsAmongDefinitions : List (DefinitionOf Term) → List Nat
  | [] => []
  | ⟨_, body, _⟩ :: rest => body.selections ++ selectionsAmongDefinitions rest

end

/-- The lines of all selections in a program, those in statements without effect
included. -/
def Program.selections (program : Program) : List Nat :=
  program.statements.flatMap (·.term.selections)

/-! ### Selections in parts -/

/-- The selections in a result are among those of the clauses. -/
theorem selections_of_result {clauses : List Clause} {clause : Clause}
    (listed : clause ∈ clauses) : clause.result.selections ⊆ selectionsAmongClauses clauses := by
  induction listed with
  | head rest => simp [selectionsAmongClauses]
  | tail first _ inductionHypothesis =>
    simp only [selectionsAmongClauses]
    exact List.subset_append_of_subset_right _ inductionHypothesis

/-- The selections in a pattern are among those of the clauses. -/
theorem selections_of_pattern {clauses : List Clause} {clause : Clause} {pattern : Term}
    (listed : clause ∈ clauses) (matched : clause.pattern = some pattern) :
    pattern.selections ⊆ selectionsAmongClauses clauses := by
  induction listed with
  | head rest => simp [selectionsAmongClauses, matched, selectionsInPattern]
  | tail first _ inductionHypothesis =>
    simp only [selectionsAmongClauses]
    exact List.subset_append_of_subset_right _ inductionHypothesis

/-- The selections in a body are among those of the definitions. -/
theorem selections_of_definition {definitions : List Definition} {definition : Definition}
    (listed : definition ∈ definitions) :
    definition.body.selections ⊆ selectionsAmongDefinitions definitions := by
  induction listed with
  | head rest => simp [selectionsAmongDefinitions]
  | tail first _ inductionHypothesis =>
    simp only [selectionsAmongDefinitions]
    exact List.subset_append_of_subset_right _ inductionHypothesis

/-- The selections in a part are selections in the whole. -/
theorem Term.Part.selections_subset {whole term : Term} (part : whole.Part term) :
    term.selections ⊆ whole.selections := by
  induction part with
  | whole => exact List.Subset.refl _
  | body outer inside => exact fun line member => inside (by simpa [Term.selections] using member)
  | function outer inside => exact fun line member => inside (by simp [Term.selections, member])
  | argument outer inside => exact fun line member => inside (by simp [Term.selections, member])
  | condition outer inside => exact fun line member => inside (by simp [Term.selections, member])
  | consequent outer inside => exact fun line member => inside (by simp [Term.selections, member])
  | alternative outer inside => exact fun line member => inside (by simp [Term.selections, member])
  | scrutinee outer inside => exact fun line member => inside (by simp [Term.selections, member])
  | pattern outer listed matched inside =>
    exact fun line member => inside (by
      simp [Term.selections, selections_of_pattern listed matched member])
  | result outer listed inside =>
    exact fun line member => inside (by
      simp [Term.selections, selections_of_result listed member])
  | bound outer listed inside =>
    exact fun line member => inside (by
      simp [Term.selections, selections_of_definition listed member])
  | inside outer inside => exact fun line member => inside (by simp [Term.selections, member])

/-- A call that finds no matching clause has met a selection of the program, on the
line that the fault names. -/
theorem Program.unmatched_on_selection {program : Program} {budget : Nat} {name : String}
    {frequency time : Float} {value : Int} {line : Nat}
    (failed : program.call budget name frequency time =
      .error (.fault (.noMatchingClause value line))) : line ∈ program.selections := by
  obtain ⟨term, ⟨definition, listed, part⟩, raises⟩ := raised_by_part failed rfl
  have statement := statement_of_definition listed
  cases raises with
  | unmatched selective scrutinee line value =>
    refine List.mem_flatMap.mpr ⟨_, statement, part.selections_subset ?_⟩
    simp [Term.selections]

namespace Sampler

/-- The reports about missing clauses: the values and the lines. -/
def clauseReports (reported : List Failure) : List (Int × Nat) :=
  reported.filterMap fun
    | .fault (.noMatchingClause value line) => some (value, line)
    | _ => none

/-- A value and a line are listed exactly when a missing clause is reported with them.
-/
theorem mem_clauseReports {reported : List Failure} {value : Int} {line : Nat} :
    (value, line) ∈ clauseReports reported ↔
      .fault (.noMatchingClause value line) ∈ reported := by
  unfold clauseReports
  rw [List.mem_filterMap]
  constructor
  · rintro ⟨reason, member, same⟩
    split at same
    · cases same
      exact member
    · cases same
  · intro member
    exact ⟨_, member, rfl⟩

/-- Nothing is repeated once repetitions are removed. -/
theorem nodup_eraseDups {α : Type} [DecidableEq α] (items : List α) : items.eraseDups.Nodup := by
  induction items using List.reverseRecOn with
  | nil => simp
  | append_singleton items item inductionHypothesis =>
    rw [eraseDups_concat]
    split
    · exact inductionHypothesis
    · rename_i absent
      refine List.nodup_append.mpr ⟨inductionHypothesis, by simp, ?_⟩
      intro earlier member last same
      obtain rfl := List.mem_singleton.mp same
      rintro rfl
      exact absent (List.mem_eraseDups.mp member)

/-- Reports with the same value and line are about the same failure. -/
theorem nodup_clauseReports {reported : List Failure} (distinct : reported.Nodup) :
    (clauseReports reported).Nodup := by
  refine distinct.filterMap ?_
  intro first second report known same
  split at known
  · split at same
    · cases known
      cases same
      rfl
    · cases same
  · cases known

/-- No two of the requests find no clause on one line for different values. -/
def Steady (program : Program) (budget : Nat) (requests : List Request) : Prop :=
  ∀ first ∈ requests, ∀ second ∈ requests, ∀ line value other,
    first.outcome program budget = .error (.fault (.noMatchingClause value line)) →
    second.outcome program budget = .error (.fault (.noMatchingClause other line)) →
      value = other

/-- What a sampler reports about missing clauses, after any requests. It reports the
values and lines with which a new machine fails on some request, each pair once. All
lines are those of selections in the program, so the lines that are reported are no
more than the selections. A line is reported only once exactly when no two requests
fail on it for different values, and then the reports are no more than the
selections. -/
theorem reports_of_missing_clauses (program : Program) (budget : Nat)
    (requests : List Request) :
    let reports := clauseReports ((start program).sampleAll budget requests).2.reported
    (∀ value line, (value, line) ∈ reports ↔ ∃ request ∈ requests,
      request.outcome program budget = .error (.fault (.noMatchingClause value line))) ∧
    reports.Nodup ∧
    (∀ report ∈ reports, report.2 ∈ program.selections) ∧
    (reports.map Prod.snd).eraseDups.length ≤ program.selections.length ∧
    ((reports.map Prod.snd).Nodup ↔ Steady program budget requests) ∧
    (Steady program budget requests → reports.length ≤ program.selections.length) := by
  intro reports
  have reported : ((start program).sampleAll budget requests).2.reported =
      (failures program budget requests).eraseDups :=
    ((start_hasMet program).sampleAll budget requests).reported_eq
  have members : ∀ value line, (value, line) ∈ reports ↔ ∃ request ∈ requests,
      request.outcome program budget = .error (.fault (.noMatchingClause value line)) := by
    intro value line
    simp only [reports, mem_clauseReports, reported, List.mem_eraseDups, failures,
      List.mem_filterMap, Request.failure_eq_some]
  have distinct : reports.Nodup := by
    apply nodup_clauseReports
    rw [reported]
    exact nodup_eraseDups _
  have placed : ∀ report ∈ reports, report.2 ∈ program.selections := by
    rintro ⟨value, line⟩ member
    obtain ⟨request, -, failed⟩ := (members value line).mp member
    exact Program.unmatched_on_selection failed
  have bounded : ∀ lines : List Nat, lines.Nodup → lines ⊆ reports.map Prod.snd →
      lines.length ≤ program.selections.length := by
    intro lines apart inside
    refine (List.subperm_of_subset apart ?_).length_le
    intro line member
    obtain ⟨report, known, rfl⟩ := List.mem_map.mp (inside member)
    exact placed report known
  have once : (reports.map Prod.snd).Nodup ↔ Steady program budget requests := by
    rw [List.nodup_map_iff_inj_on distinct]
    constructor
    · intro apart first firstAsked second secondAsked line value other failed failedToo
      have same := apart _ ((members value line).mpr ⟨first, firstAsked, failed⟩) _
        ((members other line).mpr ⟨second, secondAsked, failedToo⟩) rfl
      exact congrArg Prod.fst same
    · rintro steady ⟨value, line⟩ known ⟨other, _⟩ knownToo rfl
      obtain ⟨first, firstAsked, failed⟩ := (members value line).mp known
      obtain ⟨second, secondAsked, failedToo⟩ := (members other line).mp knownToo
      rw [steady first firstAsked second secondAsked line value other failed failedToo]
  refine ⟨members, distinct, placed, ?_, once, ?_⟩
  · exact bounded _ (nodup_eraseDups _) fun line member => List.mem_eraseDups.mp member
  · intro steady
    simpa using bounded _ (once.mpr steady) (List.Subset.refl _)

/-- One selection that two requests of the same name reach with different values is
reported twice, with a warning for each request. -/
theorem reports_exceed_selections :
    let program := Program.ofStatements [.definition ⟨"main", .lambda "f" (.lambda "t"
      (.selection (.identifier "t" 1) [⟨some (.number 0 1), .number 1 1, 1⟩] 1) 1) 1, 1⟩]
    let requests : List Request := [⟨"main", 440, 1⟩, ⟨"main", 440, 2⟩]
    let trace := (start program).sampleAll 4 requests
    Program.ofSource "main = \\f.\\t. case t of 0 -> 1 end" = .ok program ∧
      clauseReports trace.2.reported = [(1, 1), (2, 1)] ∧
      (trace.1.flatMap (·.log)).length = 2 ∧
      ¬ (clauseReports trace.2.reported).length ≤ program.selections.length := by
  intro program requests trace
  have lexed : tokenize "main = \\f.\\t. case t of 0 -> 1 end" =
      .ok [⟨.identifier "main", ⟨1, 1⟩⟩, ⟨.mark .assign, ⟨1, 6⟩⟩, ⟨.mark .backslash, ⟨1, 8⟩⟩,
        ⟨.identifier "f", ⟨1, 9⟩⟩, ⟨.mark .dot, ⟨1, 10⟩⟩, ⟨.mark .backslash, ⟨1, 11⟩⟩,
        ⟨.identifier "t", ⟨1, 12⟩⟩, ⟨.mark .dot, ⟨1, 13⟩⟩, ⟨.keyword .caseWord, ⟨1, 15⟩⟩,
        ⟨.identifier "t", ⟨1, 20⟩⟩, ⟨.keyword .ofWord, ⟨1, 22⟩⟩, ⟨.number 0, ⟨1, 25⟩⟩,
        ⟨.mark .arrow, ⟨1, 27⟩⟩, ⟨.number 1, ⟨1, 30⟩⟩, ⟨.keyword .endWord, ⟨1, 32⟩⟩] := rfl
  have first : program.call 4 "main" 440 1 = .error (.fault (.noMatchingClause 1 1)) := rfl
  have second : program.call 4 "main" 440 2 = .error (.fault (.noMatchingClause 2 1)) := rfl
  have failed : failures program 4 requests =
      [.fault (.noMatchingClause 1 1), .fault (.noMatchingClause 2 1)] := by
    simp [requests, failures, Request.failure, Request.outcome, first, second]
  have met := (start_hasMet program).sampleAll 4 requests
  obtain ⟨fresh, same, announced⟩ := (start_hasMet program).announced 4 requests
  rw [failed] at met same
  have reports : clauseReports trace.2.reported = [(1, 1), (2, 1)] := by
    rw [met.reported_eq]
    decide
  refine ⟨Program.ofSource_eq_ok.mpr ⟨_, [], lexed, rfl⟩, reports, ?_, ?_⟩
  · have reasons : fresh = [.fault (.noMatchingClause 1 1), .fault (.noMatchingClause 2 1)] :=
      same.symm.trans (by decide)
    rw [← announced.length_eq, reasons]
    rfl
  · rw [reports]
    decide

end Sampler

end Timbre
