import Timbre.Diagnostic
import Timbre.Proofs.Occurrence
import Timbre.Proofs.Reuse

/-!
# Which entries are accepted and which are driven

A call drives the first definition of a name. The entry check asks the list of
playable names, and a name gets on that list by any definition that is playable. So
the check accepts every name that can be driven, and the two agree on all names
exactly when the first definition decides: when no name has a playable definition
after a first one that is not playable.

In such a program, and so in every program without repeated names, a name that the
check accepts is never refused by a call, and the list is in the order of the first
definitions.
-/

namespace Timbre

/-- Two lambdas around a body that is not a lambda. -/
def Term.ExactlyTwoLambdas (term : Term) : Prop :=
  ∃ frequency time body inner outer, term = .lambda frequency (.lambda time body inner) outer ∧
    ∀ parameter inside line, body ≠ .lambda parameter inside line

/-- A term that is not taken for a lambda is not one. -/
theorem Term.asLambda_eq_none {term : Term} :
    term.asLambda = none ↔ ∀ parameter inside line, term ≠ .lambda parameter inside line := by
  cases term <;> simp [asLambda]

/-- A playable definition is one whose body is exactly two lambdas. -/
theorem DefinitionOf.isPlayable_iff {definition : Definition} :
    definition.isPlayable = true ↔ definition.body.ExactlyTwoLambdas := by
  unfold isPlayable Term.ExactlyTwoLambdas Term.asWaveform
  split
  · rename_i waveform
    split at waveform
    · rename_i form
      cases waveform
      rw [Option.isNone_iff_eq_none, Term.asLambda_eq_none]
      constructor
      · intro unlike
        exact ⟨_, _, _, _, _, form, unlike⟩
      · rintro ⟨_, _, _, _, _, same, unlike⟩
        rw [form] at same
        cases same
        exact unlike
    · cases waveform
  · rename_i waveform
    split at waveform
    · cases waveform
    · rename_i other
      simp only [Bool.false_eq_true, false_iff]
      rintro ⟨frequency, time, body, inner, outer, same, -⟩
      exact other _ _ _ _ _ same

/-! ### Calls that are refused -/

/-- Whether a fault refuses the entry of a call. -/
def Fault.refusesEntry : Fault → Bool
  | unknownDefinition _ | notEvaluable _ => true
  | _ => false

/-- Work that never refuses an entry. -/
def Eval.Admitted {α : Type} (work : Eval α) : Prop :=
  ∀ (frames : Frames) (reason : Fault),
    (work.run frames).1 = .error (.fault reason) → reason.refusesEntry = false

/-- Raising another fault refuses no entry. -/
theorem Eval.admitted_raise {α : Type} {reason : Fault} (other : reason.refusesEntry = false) :
    (raise reason : Eval α).Admitted := by
  intro frames same failed
  cases failed
  exact other

/-- A sequence refuses no entry if its parts do not. -/
theorem Eval.Admitted.bind {α β : Type} {work : Eval α} {next : α → Eval β}
    (first : work.Admitted) (second : ∀ value, (next value).Admitted) :
    (work >>= next).Admitted := by
  intro frames reason failed
  have start := first frames
  rw [run_bind] at failed
  cases outcome : (work.run frames : Except Failure α × Frames) with
  | mk result after =>
    rw [outcome] at failed start
    cases result with
    | error found =>
      cases failed
      exact start reason rfl
    | ok value => exact second value after reason failed

/-- The rules refuse no entry if the evaluations that they make do not. -/
theorem Eval.admitted_inherited : Inherited fun _ work => work.Admitted where
  pure value := fun _ _ failed => nomatch failed
  raise reason ordinary := by
    apply admitted_raise
    cases reason <;> first | rfl | cases ordinary
  unfinished := fun _ _ failed => nomatch failed
  get := fun _ _ failed => nomatch failed
  bindName scope name value := fun _ _ failed => nomatch failed
  bind := Admitted.bind

namespace Program

variable {program : Program} {name : String}

/-- A call of a name whose first definition is two lambdas is not refused. -/
theorem call_admitted {definition : Definition} {waveform : String × String × Term}
    (found : program.definition name = some definition)
    (form : definition.body.asWaveform = some waveform) (budget : Nat) (frequency time : Float)
    {reason : Fault} (failed : program.call budget name frequency time = .error (.fault reason)) :
    reason.refusesEntry = false := by
  obtain ⟨frequencyName, timeName, body⟩ := waveform
  have admitted : (evaluateWaveform program budget name frequency time).Admitted := by
    simp only [evaluateWaveform, Eval.waveform, found, form]
    have released : (modify (·.release 1) : Eval PUnit).Admitted := by
      intro frames reason impossible
      rw [Eval.run_modify] at impossible
      cases impossible
    apply released.bind
    intro _
    exact Eval.admitted_inherited.drive (fun kind => Eval.admitted_raise rfl) program budget
      frequencyName timeName body frequency time
  exact admitted Frames.root reason failed

/-! ### Names that are listed -/

/-- A definition is enlisted if it is playable and its name is not listed yet. -/
def enlist (names : List String) (definition : Definition) : List String :=
  if definition.name ∉ names ∧ definition.isPlayable then names ++ [definition.name] else names

/-- The playable names are enlisted one definition after another. -/
theorem playable_eq (program : Program) :
    program.playable = program.definitions.foldl enlist [] := rfl

/-- Where the first playable definition of a name stands. -/
def placeOfPlayable (definitions : List Definition) (name : String) : Nat :=
  definitions.findIdx fun definition => definition.name = name && definition.isPlayable

/-- The names of the playable definitions, in the order in which these first
appear. -/
structure Lists (definitions : List Definition) (names : List String) : Prop where
  member : ∀ name, name ∈ names ↔
    ∃ definition ∈ definitions, definition.name = name ∧ definition.isPlayable = true
  ordered : names.Pairwise fun earlier later =>
    placeOfPlayable definitions earlier < placeOfPlayable definitions later

/-- A listed name keeps its place when a definition is added. -/
theorem Lists.place_kept {definitions : List Definition} {names : List String}
    (lists : Lists definitions names) (definition : Definition) {name : String}
    (listed : name ∈ names) :
    placeOfPlayable definitions name < definitions.length ∧
      placeOfPlayable (definitions ++ [definition]) name = placeOfPlayable definitions name := by
  have inside : placeOfPlayable definitions name < definitions.length := by
    apply List.findIdx_lt_length_of_exists
    simpa using (lists.member name).mp listed
  refine ⟨inside, ?_⟩
  unfold placeOfPlayable at inside ⊢
  rw [List.findIdx_append, if_pos inside]

/-- Enlisting one more definition keeps the list right: its name is added at the end if
it is playable and new. -/
theorem Lists.enlist {definitions : List Definition} {names : List String}
    (lists : Lists definitions names) (definition : Definition) :
    Lists (definitions ++ [definition]) (enlist names definition) := by
  -- The names listed before keep their places, so their order stands.
  have ordered : names.Pairwise fun earlier later =>
      placeOfPlayable (definitions ++ [definition]) earlier <
        placeOfPlayable (definitions ++ [definition]) later := by
    refine lists.ordered.imp_of_mem ?_
    intro earlier later first second before
    rwa [(lists.place_kept definition first).2, (lists.place_kept definition second).2]
  unfold Program.enlist
  split
  · rename_i added
    obtain ⟨unlisted, playable⟩ := added
    constructor
    · intro name
      simp only [List.mem_append, List.mem_singleton, lists.member]
      grind
    · refine List.pairwise_append.mpr ⟨ordered, List.pairwise_singleton .., ?_⟩
      intro earlier listed later same
      obtain rfl := List.mem_singleton.mp same
      have last : placeOfPlayable (definitions ++ [definition]) definition.name =
          definitions.length := by
        have absent : ¬ placeOfPlayable definitions definition.name < definitions.length := by
          intro inside
          obtain ⟨other, known, named⟩ := List.findIdx_lt_length.mp inside
          exact unlisted ((lists.member _).mpr ⟨other, known, by simpa using named⟩)
        unfold placeOfPlayable at absent ⊢
        rw [List.findIdx_append, if_neg absent]
        simp [playable]
      rw [last, (lists.place_kept definition listed).2]
      exact (lists.place_kept definition listed).1
  · rename_i refused
    refine ⟨?_, ordered⟩
    intro name
    simp only [List.mem_append, List.mem_singleton]
    have known := lists.member
    grind

/-- The playable names are listed in the order of the first playable definitions. -/
theorem playable_lists (program : Program) : Lists program.definitions program.playable := by
  have run : ∀ (after before : List Definition) (names : List String), Lists before names →
      Lists (before ++ after) (after.foldl enlist names) := by
    intro after
    induction after with
    | nil =>
      intro before names lists
      simpa using lists
    | cons definition rest inductionHypothesis =>
      intro before names lists
      simpa using inductionHypothesis _ _ (lists.enlist definition)
  rw [playable_eq]
  exact run program.definitions [] [] ⟨by simp, .nil⟩

/-! ### The check -/

/-- An entry is accepted exactly when its name is among the playable ones. -/
theorem entryDiagnostic_eq_none : program.entryDiagnostic name = none ↔
    name ∈ program.playable := by
  unfold entryDiagnostic
  cases found : program.definition name with
  | none =>
    simp only [reduceCtorEq, false_iff]
    intro listed
    obtain ⟨definition, member, named, -⟩ := (program.playable_lists.member name).mp listed
    exact definition_eq_none.mp found ⟨definition, member, named⟩
  | some definition => simp

/-- A name without a definition is refused as undefined, on no line. -/
theorem entryDiagnostic_undefined (missing : program.definition name = none) :
    program.entryDiagnostic name = some ⟨.undefinedEntry name, 0⟩ := by
  simp only [entryDiagnostic, missing]

/-- A name with a definition is refused as unplayable, on the line of its first
definition. -/
theorem entryDiagnostic_unplayable {definition : Definition}
    (found : program.definition name = some definition)
    (refused : program.entryDiagnostic name ≠ none) :
    program.entryDiagnostic name = some ⟨.unplayableEntry name, definition.line⟩ := by
  have unlisted := mt entryDiagnostic_eq_none.mpr refused
  simp only [entryDiagnostic, found, unlisted, if_false]

/-- The definition that a call drives for a name is two lambdas around a body that
is not a lambda. -/
def Drivable (program : Program) (name : String) : Prop :=
  ∃ definition, program.definition name = some definition ∧ definition.body.ExactlyTwoLambdas

/-- No name has a playable definition after a first one that is not playable. -/
def FirstDecides (program : Program) : Prop :=
  ∀ definition ∈ program.definitions, definition.body.ExactlyTwoLambdas →
    program.Drivable definition.name

/-- A name that a call can drive is accepted. -/
theorem Drivable.accepted (drivable : program.Drivable name) :
    program.entryDiagnostic name = none := by
  obtain ⟨definition, found, form⟩ := drivable
  obtain ⟨member, named⟩ := defines_of_definition found
  rw [entryDiagnostic_eq_none, program.playable_lists.member]
  exact ⟨definition, member, named, DefinitionOf.isPlayable_iff.mpr form⟩

/-- Where the first definitions decide, the accepted names are those that a call can
drive. -/
theorem FirstDecides.drivable_iff (decides : program.FirstDecides) (name : String) :
    program.entryDiagnostic name = none ↔ program.Drivable name := by
  refine ⟨?_, Drivable.accepted⟩
  rw [entryDiagnostic_eq_none, program.playable_lists.member]
  rintro ⟨definition, member, rfl, playable⟩
  exact decides definition member (DefinitionOf.isPlayable_iff.mp playable)

/-- Where the first definition of a name stands. -/
def placeOfFirst (program : Program) (name : String) : Nat :=
  program.definitions.findIdx fun definition => definition.name = name

/-- If a name can be driven, its first definition is its first playable one. -/
theorem Drivable.place (drivable : program.Drivable name) :
    placeOfPlayable program.definitions name = program.placeOfFirst name := by
  obtain ⟨definition, found, form⟩ := drivable
  obtain ⟨before, after, split, named, unlike⟩ := definition_eq_some.mp found
  have playable := DefinitionOf.isPlayable_iff.mpr form
  have place : ∀ test : Definition → Bool, test definition = true →
      (∀ earlier ∈ before, test earlier = false) →
        (before ++ definition :: after).findIdx test = before.length := by
    intro test passed failed
    rw [List.findIdx_append, List.findIdx_eq_length.mpr failed]
    simp [List.findIdx_cons, passed]
  unfold placeOfPlayable placeOfFirst
  rw [split, place _ (by simpa [playable] using named), place _ (by simpa using named)]
  · intro earlier member
    simpa using unlike earlier member
  · intro earlier member
    have different := unlike earlier member
    simp_all

/-- A name that can be driven is not refused by a call. -/
theorem Drivable.call_admitted (drivable : program.Drivable name) (budget : Nat)
    (frequency time : Float) {reason : Fault}
    (failed : program.call budget name frequency time = .error (.fault reason)) :
    reason.refusesEntry = false := by
  obtain ⟨definition, found, parameter, other, body, inner, outer, form, -⟩ := drivable
  have waveform : definition.body.asWaveform = some (parameter, other, body) := by
    rw [form]
    rfl
  exact Program.call_admitted found waveform budget frequency time failed

/-- What the entry check accepts, and when that is what a call drives. The names
accepted are those of the playable definitions, and they are listed each once, in
the order in which these first appear. The check agrees with the calls on all names
exactly when first definitions decide. Then no call of an accepted name is refused,
for any frequency and time, and the order of the list is that of the first
definitions. -/
theorem entry_check_agreement (program : Program) :
    (∀ name, program.entryDiagnostic name = none ↔ ∃ definition ∈ program.definitions,
      definition.name = name ∧ definition.body.ExactlyTwoLambdas) ∧
    (∀ name, name ∈ program.playable ↔ program.entryDiagnostic name = none) ∧
    (program.playable.Pairwise fun earlier later =>
      placeOfPlayable program.definitions earlier < placeOfPlayable program.definitions later) ∧
    ((∀ name, program.entryDiagnostic name = none ↔ program.Drivable name) ↔
      program.FirstDecides) ∧
    (program.FirstDecides →
      (∀ name, program.entryDiagnostic name = none → ∀ budget frequency time other,
        program.call budget name frequency time ≠ .error (.fault (.unknownDefinition other)) ∧
        program.call budget name frequency time ≠ .error (.fault (.notEvaluable other))) ∧
      program.playable.Pairwise fun earlier later =>
        program.placeOfFirst earlier < program.placeOfFirst later) := by
  have accepted : ∀ name, program.entryDiagnostic name = none ↔
      ∃ definition ∈ program.definitions,
        definition.name = name ∧ definition.body.ExactlyTwoLambdas := by
    intro name
    simp only [entryDiagnostic_eq_none, program.playable_lists.member,
      DefinitionOf.isPlayable_iff]
  have ordered := program.playable_lists.ordered
  refine ⟨accepted, fun name => entryDiagnostic_eq_none.symm, ordered, ⟨?_, ?_⟩, ?_⟩
  · intro agrees definition member form
    exact (agrees definition.name).mp ((accepted _).mpr ⟨definition, member, rfl, form⟩)
  · intro decides
    exact decides.drivable_iff
  · intro decides
    refine ⟨?_, ?_⟩
    · intro name found budget frequency time other
      have drivable := (decides.drivable_iff name).mp found
      constructor
      · intro failed
        cases drivable.call_admitted budget frequency time failed
      · intro failed
        cases drivable.call_admitted budget frequency time failed
    · refine ordered.imp_of_mem ?_
      intro earlier later first second before
      have place : ∀ name, name ∈ program.playable →
          placeOfPlayable program.definitions name = program.placeOfFirst name := fun name listed =>
        ((decides.drivable_iff name).mp (entryDiagnostic_eq_none.mpr listed)).place
      rwa [place earlier first, place later second] at before

/-- A playable definition after one that is not playable: the name is listed and the
check accepts it, but a call drives the first definition and is refused. -/
theorem entry_check_later_definition :
    let program := ofStatements [.definition ⟨"main", .identifier "x" 1, 1⟩,
      .definition ⟨"main", .lambda "f" (.lambda "t" (.identifier "t" 2) 2) 2, 2⟩]
    program.entryDiagnostic "main" = none ∧ program.playable = ["main"] ∧
      ¬ program.Drivable "main" ∧ ∀ budget frequency time,
        program.call budget "main" frequency time = .error (.fault (.notEvaluable "main")) := by
  intro program
  refine ⟨rfl, rfl, ?_, fun budget frequency time => rfl⟩
  rintro ⟨definition, found, parameter, other, body, inner, outer, form, -⟩
  cases found
  cases form

end Program

end Timbre
