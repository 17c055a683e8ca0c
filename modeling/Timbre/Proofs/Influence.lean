import Timbre.Proofs.Parts

/-!
# What a waveform depends on

A waveform is driven by a frequency and a time, and it may ignore either. A
parameter that is not free in the body has no influence: two inputs make
environments that differ at a name which no part of the body ever looks up, and
definitions are evaluated where no parameter is bound at all. The frequency has no
influence either where the time is bound to the same name.
-/

namespace Timbre

open Lexical (Environment lookup)

/-- An identifier mentions its own name only. -/
theorem Term.mentions_identifier {name other : String} {line : Nat} :
    (Term.identifier other line).Mentions name ↔ other = name := by
  constructor
  · rintro ⟨place, free⟩
    cases free with
    | identifier => rfl
  · rintro rfl
    exact ⟨line, .identifier⟩

namespace Program

variable {program : Program} {body : Term} {frequencyName timeName : String}
  {frequency time otherFrequency otherTime : Float}

/-- The environment in which the body of a waveform is evaluated. -/
def inputs (frequencyName timeName : String) (frequency time : Float) : Environment :=
  (timeName, .number time) :: (frequencyName, .number frequency) :: Lexical.root

/-- Inputs that are equal wherever a body looks make environments that agree as far as
the body can see. The inner parameter hides an outer one of the same name. -/
theorem inputs_agree (between : Correspondence program program)
    (frequencies : body.Mentions frequencyName → frequencyName ≠ timeName →
      frequency = otherFrequency)
    (times : body.Mentions timeName → time = otherTime) :
    between.Agree body (inputs frequencyName timeName frequency time)
      (inputs frequencyName timeName otherFrequency otherTime) := by
  have root : between.Agree body Lexical.root Lexical.root := .root body
  have bound := (root.extend frequencyName (.number frequency)).extend timeName (.number time)
  refine ⟨bound.constant, ?_⟩
  intro seen mentioned
  by_cases ofTime : timeName = seen
  · subst ofTime
    simpa [inputs, lookup, times mentioned] using Option.Rel.some (.number otherTime)
  · by_cases ofFrequency : frequencyName = seen
    · subst ofFrequency
      have same := frequencies mentioned (Ne.symm ofTime)
      simpa [inputs, lookup, ofTime, same] using Option.Rel.some (.number otherFrequency)
    · simpa [inputs, lookup, ofTime, ofFrequency] using root.alike seen mentioned

variable {name : String} {definition : Definition} {outer inner : Nat}

/-- A call has the same answer for inputs that are equal wherever its body looks. -/
theorem call_eq_of_inputs (found : program.definition name = some definition)
    (form : definition.body =
      .lambda frequencyName (.lambda timeName body inner) outer)
    (frequencies : body.Mentions frequencyName → frequencyName ≠ timeName →
      frequency = otherFrequency)
    (times : body.Mentions timeName → time = otherTime) (budget : Nat) :
    program.call budget name frequency time =
      program.call budget name otherFrequency otherTime := by
  let between : Correspondence program program := sameParts fun _ _ => rfl
  have part : definition.body.Part (.lambda frequencyName (.lambda timeName body inner) outer) :=
    form ▸ .whole
  have corresponds : between.terms body body :=
    ⟨rfl, definition, (defines_of_definition found).1, part.body.body⟩
  have answers := between.evaluate_alike budget corresponds
    (inputs_agree between frequencies times)
  have same := answers.bind fun _ _ alike => Correspondence.result_alike alike
  rw [call_eq_meaning, call_eq_meaning]
  simp only [Lexical.call, found, form]
  exact same.eq

end Program

/-- A parameter that a waveform does not use has no influence on it. Where the
frequency is not free in the body, or is hidden because the time has the same name,
calls at two frequencies give the same number or the same failure; and so do calls at
two times where the time is not free in the body. -/
theorem Program.unused_parameters (program : Program) (name : String) (definition : Definition)
    (found : program.definition name = some definition) (frequencyName timeName : String)
    (body : Term) (outer inner : Nat)
    (form : definition.body = .lambda frequencyName (.lambda timeName body inner) outer)
    (budget : Nat) :
    (¬ body.Mentions frequencyName ∨ frequencyName = timeName →
      ∀ frequency otherFrequency time,
        program.call budget name frequency time =
          program.call budget name otherFrequency time) ∧
    (¬ body.Mentions timeName →
      ∀ frequency time otherTime,
        program.call budget name frequency time =
          program.call budget name frequency otherTime) := by
  constructor
  · intro unused frequency otherFrequency time
    refine call_eq_of_inputs found form ?_ (fun _ => rfl) budget
    intro mentioned different
    rcases unused with unmentioned | hidden
    · exact absurd mentioned unmentioned
    · exact absurd hidden different
  · intro unused frequency time otherTime
    exact call_eq_of_inputs found form (fun _ _ => rfl) (fun mentioned => absurd mentioned unused)
      budget

/-- In `main` the frequency occurs only where an inner parameter of the same name binds
it, and `level` means the definition `f`, not the frequency; `drone` ignores the time. -/
theorem Program.unused_parameters_hidden :
    let level : Definition := ⟨"level", .lambda "x" (.identifier "f" 2) 2, 2⟩
    let body : Term := .application (.lambda "f" (.identifier "f" 3) 3)
      (.application (.identifier "level" 3) (.identifier "t" 3) 3) 3
    let main : Definition := ⟨"main", .lambda "f" (.lambda "t" body 3) 3, 3⟩
    let drone : Definition := ⟨"drone", .lambda "f" (.lambda "t" (.identifier "f" 4) 4) 4, 4⟩
    let program := Program.ofStatements [.definition ⟨"f", .number 2 1, 1⟩, .definition level,
      .definition main, .definition drone]
    (¬ body.Mentions "f" ∧ program.call 6 "main" 440 1 = .ok 2 ∧
      program.call 6 "main" 440 1 = program.call 6 "main" 220 1) ∧
    (¬ (Term.identifier "f" 4).Mentions "t" ∧ program.call 6 "drone" 440 1 = .ok 440 ∧
      program.call 6 "drone" 440 1 = program.call 6 "drone" 440 2) := by
  intro level body main drone program
  have unused : ¬ body.Mentions "f" := by
    rintro ⟨line, free⟩
    unfold body at free
    cases free with
    | function inside =>
      cases inside with
      | lambda different _ => exact different rfl
    | argument inside =>
      cases inside with
      | function inside => exact absurd (Term.mentions_identifier.mp ⟨line, inside⟩) (by decide)
      | argument inside => exact absurd (Term.mentions_identifier.mp ⟨line, inside⟩) (by decide)
  have timeless : ¬ (Term.identifier "f" 4).Mentions "t" := by
    rw [Term.mentions_identifier]
    decide
  have first := (Program.unused_parameters program "main" main rfl "f" "t" body 3 3 rfl 6).1
    (.inl unused)
  have second := (Program.unused_parameters program "drone" drone rfl "f" "t" _ 4 4 rfl 6).2
    timeless
  exact ⟨⟨unused, rfl, first 440 220 1⟩, timeless, rfl, second 440 1 2⟩

end Timbre
