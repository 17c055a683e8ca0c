import Timbre.Performance
import Timbre.Proofs.Loading
import Timbre.Proofs.Rendering

/-!
# The outcome of a performance

What a score gives, said from its source text, its name and its samples. The text is not
a program, or it repeats a name, or the name is not that of a waveform; each of these is
the outcome before anything later is looked at. Otherwise the samples decide: the failure
of the first one that fails, or all of them in order.

Only several workers can hinder that: one of them never stops, or they crash. A
performance has exactly the outcome told, so where it is not hindered neither the number
of workers that are requested nor what the host has can be told from it. A failure of a
sample never refuses the entry, because a text that was loaded has no other definition of
the name than the one that was checked.
-/

namespace Timbre

namespace Score

variable (score : Score)

/-- The number of samples. -/
def count : UInt64 := sampleCount score.seconds score.rate

/-- What a new machine answers for the sample of an index, at the index over the rate. -/
def sampleAt (budget : Nat) (program : Program) (index : Nat) : Except Failure Float :=
  program.call budget score.name score.frequency
    ((UInt64.ofNat index).toFloat / score.rate.toFloat)

/-- The answers for all samples, in order. -/
def answers (budget : Nat) (program : Program) : List (Except Failure Float) :=
  (List.range score.count.toNat).map (score.sampleAt budget program)

/-- The source text is a program with distinct names. -/
def Loads (program : Program) : Prop :=
  Program.ofSource score.source = .ok program ∧ program.Distinct

/-- The number of workers that there are for the score. -/
def workersOn (host : Host) : UInt64 := workerCount host.workers score.workers score.count

/-- The length of a worker's chunk. -/
def chunkOn (host : Host) : Nat := (ceilingQuotient score.count (score.workersOn host)).toNat

/-- The result is read from the samples: there is one worker, or several who all stop and do not
crash. -/
def Unhindered (budget : Nat) (host : Host) (program : Program) : Prop :=
  score.workersOn host = 1 ∨ ¬ Stalls (score.answers budget program) (score.chunkOn host) ∧
    ∀ crash, ¬ Crashes host score.count.toNat (score.chunkOn host) crash

/-- What becomes of a score. -/
inductive Outcome (budget : Nat) (host : Host) : Except PerformanceError (List Float) → Prop where
  | unparsable {reason : ParseError} (parsed : Program.ofSource score.source = .error reason) :
      Outcome budget host (.error (.notLoaded (.unparsable reason)))
  | repeated {program : Program} (parsed : Program.ofSource score.source = .ok program)
      (repeated : ¬ program.Distinct) :
      Outcome budget host (.error (.notLoaded (.invalid program.diagnostics)))
  | undefined {program : Program} (loads : score.Loads program)
      (missing : program.definition score.name = none) :
      Outcome budget host (.error (.badEntry ⟨.undefinedEntry score.name, 0⟩))
  | unplayable {program : Program} {definition : Definition} (loads : score.Loads program)
      (found : program.definition score.name = some definition)
      (form : ¬ definition.body.ExactlyTwoLambdas) :
      Outcome budget host (.error (.badEntry ⟨.unplayableEntry score.name, definition.line⟩))
  | failed {program : Program} {index : Nat} {reason : Failure} (loads : score.Loads program)
      (drivable : program.Drivable score.name)
      (unhindered : score.Unhindered budget host program) (inside : index < score.count.toNat)
      (fails : score.sampleAt budget program index = .error reason)
      (first : ∀ earlier < index, ∃ value, score.sampleAt budget program earlier = .ok value)
      (entered : ∀ name, reason ≠ .fault (.unknownDefinition name) ∧
        reason ≠ .fault (.notEvaluable name)) :
      Outcome budget host (.error (.notRendered (.failed reason)))
  | rendered {program : Program} {samples : List Float} (loads : score.Loads program)
      (drivable : program.Drivable score.name)
      (unhindered : score.Unhindered budget host program)
      (length : samples.length = score.count.toNat)
      (each : ∀ index value, samples[index]? = some value →
        score.sampleAt budget program index = .ok value) :
      Outcome budget host (.ok samples)
  | stalled {program : Program} (loads : score.Loads program)
      (drivable : program.Drivable score.name) (several : score.workersOn host ≠ 1)
      (stalls : Stalls (score.answers budget program) (score.chunkOn host)) :
      Outcome budget host (.error (.notRendered (.failed .unfinished)))
  | crashed {program : Program} {crash : Crash} (loads : score.Loads program)
      (drivable : program.Drivable score.name) (several : score.workersOn host ≠ 1)
      (ends : ¬ Stalls (score.answers budget program) (score.chunkOn host))
      (crashes : Crashes host score.count.toNat (score.chunkOn host) crash) :
      Outcome budget host (.error (.notRendered (.crashed crash)))

variable {score} {budget : Nat} {host : Host} {program : Program}

/-! ### What a performance computes -/

/-- A text that cannot be loaded is the first thing to fail. -/
theorem perform_unloaded {reason : LoadError}
    (refused : (load score.source).value = .error reason) :
    (score.perform budget host).value = .error (.notLoaded reason) := by
  simp only [perform, refused]

/-- An entry that is refused is the next. -/
theorem perform_refused {diagnostic : Diagnostic} (loads : score.Loads program)
    (refused : program.entryDiagnostic score.name = some diagnostic) :
    (score.perform budget host).value = .error (.badEntry diagnostic) := by
  simp only [perform, load_distinct loads.1 loads.2, refused]

/-- The voice that is rendered once a text is loaded. -/
def voice (score : Score) (budget : Nat) (program : Program) : Voice :=
  ⟨program, score.name, budget⟩

/-- Once the entry is accepted the samples are rendered. -/
theorem perform_accepted (loads : score.Loads program)
    (accepted : program.entryDiagnostic score.name = none) :
    (score.perform budget host).value =
      ((score.voice budget program).renderParallel host score.frequency score.rate score.count
        score.workers).mapError .notRendered := by
  simp only [perform, load_distinct loads.1 loads.2, accepted]
  rfl

/-- The answers of new machines at the times of the samples. -/
theorem voice_answers (score : Score) (budget : Nat) (program : Program) :
    (score.voice budget program).answers
        (samplePoints score.frequency score.rate score.count.toNat) =
      score.answers budget program := by
  simp only [Voice.answers, samplePoints, List.map_map]
  rfl

/-- Several workers join the answers. -/
theorem voice_together (several : score.workersOn host ≠ 1) (budget : Nat) (program : Program) :
    RendersTogether host (score.answers budget program) (score.chunkOn host)
      ((score.voice budget program).renderParallel host score.frequency score.rate score.count
        score.workers) := by
  rw [← voice_answers]
  exact (score.voice budget program).renderParallel_together host score.frequency score.rate several

/-- Unless they are hindered, workers collect the answers. -/
theorem Unhindered.renderParallel (unhindered : score.Unhindered budget host program) :
    (score.voice budget program).renderParallel host score.frequency score.rate score.count
        score.workers = ((score.answers budget program).mapM id).mapError .failed := by
  by_cases several : score.workersOn host = 1
  · rw [Voice.renderParallel_alone _ _ _ _ several, Voice.render_collect, voice_answers]
  · obtain ⟨ends, safe⟩ := unhindered.resolve_left several
    refine (voice_together several budget program).of_safe ends ?_
    simpa [answers] using safe

/-- Fewer than `2 ^ 60` samples for which there is memory are not hindered, if all of them are
numbers or failures. -/
theorem unhindered_of_finished (small : score.count.toNat < 2 ^ 60)
    (granted : host.grants (8 * score.count.toNat) = true)
    (finished : ∀ index < score.count.toNat,
      score.sampleAt budget program index ≠ .error .unfinished) :
    score.Unhindered budget host program := by
  by_cases several : score.workersOn host = 1
  · exact .inl several
  · have fits := chunksFit_of_several several (by omega)
    refine .inr ⟨not_stalls ?_ _, not_crashes fits small granted⟩
    intro member
    obtain ⟨index, listed, unfinished⟩ := List.mem_map.mp member
    exact finished index (List.mem_range.mp listed) unfinished

/-! ### The outcome -/

/-- Of a loaded program the entry check refuses what a call would not drive. -/
theorem Loads.refused (loads : score.Loads program) {definition : Definition}
    (found : program.definition score.name = some definition)
    (form : ¬ definition.body.ExactlyTwoLambdas) :
    program.entryDiagnostic score.name =
      some ⟨.unplayableEntry score.name, definition.line⟩ := by
  apply Program.entryDiagnostic_unplayable found
  rw [ne_eq, loads.2.firstDecides.drivable_iff]
  rintro ⟨driven, same, other⟩
  rw [found] at same
  cases same
  exact form other

/-- A sample of a name that can be driven fails without refusing the entry. -/
theorem sampleAt_entered (drivable : program.Drivable score.name) {index : Nat} {reason : Failure}
    (fails : score.sampleAt budget program index = .error reason) (name : String) :
    reason ≠ .fault (.unknownDefinition name) ∧ reason ≠ .fault (.notEvaluable name) := by
  constructor
  · rintro rfl
    cases drivable.call_admitted _ _ _ fails
  · rintro rfl
    cases drivable.call_admitted _ _ _ fails

/-- A name that can be driven has an outcome: that of its samples, unless it is hindered. -/
theorem perform_drivable (loads : score.Loads program) (drivable : program.Drivable score.name) :
    score.Outcome budget host (score.perform budget host).value := by
  rw [perform_accepted loads drivable.accepted]
  by_cases unhindered : score.Unhindered budget host program
  · rw [unhindered.renderParallel]
    cases collected : (score.answers budget program).mapM id with
    | ok samples =>
      obtain ⟨length, each⟩ := collect_numbered_eq_ok.mp collected
      exact .rendered loads drivable unhindered length each
    | error reason =>
      obtain ⟨index, inside, fails, first⟩ := collect_numbered_eq_error.mp collected
      exact .failed loads drivable unhindered inside fails first (sampleAt_entered drivable fails)
  · obtain ⟨several, hindered⟩ := not_or.mp unhindered
    have together := voice_together several budget program
    by_cases stalls : Stalls (score.answers budget program) (score.chunkOn host)
    · rw [together.of_stalls stalls]
      exact .stalled loads drivable several stalls
    · obtain ⟨crash, crashes⟩ :
          ∃ crash, Crashes host score.count.toNat (score.chunkOn host) crash := by
        simpa [stalls] using hindered
      rw [together.of_crashes stalls (by simpa [answers] using crashes)]
      exact .crashed loads drivable several stalls crashes

/-- Every performance has an outcome. -/
theorem perform_has_outcome (score : Score) (budget : Nat) (host : Host) :
    score.Outcome budget host (score.perform budget host).value := by
  cases parsed : Program.ofSource score.source with
  | error reason =>
    rw [perform_unloaded (load_unparsable parsed)]
    exact .unparsable parsed
  | ok program =>
    by_cases distinct : program.Distinct
    · have loads : score.Loads program := ⟨parsed, distinct⟩
      cases found : program.definition score.name with
      | none =>
        rw [perform_refused loads (Program.entryDiagnostic_undefined found)]
        exact .undefined loads found
      | some definition =>
        by_cases form : definition.body.ExactlyTwoLambdas
        · exact perform_drivable loads ⟨definition, found, form⟩
        · rw [perform_refused loads (loads.refused found form)]
          exact .unplayable loads found form
    · rw [perform_unloaded (load_repeated parsed distinct)]
      exact .repeated parsed distinct

/-- An outcome is that of the performance. -/
theorem Outcome.perform_eq {result : Except PerformanceError (List Float)}
    (outcome : score.Outcome budget host result) : (score.perform budget host).value = result := by
  cases outcome with
  | unparsable parsed => exact perform_unloaded (load_unparsable parsed)
  | repeated parsed repeated => exact perform_unloaded (load_repeated parsed repeated)
  | undefined loads missing =>
    exact perform_refused loads (Program.entryDiagnostic_undefined missing)
  | unplayable loads found form => exact perform_refused loads (loads.refused found form)
  | failed loads drivable unhindered inside fails first entered =>
    rw [perform_accepted loads drivable.accepted, unhindered.renderParallel, answers,
      collect_numbered_eq_error.mpr ⟨_, inside, fails, first⟩]
    rfl
  | rendered loads drivable unhindered length each =>
    rw [perform_accepted loads drivable.accepted, unhindered.renderParallel, answers,
      collect_numbered_eq_ok.mpr ⟨length, each⟩]
    rfl
  | stalled loads drivable several stalls =>
    rw [perform_accepted loads drivable.accepted, (voice_together several _ _).of_stalls stalls]
    rfl
  | crashed loads drivable several ends crashes =>
    rw [perform_accepted loads drivable.accepted,
      (voice_together several _ _).of_crashes ends (by simpa [answers] using crashes)]
    rfl

/-- An outcome of workers that are not hindered is that of any others who are not. -/
theorem Outcome.workers {result : Except PerformanceError (List Float)}
    (outcome : score.Outcome budget host result) (workers : UInt64) {others : Host}
    (unhindered : ∀ program, score.Loads program → score.Unhindered budget host program)
    (also : ∀ program, score.Loads program →
      ({ score with workers } : Score).Unhindered budget others program) :
    ({ score with workers } : Score).Outcome budget others result := by
  cases outcome with
  | unparsable parsed => exact .unparsable parsed
  | repeated parsed repeated => exact .repeated parsed repeated
  | undefined loads missing => exact .undefined loads missing
  | unplayable loads found form => exact .unplayable loads found form
  | failed loads drivable _ inside fails first entered =>
    exact .failed loads drivable (also _ loads) inside fails first entered
  | rendered loads drivable _ length each =>
    exact .rendered loads drivable (also _ loads) length each
  | stalled loads drivable several stalls =>
    exact absurd stalls ((unhindered _ loads).resolve_left several).1
  | crashed loads drivable several ends crashes =>
    exact absurd crashes (((unhindered _ loads).resolve_left several).2 _)

/-- A performance results in the outcome of its score and in nothing else. Where it is not
hindered, another number of workers and another host that does not hinder make no difference.
Nothing hinders fewer than `2 ^ 60` samples for which there is memory, if each of them is a
number or a failure. The message about a refused entry names the entry. -/
theorem perform_outcome (score : Score) (budget : Nat) (host : Host) :
    (∀ result, (score.perform budget host).value = result ↔ score.Outcome budget host result) ∧
    (∀ workers others,
      (∀ program, score.Loads program → score.Unhindered budget host program) →
      (∀ program, score.Loads program →
        ({ score with workers } : Score).Unhindered budget others program) →
      (({ score with workers } : Score).perform budget others).value =
        (score.perform budget host).value) ∧
    (∀ program, score.count.toNat < 2 ^ 60 → host.grants (8 * score.count.toNat) = true →
      (∀ index < score.count.toNat, score.sampleAt budget program index ≠ .error .unfinished) →
        score.Unhindered budget host program) ∧
    ∀ line, (PerformanceError.badEntry ⟨.undefinedEntry score.name, line⟩).message =
        "no definition named '" ++ score.name ++ "'" ∧
      (PerformanceError.badEntry ⟨.unplayableEntry score.name, line⟩).message =
        "'" ++ score.name ++ "' must have the form \\frequency. \\time. body" := by
  refine ⟨fun result => ⟨?_, Outcome.perform_eq⟩, ?_, fun _ => unhindered_of_finished,
    fun _ => ⟨rfl, rfl⟩⟩
  · rintro rfl
    exact perform_has_outcome score budget host
  · intro workers others unhindered also
    exact ((perform_has_outcome score budget host).workers workers unhindered also).perform_eq

/-- Four samples by two workers, which a single worker gives as well. -/
theorem perform_outcome_two_workers :
    let score : Score := ⟨"main = \\f.\\t. t", "main", 440, 1, 4, 2⟩
    let alone : Score := { score with workers := 1 }
    let host : Host := ⟨4, fun _ => true⟩
    score.workersOn host = 2 ∧ (score.perform 3 host).value = .ok [0, 0.25, 0.5, 0.75] ∧
      (alone.perform 3 host).value = (score.perform 3 host).value := by
  intro score alone host
  let wave : Definition := ⟨"main", .lambda "f" (.lambda "t" (.identifier "t" 1) 1) 1, 1⟩
  let program := Program.ofStatements [.definition wave]
  have lexed : tokenize "main = \\f.\\t. t" = .ok [⟨.identifier "main", ⟨1, 1⟩⟩,
      ⟨.mark .assign, ⟨1, 6⟩⟩, ⟨.mark .backslash, ⟨1, 8⟩⟩, ⟨.identifier "f", ⟨1, 9⟩⟩,
      ⟨.mark .dot, ⟨1, 10⟩⟩, ⟨.mark .backslash, ⟨1, 11⟩⟩, ⟨.identifier "t", ⟨1, 12⟩⟩,
      ⟨.mark .dot, ⟨1, 13⟩⟩, ⟨.identifier "t", ⟨1, 15⟩⟩] := rfl
  have parsed : Program.ofSource score.source = .ok program := by
    simp only [score, Program.ofSource, lexed]
    rfl
  have loads : score.Loads program := ⟨parsed, by simp [Program.Distinct, program,
    Program.definitions, Program.ofStatements, Statement.asDefinition]⟩
  have drivable : program.Drivable score.name :=
    ⟨wave, rfl, "f", "t", .identifier "t" 1, 1, 1, rfl, by simp⟩
  have four : score.count.toNat = 4 := by decide +kernel
  have times : (List.range 4).map (fun index => (UInt64.ofNat index).toFloat / UInt32.toFloat 4) =
      [0, 0.25, 0.5, 0.75] := by decide +kernel
  have drives (index : Nat) : score.sampleAt 3 program index =
      .ok ((UInt64.ofNat index).toFloat / UInt32.toFloat 4) := rfl
  obtain ⟨outcome, workers, free, -⟩ := perform_outcome score 3 host
  have unhindered : score.Unhindered 3 host program :=
    free program (by omega) rfl fun index _ => by simp [drives]
  have unhinderedAlone : alone.Unhindered 3 host program := .inl (by decide +kernel)
  have only : ∀ other, score.Loads other → other = program := fun other loaded =>
    Except.ok.inj (loaded.1.symm.trans parsed)
  refine ⟨by decide +kernel, ?_, workers 1 host ?_ ?_⟩
  · refine (outcome _).mpr (.rendered loads drivable unhindered four.symm ?_)
    intro index value stored
    rw [← times, List.getElem?_map] at stored
    obtain ⟨same, listed, rfl⟩ := Option.map_eq_some_iff.mp stored
    have found : same = index := by
      obtain ⟨_, place⟩ := List.getElem?_eq_some_iff.mp listed
      simpa using place.symm
    rw [drives, found]
  · intro other loaded
    rwa [only other loaded]
  · intro other loaded
    rwa [only other loaded]

/-- The text can be loaded, its entry is accepted, no sum exceeds the words, and the first sample
fails. The memory for `2 ^ 62` samples is more than can be asked for, and two workers crash on
it before the failure is told. -/
theorem perform_crashes_before_failure :
    let score : Score := ⟨"main = \\f.\\t. x", "main", 440, 4611686018427387904, 1, 2⟩
    let host : Host := ⟨2, fun _ => true⟩
    score.count.toNat = 2 ^ 62 ∧
      ChunksFit score.count (ceilingQuotient score.count (score.workersOn host)) ∧
      (∃ program, score.Loads program ∧ program.Drivable score.name ∧
        score.sampleAt 3 program 0 = .error (.fault (.unknownIdentifier "x" 1))) ∧
      (score.perform 3 host).value = .error (.notRendered (.crashed .capacityOverflow)) := by
  intro score host
  let wave : Definition := ⟨"main", .lambda "f" (.lambda "t" (.identifier "x" 1) 1) 1, 1⟩
  let program := Program.ofStatements [.definition wave]
  have lexed : tokenize "main = \\f.\\t. x" = .ok [⟨.identifier "main", ⟨1, 1⟩⟩,
      ⟨.mark .assign, ⟨1, 6⟩⟩, ⟨.mark .backslash, ⟨1, 8⟩⟩, ⟨.identifier "f", ⟨1, 9⟩⟩,
      ⟨.mark .dot, ⟨1, 10⟩⟩, ⟨.mark .backslash, ⟨1, 11⟩⟩, ⟨.identifier "t", ⟨1, 12⟩⟩,
      ⟨.mark .dot, ⟨1, 13⟩⟩, ⟨.identifier "x", ⟨1, 15⟩⟩] := rfl
  have parsed : Program.ofSource score.source = .ok program := by
    simp only [score, Program.ofSource, lexed]
    rfl
  have loads : score.Loads program := ⟨parsed, by simp [Program.Distinct, program,
    Program.definitions, Program.ofStatements, Statement.asDefinition]⟩
  have drivable : program.Drivable score.name :=
    ⟨wave, rfl, "f", "t", .identifier "x" 1, 1, 1, rfl, by simp⟩
  have count : score.count = UInt64.ofNat (2 ^ 62) := by decide +kernel
  have several : score.workersOn host ≠ 1 := by decide +kernel
  have large : score.count.toNat = 2 ^ 62 := by
    rw [count]
    rfl
  have fails (index : Nat) :
      score.sampleAt 3 program index = .error (.fault (.unknownIdentifier "x" 1)) := rfl
  have ends : ¬ Stalls (score.answers 3 program) (score.chunkOn host) :=
    not_stalls (by simp [answers, fails]) _
  have fits := chunksFit_of_several several (by omega)
  refine ⟨large, fits, ⟨program, loads, drivable, fails 0⟩, ?_⟩
  exact Outcome.perform_eq (.crashed loads drivable several ends
    (.capacityOverflow fits (by rw [large]; decide)))

end Score

end Timbre
