import Timbre.Proofs.Chunks
import Timbre.Proofs.Collecting
import Timbre.Proofs.Reuse

/-!
# Rendering in chunks is rendering in order

The samples of a definition are what new machines answer, one for each point of
frequency and time. Rendering gives all of these answers in order when each of
them is a number, and otherwise the failure that comes first.

A machine that is used for one point after another answers as new ones do. Chunks
are joined in order, and the failure of the first chunk that fails is the first
failure of all. So neither the number of workers nor the length of the chunks can be
told from a result that is read from the chunks.

Several workers may also end otherwise. All of them are waited for, so that one which
never stops keeps the others' failures from being told. And they may crash: on the sum
that bounds the last chunk, or on the memory for all samples. What they have found is
then lost, be it numbers or a failure.
-/

namespace Timbre

/-- The answers of new machines at points of frequency and time, in order. -/
def Voice.answers (voice : Voice) (points : List (Float × Float)) :
    List (Except Failure Float) :=
  points.map fun point => voice.program.call voice.budget voice.name point.1 point.2

/-- The points at which the first `count` samples are taken: each index over the rate. -/
def samplePoints (frequency : Float) (rate : UInt32) (count : Nat) : List (Float × Float) :=
  (List.range count).map fun index =>
    (frequency, (UInt64.ofNat index).toFloat / rate.toFloat)

/-- A rendering succeeds exactly when all answers are numbers, and then holds
these numbers in order; otherwise it is the first failure among the answers. -/
structure Renders (answers : List (Except Failure Float))
    (rendering : Except Failure (List Float)) : Prop where
  succeeds : (∃ samples, rendering = .ok samples) ↔
    ∀ index < answers.length, ∃ value : Float, answers[index]? = some (Except.ok value)
  samples : ∀ samples, rendering = .ok samples → samples.length = answers.length ∧
    ∀ (index : Nat) (value : Float),
      samples[index]? = some value → answers[index]? = some (Except.ok value)
  fails : ∀ reason, rendering = .error reason → ∃ index : Nat,
    answers[index]? = some (Except.error reason) ∧
      ∀ earlier < index, ∃ value : Float, answers[earlier]? = some (Except.ok value)

/-- In chunks of a length, the work on one that is started never ends: an answer in it never
comes, and those before it in the chunk are numbers. -/
def Stalls (answers : List (Except Failure Float)) (chunk : Nat) : Prop :=
  ∃ number index, number * chunk + chunk < 2 ^ 64 ∧ number * chunk ≤ index ∧
    index < number * chunk + chunk ∧ answers[index]? = some (.error .unfinished) ∧
      ∀ earlier, number * chunk ≤ earlier → earlier < index →
        ∃ value : Float, answers[earlier]? = some (.ok value)

/-- How several workers crash after they have stopped, for a number of samples in chunks of a
length. -/
inductive Crashes (host : Host) (count chunk : Nat) : Crash → Prop where
  | sumOverflow {number : Nat} (inside : number * chunk < count)
      (overflow : 2 ^ 64 ≤ number * chunk + chunk) : Crashes host count chunk .sumOverflow
  | capacityOverflow
      (fits : ∀ number, number * chunk < count → number * chunk + chunk < 2 ^ 64)
      (large : 2 ^ 60 ≤ count) : Crashes host count chunk .capacityOverflow
  | outOfMemory
      (fits : ∀ number, number * chunk < count → number * chunk + chunk < 2 ^ 64)
      (small : count < 2 ^ 60) (refused : host.grants (8 * count) = false) :
      Crashes host count chunk (.outOfMemory (8 * count))

/-- What several workers make of answers, in chunks of a length. -/
inductive RendersTogether (host : Host) (answers : List (Except Failure Float)) (chunk : Nat) :
    Except RenderError (List Float) → Prop where
  | stalled (stalls : Stalls answers chunk) :
      RendersTogether host answers chunk (.error (.failed .unfinished))
  | crashed {crash : Crash} (ends : ¬ Stalls answers chunk)
      (crashes : Crashes host answers.length chunk crash) :
      RendersTogether host answers chunk (.error (.crashed crash))
  | joined {rendering : Except Failure (List Float)} (ends : ¬ Stalls answers chunk)
      (safe : ∀ crash, ¬ Crashes host answers.length chunk crash)
      (renders : Renders answers rendering) :
      RendersTogether host answers chunk (rendering.mapError .failed)

/-! ### Collecting answers -/

/-- Collecting answers is rendering them, and there is no other way to. -/
theorem renders_iff {answers : List (Except Failure Float)}
    {rendering : Except Failure (List Float)} :
    Renders answers rendering ↔ rendering = answers.mapM id := by
  constructor
  · intro renders
    cases rendering with
    | error reason => exact (collect_eq_error.mpr (renders.fails reason rfl)).symm
    | ok samples =>
      obtain ⟨length, each⟩ := renders.samples samples rfl
      refine (collect_eq_ok.mpr (List.ext_getElem (by simp [length]) ?_)).symm
      intro index inside bound
      have stored : index < samples.length := by simpa using bound
      have number := each index samples[index] (List.getElem?_eq_getElem stored)
      rw [List.getElem?_eq_getElem inside] at number
      simpa using Option.some.inj number
  · rintro rfl
    refine ⟨⟨?_, ?_⟩, ?_, fun _ failed => collect_eq_error.mp failed⟩
    · rintro ⟨samples, collected⟩ index inside
      rw [collect_eq_ok.mp collected] at inside ⊢
      have bound : index < samples.length := by simpa using inside
      exact ⟨samples[index], by simp [bound]⟩
    · intro all
      cases outcome : answers.mapM id with
      | ok samples => exact ⟨samples, rfl⟩
      | error reason =>
        obtain ⟨index, stopped, -⟩ := collect_eq_error.mp outcome
        obtain ⟨inside, -⟩ := List.getElem?_eq_some_iff.mp stopped
        obtain ⟨value, number⟩ := all index inside
        rw [stopped] at number
        cases number
    · intro samples collected
      rw [collect_eq_ok.mp collected]
      refine ⟨by simp, fun index value stored => ?_⟩
      simp [stored]

/-- Collecting parts and joining them is collecting the whole. A failure in one
part hides all later parts. -/
theorem collect_parts (parts : List (List (Except Failure Float))) :
    ((parts.map (List.mapM id)).mapM id).map List.flatten = parts.flatten.mapM id := by
  induction parts with
  | nil => rfl
  | cons part rest inductionHypothesis =>
    rw [List.flatten_cons, List.mapM_append, ← inductionHypothesis, List.map_cons,
      List.mapM_cons]
    cases part.mapM id with
    | error reason => rfl
    | ok samples =>
      cases (rest.map (List.mapM id)).mapM id <;> rfl

/-! ### One machine for many points -/

/-- Work that answers alike wherever an invariant holds, and keeps the invariant,
collects these answers when it is done for one item after another. -/
theorem Eval.run_mapM {α : Type} {work : α → Eval Float} {answer : α → Except Failure Float}
    {invariant : Frames → Prop}
    (step : ∀ item (frames : Frames), invariant frames →
      ((work item).run frames : Except Failure Float × Frames).1 = answer item ∧
        invariant ((work item).run frames : Except Failure Float × Frames).2)
    (items : List α) {frames : Frames} (holds : invariant frames) :
    ((items.mapM work).run frames : Except Failure (List Float) × Frames).1 =
      (items.map answer).mapM id := by
  induction items generalizing frames with
  | nil => rfl
  | cons item rest inductionHypothesis =>
    obtain ⟨same, kept⟩ := step item frames holds
    rw [List.mapM_cons, run_bind, List.map_cons, ← same]
    cases outcome : ((work item).run frames : Except Failure Float × Frames) with
    | mk result after =>
      rw [outcome] at kept
      cases result with
      | error reason => exact (collect_error reason _).symm
      | ok value =>
        simp only
        rw [collect_ok, run_bind, ← inductionHypothesis kept]
        cases ((rest.mapM work).run after : Except Failure (List Float) × Frames) with
        | mk others last => cases others <;> rfl

namespace Voice

/-- A machine that is used for one point after another collects the answers of new
machines: it starts each call with the first frame in place, and leaves it in
place. -/
theorem samplesAt_collect (voice : Voice) (points : List (Float × Float)) :
    voice.samplesAt points = (voice.answers points).mapM id := by
  apply Eval.run_mapM (fun (frequency, time) frames rooted => ?_) points Frames.root_rooted
  constructor
  · exact congrArg Prod.fst (run_evaluateWaveform_rooted rooted voice.program voice.budget
      voice.name frequency time)
  · exact rooted_evaluateWaveform rooted voice.program voice.budget voice.name frequency time

/-! ### Chunks that are joined -/

/-- The work on a chunk never ends when it is collected without end. -/
theorem stalls_eq_true {result : Except Failure (List Float)} :
    stalls result = true ↔ result = .error .unfinished := by
  unfold stalls
  split <;> simp_all

/-- Waiting for parts that were computed side by side: one that never ends, or else a crash, or
else the parts put together and collected. -/
theorem joinChunks_parts {α : Type} (items : List α) (part : α → List (Except Failure Float))
    (crash : Option Crash) :
    joinChunks (items.map fun item _ => (part item).mapM id) crash =
      if items.any (fun item => stalls ((part item).mapM id)) then .error (.failed .unfinished)
      else
        match crash with
        | some reason => .error (.crashed reason)
        | none => ((items.flatMap part).mapM id).mapError .failed := by
  have computed : ((items.map fun item (_ : Unit) => (part item).mapM id).map
      fun chunk => Task.spawn chunk).map Task.get = (items.map part).map (List.mapM id) := by
    simp only [List.map_map]
    rfl
  simp only [joinChunks, computed, collect_parts, List.any_map, List.flatMap_def]
  rfl

end Voice

/-- The answers of a chunk. -/
def chunkOf (answers : List (Except Failure Float)) (chunk number : Nat) :
    List (Except Failure Float) :=
  (answers.drop (number * chunk)).take chunk

/-- The work on a chunk never ends when one of its answers never comes and those before are
numbers. -/
theorem chunkOf_unfinished {answers : List (Except Failure Float)} {chunk number : Nat} :
    (chunkOf answers chunk number).mapM id = .error .unfinished ↔
      ∃ index, number * chunk ≤ index ∧ index < number * chunk + chunk ∧
        answers[index]? = some (.error .unfinished) ∧
          ∀ earlier, number * chunk ≤ earlier → earlier < index →
            ∃ value : Float, answers[earlier]? = some (.ok value) := by
  have place (index : Nat) (inside : index < chunk) :
      (chunkOf answers chunk number)[index]? = answers[number * chunk + index]? := by
    rw [chunkOf, List.getElem?_take, if_pos inside, List.getElem?_drop]
  rw [collect_eq_error]
  constructor
  · rintro ⟨index, stopped, before⟩
    have inside : index < chunk := by
      obtain ⟨bound, -⟩ := List.getElem?_eq_some_iff.mp stopped
      exact Nat.lt_of_lt_of_le bound (List.length_take_le ..)
    rw [place index inside] at stopped
    refine ⟨number * chunk + index, by omega, by omega, stopped, fun earlier above below => ?_⟩
    obtain ⟨value, counted⟩ := before (earlier - number * chunk) (by omega)
    rw [place _ (by omega), Nat.add_sub_of_le above] at counted
    exact ⟨value, counted⟩
  · rintro ⟨index, above, below, stopped, before⟩
    refine ⟨index - number * chunk, ?_, fun earlier less => ?_⟩
    · rw [place _ (by omega), Nat.add_sub_of_le above]
      exact stopped
    · rw [place _ (by omega)]
      exact before _ (by omega) (by omega)

/-- What becomes of chunks that were started and joined: those with numbers below `parts` are the
ones whose sums are words, and without a crash they reach all answers. -/
theorem together_of_started {host : Host} {answers : List (Except Failure Float)}
    {chunk parts : Nat} {crash : Option Crash}
    (started : ∀ number, number < parts ↔
      number * chunk < answers.length ∧ number * chunk + chunk < 2 ^ 64)
    (crashes : ∀ reason, crash = some reason ↔ Crashes host answers.length chunk reason)
    (reached : crash = none → answers.length ≤ parts * chunk) :
    RendersTogether host answers chunk (Voice.joinChunks
      ((List.range parts).map fun number _ => (chunkOf answers chunk number).mapM id) crash) := by
  have stalled : (List.range parts).any
      (fun number => Voice.stalls ((chunkOf answers chunk number).mapM id)) = true ↔
        Stalls answers chunk := by
    simp only [List.any_eq_true, List.mem_range, Voice.stalls_eq_true, chunkOf_unfinished]
    constructor
    · rintro ⟨number, listed, index, above, below, stopped, before⟩
      exact ⟨number, index, ((started number).mp listed).2, above, below, stopped, before⟩
    · rintro ⟨number, index, fits, above, below, stopped, before⟩
      obtain ⟨inside, -⟩ := List.getElem?_eq_some_iff.mp stopped
      exact ⟨number, (started number).mpr ⟨by omega, fits⟩, index, above, below, stopped, before⟩
  rw [Voice.joinChunks_parts]
  by_cases stalls : Stalls answers chunk
  · rw [if_pos (stalled.mpr stalls)]
    exact .stalled stalls
  · rw [if_neg (mt stalled.mp stalls)]
    cases crash with
    | some reason => exact .crashed stalls ((crashes reason).mp rfl)
    | none =>
      have whole : (List.range parts).flatMap (chunkOf answers chunk) = answers :=
        (stretches_join answers chunk parts).trans (List.take_of_length_le (reached rfl))
      rw [whole]
      refine .joined stalls (fun reason crashed => ?_) (renders_iff.mpr rfl)
      cases (crashes reason).mpr crashed

/-! ### Crashes -/

/-- Memory is not reserved for `2 ^ 60` samples or more, nor where the host refuses. -/
theorem Host.reserve_eq_some {host : Host} {count : UInt64} {crash : Crash} :
    host.reserve count = some crash ↔
      2 ^ 60 ≤ count.toNat ∧ crash = .capacityOverflow ∨
        count.toNat < 2 ^ 60 ∧ host.grants (8 * count.toNat) = false ∧
          crash = .outOfMemory (8 * count.toNat) := by
  simp only [reserve]
  have half : UInt64.size / 2 = 2 ^ 63 := rfl
  rw [half]
  by_cases large : 2 ^ 63 ≤ 8 * count.toNat
  · rw [if_pos large]
    constructor
    · intro same
      exact .inl ⟨by omega, (Option.some.inj same).symm⟩
    · rintro (⟨_, rfl⟩ | ⟨few, _⟩)
      · rfl
      · omega
  · rw [if_neg large]
    constructor
    · intro same
      split at same
      · cases same
      · rename_i refused
        exact .inr ⟨by omega, by simpa using refused, (Option.some.inj same).symm⟩
    · rintro (⟨many, _⟩ | ⟨_, refused, rfl⟩)
      · omega
      · simp [refused]

/-- Several workers crash on the last sum that bounds a chunk, or else on the memory. -/
theorem crash_eq_some {host : Host} {count chunk : UInt64} (positive : 0 < chunk.toNat)
    {crash : Crash} :
    (divide count chunk).crash.or (host.reserve count) = some crash ↔
      Crashes host count.toNat chunk.toNat crash := by
  by_cases fits : ChunksFit count chunk
  · rw [divide_fit positive fits, Option.none_or, Host.reserve_eq_some]
    constructor
    · rintro (⟨large, rfl⟩ | ⟨small, refused, rfl⟩)
      · exact .capacityOverflow fits large
      · exact .outOfMemory fits small refused
    · rintro (⟨inside, overflow⟩ | ⟨_, large⟩ | ⟨_, small, refused⟩)
      · have word := fits _ inside
        omega
      · exact .inl ⟨large, rfl⟩
      · exact .inr ⟨small, refused, rfl⟩
  · obtain ⟨last, -, inside, overflow, divided⟩ := divide_overflow positive fits
    rw [divided, Option.some_or, Option.some.injEq]
    constructor
    · rintro rfl
      exact .sumOverflow inside overflow
    · rintro (⟨_, _⟩ | ⟨all, _⟩ | ⟨all, _⟩)
      · rfl
      · exact absurd all fits
      · exact absurd all fits

/-- No chunk stalls where all answers come. -/
theorem not_stalls {answers : List (Except Failure Float)}
    (finished : .error .unfinished ∉ answers) (chunk : Nat) : ¬ Stalls answers chunk := by
  rintro ⟨_, index, -, -, -, stopped, -⟩
  exact finished (List.mem_of_getElem? stopped)

/-- Nothing crashes where all sums are words and the memory is granted. -/
theorem not_crashes {host : Host} {count chunk : Nat}
    (fits : ∀ number, number * chunk < count → number * chunk + chunk < 2 ^ 64)
    (small : count < 2 ^ 60) (granted : host.grants (8 * count) = true) (crash : Crash) :
    ¬ Crashes host count chunk crash := by
  rintro (⟨inside, overflow⟩ | ⟨-, large⟩ | ⟨-, -, refused⟩)
  · have word := fits _ inside
    omega
  · omega
  · rw [granted] at refused
    cases refused

/-- There is at most one way to crash. -/
theorem Crashes.unique {host : Host} {count chunk : Nat} {first second : Crash}
    (crashes : Crashes host count chunk first) (also : Crashes host count chunk second) :
    first = second := by
  cases crashes with
  | sumOverflow inside overflow =>
    cases also with
    | sumOverflow => rfl
    | capacityOverflow fits | outOfMemory fits =>
      have word := fits _ inside
      omega
  | capacityOverflow fits large =>
    cases also with
    | sumOverflow inside overflow =>
      have word := fits _ inside
      omega
    | capacityOverflow => rfl
    | outOfMemory _ small => omega
  | outOfMemory fits small =>
    cases also with
    | sumOverflow inside overflow =>
      have word := fits _ inside
      omega
    | capacityOverflow _ large => omega
    | outOfMemory => rfl

namespace RendersTogether

variable {host : Host} {answers : List (Except Failure Float)} {chunk : Nat}
  {result : Except RenderError (List Float)} (together : RendersTogether host answers chunk result)

include together

/-- A chunk that stalls keeps everything else from being told. -/
theorem of_stalls (stalls : Stalls answers chunk) : result = .error (.failed .unfinished) := by
  cases together with
  | stalled => rfl
  | crashed ends | joined ends => exact absurd stalls ends

/-- Where all chunks end, a crash is the outcome. -/
theorem of_crashes (ends : ¬ Stalls answers chunk) {crash : Crash}
    (crashes : Crashes host answers.length chunk crash) : result = .error (.crashed crash) := by
  cases together with
  | stalled stalls => exact absurd stalls ends
  | crashed _ other => rw [other.unique crashes]
  | joined _ safe => exact absurd crashes (safe crash)

/-- Where all chunks end and nothing crashes, the answers are collected. -/
theorem of_safe (ends : ¬ Stalls answers chunk)
    (safe : ∀ crash, ¬ Crashes host answers.length chunk crash) :
    result = (answers.mapM id).mapError .failed := by
  cases together with
  | stalled stalls => exact absurd stalls ends
  | crashed _ crashes => exact absurd crashes (safe _)
  | joined _ _ renders => rw [renders_iff.mp renders]

end RendersTogether

namespace Voice

/-! ### Samples by index -/

/-- The time of a sample is its index over the rate. -/
theorem sampleTime_eq (rate : UInt32) (index : Nat) :
    sampleTime rate index = (UInt64.ofNat index).toFloat / rate.toFloat := rfl

/-- One index after another is what the list of all indices gives. -/
theorem samplesFrom_eq (voice : Voice) (frequency : Float) (rate : UInt32) (left index : Nat)
    (done : List Float) :
    voice.samplesFrom frequency rate left index done = (do
      let samples ← (List.range' index left).mapM fun index =>
        evaluateWaveform voice.program voice.budget voice.name frequency
          ((UInt64.ofNat index).toFloat / rate.toFloat)
      return done.reverse ++ samples) := by
  induction left generalizing index done with
  | zero => simp [samplesFrom]
  | succ left inductionHypothesis =>
    simp [samplesFrom, sampleTime_eq, inductionHypothesis, List.range'_succ, List.mapM_cons]

/-- The samples between two indices are those at the times of these indices. -/
theorem samplesBetween_eq (voice : Voice) (frequency : Float) (rate : UInt32)
    (first stop : UInt64) :
    voice.samplesBetween frequency rate first stop =
      voice.samplesAt ((List.range' first.toNat (stop.toNat - first.toNat)).map fun index =>
        (frequency, (UInt64.ofNat index).toFloat / rate.toFloat)) := by
  simp only [samplesBetween, samplesAt, samplesFrom_eq, List.reverse_nil, List.nil_append,
    bind_pure, List.mapM_map]
  rfl

/-- There is a point for each sample, and an answer for each point. -/
@[simp] theorem length_answers_samplePoints (voice : Voice) (frequency : Float) (rate : UInt32)
    (count : Nat) : (voice.answers (samplePoints frequency rate count)).length = count := by
  simp [answers, samplePoints]

/-- Rendering in order collects the answers of new machines. -/
theorem render_collect (voice : Voice) (frequency : Float) (rate : UInt32) (count : UInt64) :
    voice.render frequency rate count =
      (voice.answers (samplePoints frequency rate count.toNat)).mapM id := by
  rw [← samplesAt_collect]
  simp [render, samplesBetween_eq, samplePoints, List.range_eq_range']

/-- A worker collects the answers of its chunk. -/
theorem samplesBetween_chunk (voice : Voice) (frequency : Float) (rate : UInt32)
    {count chunk : UInt64} {number : Nat} (positive : 0 < chunk.toNat)
    (fits : number * chunk.toNat + chunk.toNat < 2 ^ 64) :
    voice.samplesBetween frequency rate (chunkBounds count chunk number).1
        (chunkBounds count chunk number).2 =
      (chunkOf (voice.answers (samplePoints frequency rate count.toNat)) chunk.toNat
        number).mapM id := by
  obtain ⟨first, stop⟩ := chunkBounds_toNat count positive fits
  have indices : List.range' (number * chunk.toNat)
      (min (number * chunk.toNat + chunk.toNat) count.toNat - number * chunk.toNat) =
        ((List.range count.toNat).drop (number * chunk.toNat)).take chunk.toNat := by
    apply List.ext_getElem (by simp; omega)
    intro index _ _
    simp
  rw [samplesBetween_eq, samplesAt_collect, first, stop, indices]
  simp only [chunkOf, answers, samplePoints, List.map_take, List.map_drop]

/-! ### The three ways to render -/

/-- Several workers join the answers of new machines at the times of the samples. -/
theorem renderParallel_together (voice : Voice) (host : Host) (frequency : Float) (rate : UInt32)
    {count requested : UInt64} (several : workerCount host.workers requested count ≠ 1) :
    RendersTogether host (voice.answers (samplePoints frequency rate count.toNat))
      (ceilingQuotient count (workerCount host.workers requested count)).toNat
      (voice.renderParallel host frequency rate count requested) := by
  have positive := chunk_positive host.workers requested count several
  simp only [renderParallel, if_neg several]
  generalize ceilingQuotient count (workerCount host.workers requested count) = chunk at positive ⊢
  have length := voice.length_answers_samplePoints frequency rate count.toNat
  obtain ⟨parts, divided, started, reached⟩ := divide_started count positive
  have computed : ((divide count chunk).started.map fun bounds (_ : Unit) =>
      voice.samplesBetween frequency rate bounds.1 bounds.2) =
        (List.range parts).map fun number _ =>
          (chunkOf (voice.answers (samplePoints frequency rate count.toNat)) chunk.toNat
            number).mapM id := by
    rw [divided, List.map_map]
    apply List.map_congr_left
    intro number listed
    have fits := ((started number).mp (List.mem_range.mp listed)).2
    funext
    exact voice.samplesBetween_chunk frequency rate positive fits
  rw [computed]
  apply together_of_started
  · rwa [length]
  · rw [length]
    exact fun _ => crash_eq_some positive
  · rw [length]
    exact fun none => reached (Option.or_eq_none_iff.mp none).1

/-- Several workers join the answers of new machines at points, of which memory can hold the
results. -/
theorem renderPoints_together (voice : Voice) (host : Host) {points : List (Float × Float)}
    {requested : UInt64} (short : points.length < 2 ^ 60)
    (several : workerCount host.workers requested (UInt64.ofNat points.length) ≠ 1) :
    RendersTogether host (voice.answers points)
      (ceilingQuotient (UInt64.ofNat points.length)
        (workerCount host.workers requested (UInt64.ofNat points.length))).toNat
      (voice.renderPoints host points requested) := by
  have counted : (UInt64.ofNat points.length).toNat = points.length :=
    UInt64.toNat_ofNat_of_lt' (Nat.lt_trans short (by decide))
  have positive := chunk_positive host.workers requested _ several
  have fits := chunksFit_of_several several (by omega)
  have length : (voice.answers points).length = (UInt64.ofNat points.length).toNat := by
    rw [counted, answers, List.length_map]
  simp only [renderPoints, if_neg several]
  generalize UInt64.ofNat points.length = jobs at *
  generalize ceilingQuotient jobs (workerCount host.workers requested jobs) = chunk at *
  have computed : ((chunkStarts jobs chunk).map fun first (_ : Unit) =>
      voice.samplesAt ((points.drop first.toNat).take chunk.toNat)) =
        (List.range (ceilingQuotient jobs chunk).toNat).map fun number _ =>
          (chunkOf (voice.answers points) chunk.toNat number).mapM id := by
    rw [chunkStarts, List.map_map]
    apply List.map_congr_left
    intro number listed
    have inside := (lt_ceilingQuotient_iff positive).mp (List.mem_range.mp listed)
    funext
    simp only [Function.comp_apply, samplesAt_collect, chunkOf, answers, List.map_take,
      List.map_drop]
    rw [multiple_toNat positive (by omega)]
  rw [computed]
  apply together_of_started
  · intro number
    rw [length, lt_ceilingQuotient_iff positive]
    exact ⟨fun inside => ⟨inside, fits number inside⟩, And.left⟩
  · intro reason
    rw [length, ← crash_eq_some positive, divide_fit positive fits, Option.none_or]
  · intro _
    rw [length]
    exact (ceilingQuotient_bounds jobs chunk positive).1

/-- A single worker renders in order. -/
theorem renderParallel_alone (voice : Voice) (host : Host) (frequency : Float) (rate : UInt32)
    {count requested : UInt64} (alone : workerCount host.workers requested count = 1) :
    voice.renderParallel host frequency rate count requested =
      (voice.render frequency rate count).mapError .failed := by
  simp only [renderParallel]
  rw [if_pos alone]

/-- A single worker takes the points in order. -/
theorem renderPoints_alone (voice : Voice) (host : Host) {points : List (Float × Float)}
    {requested : UInt64}
    (alone : workerCount host.workers requested (UInt64.ofNat points.length) = 1) :
    voice.renderPoints host points requested = (voice.samplesAt points).mapError .failed := by
  simp only [renderPoints]
  rw [if_pos alone]

/-- Any number of workers render fewer than `2 ^ 60` samples for which there is memory in order, if
no chunk stalls. -/
theorem renderParallel_eq_render (voice : Voice) (host : Host) (frequency : Float) (rate : UInt32)
    {count requested : UInt64} (small : count.toNat < 2 ^ 60)
    (granted : host.grants (8 * count.toNat) = true)
    (ends : ¬ Stalls (voice.answers (samplePoints frequency rate count.toNat))
      (ceilingQuotient count (workerCount host.workers requested count)).toNat) :
    voice.renderParallel host frequency rate count requested =
      (voice.render frequency rate count).mapError .failed := by
  by_cases several : workerCount host.workers requested count = 1
  · exact voice.renderParallel_alone host frequency rate several
  · have fits := chunksFit_of_several several (by omega)
    rw [render_collect]
    refine (voice.renderParallel_together host frequency rate several).of_safe ends ?_
    rw [length_answers_samplePoints]
    exact not_crashes fits small granted

/-- So do they with points. -/
theorem renderPoints_eq_samplesAt (voice : Voice) (host : Host) {points : List (Float × Float)}
    {requested : UInt64} (short : points.length < 2 ^ 60)
    (granted : host.grants (8 * points.length) = true)
    (ends : ¬ Stalls (voice.answers points) (ceilingQuotient (UInt64.ofNat points.length)
      (workerCount host.workers requested (UInt64.ofNat points.length))).toNat) :
    voice.renderPoints host points requested = (voice.samplesAt points).mapError .failed := by
  by_cases several : workerCount host.workers requested (UInt64.ofNat points.length) = 1
  · exact voice.renderPoints_alone host several
  · have counted : (UInt64.ofNat points.length).toNat = points.length :=
      UInt64.toNat_ofNat_of_lt' (Nat.lt_trans short (by decide))
    have fits := chunksFit_of_several several (by omega)
    rw [samplesAt_collect]
    refine (voice.renderPoints_together host short several).of_safe ends ?_
    rw [Voice.answers, List.length_map]
    refine not_crashes (fun number inside => fits number ?_) short granted
    rwa [counted]

/-- Rendering in order gives the answers of new machines, or the first failure among them. A
single worker does the same. Several workers, whose chunks hold at least one job each, do so
unless one of them never stops or they crash; what they do then is told by `RendersTogether`. So the
number of workers cannot be told from the result of fewer than `2 ^ 60` samples for which there
is memory, provided that no chunk stalls. The same holds of points. -/
theorem rendering_in_order (voice : Voice) (host : Host) (requested : UInt64)
    (frequency : Float) (rate : UInt32) (count : UInt64) (points : List (Float × Float)) :
    let answers := voice.answers (samplePoints frequency rate count.toNat)
    let jobs := UInt64.ofNat points.length
    let workers jobs := workerCount host.workers requested jobs
    let chunk jobs := (ceilingQuotient jobs (workers jobs)).toNat
    (∀ jobs, workers jobs ≠ 1 → 0 < chunk jobs) ∧
    Renders answers (voice.render frequency rate count) ∧
    (workers count = 1 → voice.renderParallel host frequency rate count requested =
      (voice.render frequency rate count).mapError .failed) ∧
    (workers count ≠ 1 → RendersTogether host answers (chunk count)
      (voice.renderParallel host frequency rate count requested)) ∧
    (count.toNat < 2 ^ 60 → host.grants (8 * count.toNat) = true →
      ¬ Stalls answers (chunk count) →
        voice.renderParallel host frequency rate count requested =
          (voice.render frequency rate count).mapError .failed) ∧
    (points.length < 2 ^ 60 →
      Renders (voice.answers points) (voice.samplesAt points) ∧
      (workers jobs = 1 → voice.renderPoints host points requested =
        (voice.samplesAt points).mapError .failed) ∧
      (workers jobs ≠ 1 → RendersTogether host (voice.answers points) (chunk jobs)
        (voice.renderPoints host points requested)) ∧
      (host.grants (8 * points.length) = true → ¬ Stalls (voice.answers points) (chunk jobs) →
        voice.renderPoints host points requested =
          (voice.samplesAt points).mapError .failed)) := by
  refine ⟨chunk_positive host.workers requested, renders_iff.mpr (voice.render_collect ..),
    voice.renderParallel_alone host frequency rate,
    voice.renderParallel_together host frequency rate,
    voice.renderParallel_eq_render host frequency rate, ?_⟩
  intro short
  exact ⟨renders_iff.mpr (voice.samplesAt_collect points), voice.renderPoints_alone host,
    voice.renderPoints_together host short, voice.renderPoints_eq_samplesAt host short⟩

/-- Five samples and two points by two workers out of four: no answer is missing, so no chunk
stalls, and what is rendered is what one worker renders. -/
theorem rendering_in_order_two_workers :
    let voice : Voice := ⟨.ofStatements [.definition ⟨"main", .lambda "f" (.lambda "t"
      (.identifier "t" 1) 1) 1, 1⟩], "main", 3⟩
    let host : Host := ⟨4, fun _ => true⟩
    workerCount host.workers 2 5 = 2 ∧
      voice.renderParallel host 440 4 5 2 = .ok [0, 0.25, 0.5, 0.75, 1] ∧
      voice.renderParallel host 440 4 5 2 = (voice.render 440 4 5).mapError .failed ∧
      voice.renderPoints host [(1, 0), (2, 1)] 2 = .ok [0, 1] := by
  intro voice host
  have five : (5 : UInt64).toNat = 5 := rfl
  have drives (frequency time : Float) :
      voice.program.call voice.budget voice.name frequency time = .ok time := rfl
  have times : (List.range 5).map (fun index => (UInt64.ofNat index).toFloat / UInt32.toFloat 4) =
      [0, 0.25, 0.5, 0.75, 1] := by decide +kernel
  have numbers : voice.answers (samplePoints 440 4 5) = [0, 0.25, 0.5, 0.75, 1].map .ok := by
    rw [← times]
    simp [Voice.answers, samplePoints, drives]
  have pointwise : voice.answers [(1, 0), (2, 1)] = [0, 1].map .ok := rfl
  obtain ⟨-, -, -, -, parallel, points⟩ :=
    voice.rendering_in_order host 2 440 4 5 [(1, 0), (2, 1)]
  have same := parallel (by decide) rfl (not_stalls (by simp [five, numbers]) _)
  have samePoints := (points (by decide)).2.2.2 rfl (not_stalls (by simp [pointwise]) _)
  refine ⟨by decide, ?_, same, ?_⟩
  · rw [same, render_collect, five, numbers]
    rfl
  · rw [samePoints, samplesAt_collect, pointwise]
    rfl

/-- The memory for `2 ^ 62` samples is more than can be asked for. Two workers, of whom each has
failed on its first sample, crash on it, where one worker tells the failure. -/
theorem reservation_hides_failure :
    let voice : Voice := ⟨.ofStatements [.definition ⟨"main", .lambda "f" (.lambda "t"
      (.identifier "x" 1) 1) 1, 1⟩], "main", 3⟩
    let host : Host := ⟨2, fun _ => true⟩
    let count : UInt64 := UInt64.ofNat (2 ^ 62)
    ChunksFit count (ceilingQuotient count (workerCount host.workers 2 count)) ∧
      voice.render 440 1 count = .error (.fault (.unknownIdentifier "x" 1)) ∧
      voice.renderParallel host 440 1 count 2 = .error (.crashed .capacityOverflow) := by
  exact ⟨chunksFit_of_several (by decide) (by decide), rfl, rfl⟩

end Voice

end Timbre
