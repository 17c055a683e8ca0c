import Timbre.Proofs.Rendering

/-!
# How many jobs can be divided

The bound past a chunk is a sum of words, and the sum for the last chunk exceeds the number
of jobs. Every other sum is the first job of the next chunk. So at most one sum is no word,
and it is none when the chunks together hold `2 ^ 64` jobs or more. The last chunk is then not
started, and the workers crash once the others have stopped.

Rounding up adds fewer jobs than there are workers, and fewer than a chunk has. One of the
two is at most `2 ^ 32`, and so the sums are words up to `2 ^ 64 - 2 ^ 32` jobs. For one job
more there is a number of workers for which the last one is not.
-/

namespace Timbre

/-- Bounds that follow one another from `first` to `stop`, with a job between each two. -/
inductive Stretches : UInt64 → UInt64 → List (UInt64 × UInt64) → Prop where
  | nil (place : UInt64) : Stretches place place []
  | cons {first middle stop : UInt64} {others : List (UInt64 × UInt64)} (filled : first < middle)
      (following : Stretches middle stop others) :
      Stretches first stop ((first, middle) :: others)

/-- The jobs between two bounds, the upper one excluded. -/
def jobsBetween (bounds : UInt64 × UInt64) : List Nat :=
  List.range' bounds.1.toNat (bounds.2.toNat - bounds.1.toNat)

namespace Stretches

variable {first middle stop : UInt64} {bounds : List (UInt64 × UInt64)}

/-- A stretch is added behind. -/
theorem concat (stretches : Stretches first middle bounds) (filled : middle < stop) :
    Stretches first stop (bounds ++ [(middle, stop)]) := by
  induction stretches with
  | nil place => exact .cons filled (.nil stop)
  | cons before following inductionHypothesis => exact .cons before (inductionHypothesis filled)

/-- Stretches go upwards. -/
theorem ordered (stretches : Stretches first stop bounds) : first.toNat ≤ stop.toNat := by
  induction stretches with
  | nil place => exact Nat.le_refl _
  | cons filled following inductionHypothesis =>
    have less := UInt64.lt_iff_toNat_lt.mp filled
    omega

/-- Put together in order, the stretches hold each job once. -/
theorem joined (stretches : Stretches first stop bounds) :
    bounds.flatMap jobsBetween = jobsBetween (first, stop) := by
  induction stretches with
  | nil place => simp [jobsBetween]
  | @cons first middle stop others filled following inductionHypothesis =>
    have less := UInt64.lt_iff_toNat_lt.mp filled
    have ordered := following.ordered
    have whole : stop.toNat - first.toNat =
        (middle.toNat - first.toNat) + (stop.toNat - middle.toNat) := by omega
    have next : middle.toNat = first.toNat + 1 * (middle.toNat - first.toNat) := by omega
    rw [List.flatMap_cons, inductionHypothesis]
    simp only [jobsBetween]
    rw [whole, ← List.range'_append, ← next]

end Stretches

/-! ### The bounds of chunks -/

section Bounds

variable {count chunk : UInt64}

/-- Where the sum that bounds a chunk is at most the number of jobs, it is the first job of the
next chunk. -/
theorem full_bound (positive : 0 < chunk.toNat) {number : Nat}
    (inside : (number + 1) * chunk.toNat ≤ count.toNat) :
    (chunkBounds count chunk number).2 = UInt64.ofNat (number + 1) * chunk := by
  have word : count.toNat < 2 ^ 64 := count.toNat_lt
  have next := multiple_toNat positive (Nat.lt_of_le_of_lt inside word)
  rw [Nat.add_mul, Nat.one_mul] at inside next
  apply UInt64.toNat_inj.mp
  rw [(chunkBounds_toNat count positive (by omega)).2, next]
  exact Nat.min_eq_left inside

/-- Chunks that are full follow one another. -/
theorem stretches_full (positive : 0 < chunk.toNat) (parts : Nat)
    (inside : parts * chunk.toNat ≤ count.toNat) :
    Stretches 0 (UInt64.ofNat parts * chunk)
      ((List.range parts).map (chunkBounds count chunk)) := by
  induction parts with
  | zero => simpa using Stretches.nil 0
  | succ parts inductionHypothesis =>
    have word : count.toNat < 2 ^ 64 := count.toNat_lt
    have next : (UInt64.ofNat (parts + 1) * chunk).toNat = (parts + 1) * chunk.toNat :=
      multiple_toNat positive (by omega)
    have stop : chunkBounds count chunk parts =
        (UInt64.ofNat parts * chunk, UInt64.ofNat (parts + 1) * chunk) :=
      Prod.ext rfl (full_bound positive inside)
    rw [Nat.add_mul, Nat.one_mul] at inside next
    have start : (UInt64.ofNat parts * chunk).toNat = parts * chunk.toNat :=
      multiple_toNat positive (by omega)
    have filled : UInt64.ofNat parts * chunk < UInt64.ofNat (parts + 1) * chunk := by
      rw [UInt64.lt_iff_toNat_lt, start, next]
      omega
    rw [List.range_succ, List.map_append, List.map_singleton, stop]
    exact (inductionHypothesis (by omega)).concat filled

/-- Where all sums are words, the chunks divide all jobs among them. The last one ends with the
jobs, and those before it are full. -/
theorem stretches_of_fit (positive : 0 < chunk.toNat) (jobs : 0 < count.toNat)
    (fits : ChunksFit count chunk) : Stretches 0 count (divide count chunk).started := by
  have some : 0 < (ceilingQuotient count chunk).toNat :=
    (lt_ceilingQuotient_iff positive).mpr (by omega)
  obtain ⟨last, final⟩ := Nat.exists_eq_succ_of_ne_zero (Nat.ne_of_gt some)
  have below : last * chunk.toNat < count.toNat :=
    (lt_ceilingQuotient_iff positive).mp (by omega)
  have reached := (ceilingQuotient_bounds count chunk positive).1
  rw [final, Nat.succ_mul] at reached
  obtain ⟨first, stop⟩ := chunkBounds_toNat count positive (fits last below)
  rw [Nat.min_eq_right reached] at stop
  have bounds : chunkBounds count chunk last = (UInt64.ofNat last * chunk, count) :=
    Prod.ext rfl (UInt64.toNat_inj.mp stop)
  rw [divide_fit positive fits, final, List.range_succ, List.map_append, List.map_singleton, bounds]
  refine (stretches_full positive last (Nat.le_of_lt below)).concat ?_
  rw [bounds] at first
  rwa [UInt64.lt_iff_toNat_lt, first]

/-- Otherwise the chunks that are started divide the jobs before the last chunk, whose sum is no
word. -/
theorem stretches_of_overflow (positive : 0 < chunk.toNat) (overflow : ¬ ChunksFit count chunk) :
    (divide count chunk).crash = some .sumOverflow ∧
      ∃ last, Stretches 0 last (divide count chunk).started ∧ last < count ∧
        2 ^ 64 ≤ last.toNat + chunk.toNat := by
  obtain ⟨last, -, below, large, divided⟩ := divide_overflow positive overflow
  have word : count.toNat < 2 ^ 64 := count.toNat_lt
  have start : (UInt64.ofNat last * chunk).toNat = last * chunk.toNat :=
    multiple_toNat positive (by omega)
  rw [divided]
  refine ⟨rfl, UInt64.ofNat last * chunk, stretches_full positive last (Nat.le_of_lt below), ?_, ?_⟩
  · rwa [UInt64.lt_iff_toNat_lt, start]
  · rwa [start]

end Bounds

/-! ### The largest number of jobs -/

/-- For one job more there are workers enough for chunks of `2 ^ 32` jobs, and the last chunk has
a single job. -/
theorem not_chunksFit_above :
    let count : UInt64 := UInt64.ofNat (2 ^ 64 - 2 ^ 32 + 1)
    let workers : UInt64 := UInt64.ofNat (2 ^ 32)
    workerCount workers workers count ≠ 1 ∧
      ¬ ChunksFit count (ceilingQuotient count (workerCount workers workers count)) := by
  refine ⟨by decide +kernel, fun fits => ?_⟩
  have last := fits (2 ^ 32 - 1) (by decide +kernel)
  exact absurd last (by decide +kernel)

/-- Up to `2 ^ 64 - 2 ^ 32` jobs the bounds of all chunks fit in words, whatever workers are
requested and available, and this is the largest such number. Where the bounds fit, the chunks
follow one another from the first job to the last, none of them empty, and hold each job once.
Where they do not, it is the sum for the last chunk that is no word. The chunks before it hold
each earlier job once, and when all of these have ended the rendering crashes. -/
theorem chunks_cover_unless_overflow (limit : Nat) (host : Host) (requested count : UInt64) :
    ((∀ available requested count : UInt64,
        workerCount available requested count ≠ 1 → count.toNat ≤ limit →
          ChunksFit count (ceilingQuotient count (workerCount available requested count))) ↔
      limit ≤ 2 ^ 64 - 2 ^ 32) ∧
    (workerCount host.workers requested count ≠ 1 →
      let chunk := ceilingQuotient count (workerCount host.workers requested count)
      let division := divide count chunk
      (ChunksFit count chunk → division.crash = none ∧ Stretches 0 count division.started ∧
        division.started.flatMap jobsBetween = List.range count.toNat) ∧
      (¬ ChunksFit count chunk → division.crash = some .sumOverflow ∧
        (∃ last, Stretches 0 last division.started ∧ last < count ∧
          2 ^ 64 ≤ last.toNat + chunk.toNat) ∧
        ∀ (voice : Voice) (frequency : Float) (rate : UInt32),
          let answers := voice.answers (samplePoints frequency rate count.toNat)
          let result := voice.renderParallel host frequency rate count requested
          (Stalls answers chunk.toNat → result = .error (.failed .unfinished)) ∧
            (¬ Stalls answers chunk.toNat → result = .error (.crashed .sumOverflow)))) := by
  refine ⟨⟨fun fits => ?_, fun small available requested count several le => ?_⟩, fun several => ?_⟩
  · apply Nat.le_of_not_lt
    intro large
    obtain ⟨several, overflow⟩ := not_chunksFit_above
    exact overflow (fits _ _ _ several large)
  · exact chunksFit_of_several several (Nat.le_trans le small)
  intro chunk division
  have positive := chunk_positive host.workers requested count several
  refine ⟨fun fits => ?_, fun overflow => ?_⟩
  · have stretches := stretches_of_fit positive (jobs_of_several several) fits
    refine ⟨congrArg Division.crash (divide_fit positive fits), stretches, ?_⟩
    refine stretches.joined.trans ?_
    simp [jobsBetween, List.range_eq_range']
  · obtain ⟨ended, started⟩ := stretches_of_overflow positive overflow
    refine ⟨ended, started, fun voice frequency rate => ?_⟩
    have together := voice.renderParallel_together host frequency rate several
    refine ⟨together.of_stalls, fun ends => together.of_crashes ends ?_⟩
    rw [Voice.length_answers_samplePoints, ← crash_eq_some positive, ended]
    rfl

/-- The largest number of jobs and two workers: the second chunk begins in the middle of the words
and would end past them. It is not started, and although the first sample fails there is a
crash. -/
theorem last_chunk_overflows :
    let voice : Voice := ⟨.ofStatements [.definition ⟨"main", .lambda "f" (.lambda "t"
      (.identifier "x" 1) 1) 1, 1⟩], "main", 3⟩
    let host : Host := ⟨2, fun _ => true⟩
    let count : UInt64 := UInt64.ofNat (2 ^ 64 - 1)
    let chunk := ceilingQuotient count (workerCount host.workers 2 count)
    workerCount host.workers 2 count ≠ 1 ∧ ¬ ChunksFit count chunk ∧
      divide count chunk = ⟨[(0, UInt64.ofNat (2 ^ 63))], some .sumOverflow⟩ ∧
      voice.render 440 1 count = .error (.fault (.unknownIdentifier "x" 1)) ∧
      voice.renderParallel host 440 1 count 2 = .error (.crashed .sumOverflow) := by
  refine ⟨by decide +kernel, ?_, by decide +kernel, rfl, rfl⟩
  intro fits
  exact absurd (fits 1 (by decide +kernel)) (by decide +kernel)

end Timbre
