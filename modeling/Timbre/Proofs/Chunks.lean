import Mathlib.Algebra.Group.Nat.Defs
import Timbre.Samples

/-!
# Chunks

How the jobs of a rendering are divided among workers. Counts are 64-bit words.
The quotient that gives a chunk's length is rounded up and never wraps around,
and with two workers or more no chunk is empty. The first job of each chunk is
below the number of jobs, so it does not wrap around either. The sum that bounds a
chunk is a word where `ChunksFit` says so, and then all chunks are started.
Otherwise all but the last one are, because every other sum is the first job of the
next chunk.

Chunks of equal length, the last one possibly shorter, put together in order give
all jobs once.
-/

namespace Timbre

/-- The first job of each chunk and the chunk's length add up to a word. -/
def ChunksFit (count chunk : UInt64) : Prop :=
  ∀ number : Nat, number * chunk.toNat < count.toNat →
    number * chunk.toNat + chunk.toNat < 2 ^ 64

/-- The smaller of two words is the smaller number. -/
theorem min_toNat (a b : UInt64) : (min a b).toNat = min a.toNat b.toNat := by
  by_cases ordered : a ≤ b
  · have ordered' : a.toNat ≤ b.toNat := UInt64.le_iff_toNat_le.mp ordered
    rw [Nat.min_eq_left ordered']
    simp [min, ordered]
  · have ordered' : b.toNat < a.toNat := by
      have exceeds := mt UInt64.le_iff_toNat_le.mpr ordered
      omega
    rw [Nat.min_eq_right (Nat.le_of_lt ordered')]
    simp [min, ordered]

/-- The larger of two words is the larger number. -/
theorem max_toNat (a b : UInt64) : (max a b).toNat = max a.toNat b.toNat := by
  by_cases ordered : a ≤ b
  · have ordered' : a.toNat ≤ b.toNat := UInt64.le_iff_toNat_le.mp ordered
    rw [Nat.max_eq_right ordered']
    simp [max, ordered]
  · have ordered' : b.toNat < a.toNat := by
      have exceeds := mt UInt64.le_iff_toNat_le.mpr ordered
      omega
    rw [Nat.max_eq_left (Nat.le_of_lt ordered')]
    simp [max, ordered]

/-- The quotient rounded up is the least number of parts that cover the count.
Rounding up does not wrap around: with a remainder there are at least two to a
part, so the quotient is at most half of the largest word. -/
theorem ceilingQuotient_bounds (count parts : UInt64) (positive : 0 < parts.toNat) :
    count.toNat ≤ (ceilingQuotient count parts).toNat * parts.toNat ∧
      (ceilingQuotient count parts).toNat * parts.toNat < count.toNat + parts.toNat := by
  have division : parts.toNat * (count.toNat / parts.toNat) + count.toNat % parts.toNat =
      count.toNat := Nat.div_add_mod count.toNat parts.toNat
  have remainder : count.toNat % parts.toNat < parts.toNat := Nat.mod_lt _ positive
  rw [Nat.mul_comm parts.toNat] at division
  unfold ceilingQuotient
  split
  · rename_i even
    have even' : count.toNat % parts.toNat = 0 := by
      simpa [UInt64.toNat_mod] using congrArg UInt64.toNat even
    rw [UInt64.toNat_div]
    omega
  · rename_i uneven
    have uneven' : count.toNat % parts.toNat ≠ 0 := by
      intro even
      apply uneven
      apply UInt64.toNat_inj.mp
      rw [UInt64.toNat_mod, even]
      rfl
    have halved : count.toNat / parts.toNat * 2 ≤ count.toNat / parts.toNat * parts.toNat :=
      Nat.mul_le_mul_left _ (by omega)
    have word : count.toNat < 2 ^ 64 := count.toNat_lt
    have exact : (count / parts + 1).toNat = count.toNat / parts.toNat + 1 := by
      rw [UInt64.toNat_add, UInt64.toNat_div]
      exact Nat.mod_eq_of_lt (by simp only [UInt64.toNat_one]; omega)
    rw [exact, Nat.add_mul, Nat.one_mul]
    omega

/-- There is at least one worker. -/
theorem workerCount_positive (available requested jobs : UInt64) :
    0 < (workerCount available requested jobs).toNat := by
  unfold workerCount
  rw [max_toNat]
  simp only [UInt64.toNat_one]
  omega

/-- Two workers or more each have a job. -/
theorem workerCount_le_jobs (available requested jobs : UInt64)
    (several : workerCount available requested jobs ≠ 1) :
    (workerCount available requested jobs).toNat ≤ jobs.toNat := by
  have several' : (workerCount available requested jobs).toNat ≠ 1 := by
    intro single
    exact several (UInt64.toNat_inj.mp single)
  unfold workerCount at several' ⊢
  rw [max_toNat, min_toNat, min_toNat] at several' ⊢
  simp only [UInt64.toNat_one] at several' ⊢
  omega

/-- Work is only divided into chunks that hold a job. -/
theorem chunk_positive (available requested jobs : UInt64)
    (several : workerCount available requested jobs ≠ 1) :
    0 < (ceilingQuotient jobs (workerCount available requested jobs)).toNat := by
  have positive := workerCount_positive available requested jobs
  have enough := workerCount_le_jobs available requested jobs several
  have covered := (ceilingQuotient_bounds jobs _ positive).1
  apply Nat.pos_of_ne_zero
  intro zero
  rw [zero, Nat.zero_mul] at covered
  omega

/-- Consecutive stretches of a list join to the part of it that they reach. -/
theorem stretches_join {α : Type} (items : List α) (length parts : Nat) :
    (List.range parts).flatMap (fun number => (items.drop (number * length)).take length) =
      items.take (parts * length) := by
  induction parts with
  | zero => simp
  | succ parts inductionHypothesis =>
    rw [List.range_succ, List.flatMap_append, inductionHypothesis]
    simp only [List.flatMap_cons, List.flatMap_nil, List.append_nil, Nat.add_mul, Nat.one_mul]
    rw [List.take_add]

/-! ### The chunks that are started -/

/-- The bounds of a chunk, the upper one excluded. -/
def chunkBounds (count chunk : UInt64) (number : Nat) : UInt64 × UInt64 :=
  (UInt64.ofNat number * chunk, min (UInt64.ofNat number * chunk + chunk) count)

section Division

variable {count chunk : UInt64} {number : Nat}

/-- A multiple of a chunk's length that is a word is what multiplication of words gives. -/
theorem multiple_toNat (positive : 0 < chunk.toNat) (small : number * chunk.toNat < 2 ^ 64) :
    (UInt64.ofNat number * chunk).toNat = number * chunk.toNat := by
  have least : number ≤ number * chunk.toNat := Nat.le_mul_of_pos_right number positive
  rw [UInt64.toNat_mul, UInt64.toNat_ofNat_of_lt' (by simp only [UInt64.size]; omega)]
  exact Nat.mod_eq_of_lt small

/-- Where the sum that bounds a chunk is a word, its bounds are the numbers they stand for. -/
theorem chunkBounds_toNat (count : UInt64) (positive : 0 < chunk.toNat)
    (fits : number * chunk.toNat + chunk.toNat < 2 ^ 64) :
    (chunkBounds count chunk number).1.toNat = number * chunk.toNat ∧
      (chunkBounds count chunk number).2.toNat =
        min (number * chunk.toNat + chunk.toNat) count.toNat := by
  have start : (UInt64.ofNat number * chunk).toNat = number * chunk.toNat :=
    multiple_toNat positive (by omega)
  refine ⟨start, ?_⟩
  rw [chunkBounds, min_toNat, UInt64.toNat_add, start, Nat.mod_eq_of_lt fits]

/-- The chunks are numbered by the multiples of their length below the number of jobs. -/
theorem lt_ceilingQuotient_iff (positive : 0 < chunk.toNat) :
    number < (ceilingQuotient count chunk).toNat ↔ number * chunk.toNat < count.toNat := by
  obtain ⟨covered, excess⟩ := ceilingQuotient_bounds count chunk positive
  constructor
  · intro listed
    have next : (number + 1) * chunk.toNat ≤ (ceilingQuotient count chunk).toNat * chunk.toNat :=
      Nat.mul_le_mul_right _ listed
    rw [Nat.add_mul, Nat.one_mul] at next
    omega
  · intro below
    exact Nat.lt_of_mul_lt_mul_right (Nat.lt_of_lt_of_le below covered)

/-- The step of the division: chunks whose sums are words are started, and the division goes on
behind them. -/
theorem startChunks_append {front rest : List UInt64}
    (fits : ∀ first ∈ front, first.toNat + chunk.toNat < 2 ^ 64) :
    startChunks count chunk (front ++ rest) =
      ⟨front.map (fun first => (first, min (first + chunk) count)) ++
        (startChunks count chunk rest).started, (startChunks count chunk rest).crash⟩ := by
  induction front with
  | nil => rfl
  | cons first others inductionHypothesis =>
    have later := inductionHypothesis fun other member => fits other (.tail _ member)
    have word : first.toNat + chunk.toNat < UInt64.size := fits first (.head _)
    rw [List.cons_append, startChunks, if_pos word, later]
    rfl

/-- Of the chunks below a number whose sums are words all are started. -/
theorem startChunks_numbered (count : UInt64) (positive : 0 < chunk.toNat) (parts : Nat)
    (rest : List UInt64)
    (fits : ∀ number < parts, number * chunk.toNat + chunk.toNat < 2 ^ 64) :
    startChunks count chunk ((List.range parts).map (UInt64.ofNat · * chunk) ++ rest) =
      ⟨(List.range parts).map (chunkBounds count chunk) ++ (startChunks count chunk rest).started,
        (startChunks count chunk rest).crash⟩ := by
  rw [startChunks_append, List.map_map]
  · rfl
  · intro first listed
    obtain ⟨number, member, rfl⟩ := List.mem_map.mp listed
    have sum := fits number (List.mem_range.mp member)
    rwa [multiple_toNat positive (by omega)]

/-- Where all sums are words all chunks are started. -/
theorem divide_fit (positive : 0 < chunk.toNat) (fits : ChunksFit count chunk) :
    divide count chunk =
      ⟨(List.range (ceilingQuotient count chunk).toNat).map (chunkBounds count chunk), none⟩ := by
  have started := startChunks_numbered count positive _ []
    fun number listed => fits number ((lt_ceilingQuotient_iff positive).mp listed)
  rw [List.append_nil] at started
  rw [divide, chunkStarts, started]
  simp [startChunks]

/-- Otherwise the division ends at the last chunk. Every other sum is at most the first job of
the last chunk, which is below the number of jobs. -/
theorem divide_overflow (positive : 0 < chunk.toNat) (overflow : ¬ ChunksFit count chunk) :
    ∃ last, (ceilingQuotient count chunk).toNat = last + 1 ∧
      last * chunk.toNat < count.toNat ∧ 2 ^ 64 ≤ last * chunk.toNat + chunk.toNat ∧
      divide count chunk =
        ⟨(List.range last).map (chunkBounds count chunk), some .sumOverflow⟩ := by
  have word : count.toNat < 2 ^ 64 := count.toNat_lt
  simp only [ChunksFit, Classical.not_forall, Nat.not_lt, exists_prop] at overflow
  obtain ⟨number, below, large⟩ := overflow
  have listed := (lt_ceilingQuotient_iff positive).mpr below
  -- The chunk after `number` would begin past all words, so `number` is the last one.
  have final : (ceilingQuotient count chunk).toNat = number + 1 := by
    apply Nat.le_antisymm _ listed
    apply Nat.le_of_not_lt
    intro more
    have next := (lt_ceilingQuotient_iff positive).mp more
    rw [Nat.succ_mul] at next
    omega
  refine ⟨number, final, below, large, ?_⟩
  have started := startChunks_numbered count positive number
    [UInt64.ofNat number * chunk] fun earlier before => by
      have next : (earlier + 1) * chunk.toNat ≤ number * chunk.toNat :=
        Nat.mul_le_mul_right _ before
      rw [Nat.add_mul, Nat.one_mul] at next
      omega
  have refused : startChunks count chunk [UInt64.ofNat number * chunk] =
      ⟨[], some .sumOverflow⟩ := by
    have past : ¬ number * chunk.toNat + chunk.toNat < UInt64.size := Nat.not_lt.mpr large
    rw [startChunks, multiple_toNat positive (by omega), if_neg past]
  rw [divide, chunkStarts, final, List.range_succ, List.map_append, List.map_singleton, started,
    refused, List.append_nil]

/-- The chunks that are started are those whose sums are words. Without a crash they reach all
jobs. -/
theorem divide_started (count : UInt64) (positive : 0 < chunk.toNat) :
    ∃ parts, (divide count chunk).started = (List.range parts).map (chunkBounds count chunk) ∧
      (∀ number, number < parts ↔
        number * chunk.toNat < count.toNat ∧ number * chunk.toNat + chunk.toNat < 2 ^ 64) ∧
      ((divide count chunk).crash = none → count.toNat ≤ parts * chunk.toNat) := by
  by_cases fits : ChunksFit count chunk
  · rw [divide_fit positive fits]
    refine ⟨_, rfl, fun number => ?_, fun _ => (ceilingQuotient_bounds count chunk positive).1⟩
    rw [lt_ceilingQuotient_iff positive]
    exact ⟨fun inside => ⟨inside, fits number inside⟩, And.left⟩
  · obtain ⟨last, final, inside, overflow, divided⟩ := divide_overflow positive fits
    rw [divided]
    refine ⟨last, rfl, fun number => ?_, fun impossible => nomatch impossible⟩
    rw [← lt_ceilingQuotient_iff positive, final]
    constructor
    · intro before
      have next : (number + 1) * chunk.toNat ≤ last * chunk.toNat := Nat.mul_le_mul_right _ before
      have word : count.toNat < 2 ^ 64 := count.toNat_lt
      rw [Nat.add_mul, Nat.one_mul] at next
      omega
    · rintro ⟨listed, word⟩
      apply Nat.lt_of_le_of_ne (Nat.le_of_lt_succ listed)
      rintro rfl
      omega

/-- All sums are words when the chunks together, each at its full length, hold no more jobs than
words can count. -/
theorem chunksFit_iff (positive : 0 < chunk.toNat) (jobs : 0 < count.toNat) :
    ChunksFit count chunk ↔ (ceilingQuotient count chunk).toNat * chunk.toNat < 2 ^ 64 := by
  constructor
  · intro fits
    have some : 0 < (ceilingQuotient count chunk).toNat :=
      (lt_ceilingQuotient_iff positive).mpr (by omega)
    obtain ⟨last, final⟩ := Nat.exists_eq_succ_of_ne_zero (Nat.ne_of_gt some)
    have sum := fits last ((lt_ceilingQuotient_iff positive).mp (by omega))
    rwa [final, Nat.succ_mul]
  · intro fits number inside
    have next : (number + 1) * chunk.toNat ≤ (ceilingQuotient count chunk).toNat * chunk.toNat :=
      Nat.mul_le_mul_right _ ((lt_ceilingQuotient_iff positive).mpr inside)
    rw [Nat.add_mul, Nat.one_mul] at next
    omega

end Division

/-! ### Chunks for workers -/

section Workers

variable {count workers chunk : UInt64} (staffed : 0 < workers.toNat)
  (divided : ceilingQuotient count workers = chunk) (positive : 0 < chunk.toNat)

include staffed divided positive

/-- No more chunks than workers are made. -/
theorem parts_le_workers : (ceilingQuotient count chunk).toNat ≤ workers.toNat := by
  obtain ⟨-, excess⟩ := ceilingQuotient_bounds count chunk positive
  obtain ⟨covered, -⟩ := ceilingQuotient_bounds count workers staffed
  rw [divided, Nat.mul_comm] at covered
  apply Nat.le_of_lt_succ
  apply Nat.lt_of_mul_lt_mul_right (a := chunk.toNat)
  rw [Nat.succ_mul]
  omega

/-- Up to `2 ^ 64 - 2 ^ 32` jobs all sums are words: either the workers are few, or the chunks
are short. -/
theorem chunksFit_below (jobs : 0 < count.toNat) (small : count.toNat ≤ 2 ^ 64 - 2 ^ 32) :
    ChunksFit count chunk := by
  obtain ⟨-, excess⟩ := ceilingQuotient_bounds count chunk positive
  obtain ⟨-, short⟩ := ceilingQuotient_bounds count workers staffed
  rw [divided] at short
  rw [chunksFit_iff positive jobs]
  by_cases few : workers.toNat ≤ 2 ^ 32
  · have parts := Nat.mul_le_mul_right chunk.toNat (parts_le_workers staffed divided positive)
    rw [Nat.mul_comm workers.toNat] at parts
    omega
  · have length : chunk.toNat ≤ 2 ^ 32 := by
      apply Nat.le_of_not_lt
      intro long
      have product := Nat.mul_le_mul_right workers.toNat (Nat.succ_le_of_lt long)
      omega
    omega

end Workers

/-- Several workers have jobs. -/
theorem jobs_of_several {available requested count : UInt64}
    (several : workerCount available requested count ≠ 1) : 0 < count.toNat :=
  Nat.lt_of_lt_of_le (workerCount_positive available requested count)
    (workerCount_le_jobs available requested count several)

/-- Up to `2 ^ 64 - 2 ^ 32` jobs all sums are words, whatever workers are requested and
available. -/
theorem chunksFit_of_several {available requested count : UInt64}
    (several : workerCount available requested count ≠ 1)
    (small : count.toNat ≤ 2 ^ 64 - 2 ^ 32) :
    ChunksFit count (ceilingQuotient count (workerCount available requested count)) :=
  chunksFit_below (workerCount_positive available requested count) rfl
    (chunk_positive available requested count several) (jobs_of_several several) small

end Timbre
