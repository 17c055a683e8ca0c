import Timbre.Machine

/-!
# Rendering samples

Sample `i` is taken at the time `i / rate`. The samples of a definition are
computed in order, or in chunks of equal length by several workers, each with a
machine of its own, and then joined. A failure is that of the first sample that
fails.

Several workers need more than one does. The bound past a chunk is a sum of words,
which may be no word. The memory for all samples is asked for at once, after the
last worker has stopped and before any result is read. Either may crash, and then
it does not matter what the workers found.
-/

namespace Timbre

/-- The number of samples in a duration at a rate. -/
def sampleCount (seconds : Float) (rate : UInt32) : UInt64 :=
  wholeCount (seconds * rate.toFloat)

/-- The time of a sample. -/
def sampleTime (rate : UInt32) (index : Nat) : Float :=
  (UInt64.ofNat index).toFloat / rate.toFloat

/-- The number of workers: no more than requested, available, or of use, and at
least one. -/
def workerCount (available requested jobs : UInt64) : UInt64 :=
  max 1 (min (min requested available) jobs)

/-- The quotient of two counts, rounded up. -/
def ceilingQuotient (count parts : UInt64) : UInt64 :=
  if count % parts = 0 then count / parts else count / parts + 1

/-- What stops a rendering short of an answer. -/
inductive Crash where
  | sumOverflow
  | capacityOverflow
  | outOfMemory (bytes : Nat)
  deriving DecidableEq, Repr

namespace Crash

/-- A crash in words. -/
def message : Crash → String
  | sumOverflow => "attempt to add with overflow"
  | capacityOverflow => "capacity overflow"
  | outOfMemory bytes => "memory allocation of " ++ toString bytes ++ " bytes failed"

/-- The exit code of a command that crashes. -/
def exitCode : Crash → Nat
  | sumOverflow | capacityOverflow => 101
  | outOfMemory _ => 134

end Crash

/-- Why a rendering gave no samples. -/
inductive RenderError where
  | failed (failure : Failure)
  | crashed (crash : Crash)
  deriving DecidableEq, Repr

/-- The text of a message. -/
def RenderError.message : RenderError → String
  | failed failure => failure.message
  | crashed crash => crash.message

/-- Where samples are rendered: how many workers may run side by side, and which
numbers of bytes are granted at once. -/
structure Host where
  workers : UInt64
  grants : Nat → Bool

/-- Ask for the memory of a number of samples, eight bytes each. A request of half the
address space or more is not even made. -/
def Host.reserve (host : Host) (count : UInt64) : Option Crash :=
  let bytes := 8 * count.toNat
  if UInt64.size / 2 ≤ bytes then some .capacityOverflow
  else if host.grants bytes then none
  else some (.outOfMemory bytes)

/-- The first job of each chunk of `count` jobs. -/
def chunkStarts (count chunk : UInt64) : List UInt64 :=
  (List.range (ceilingQuotient count chunk).toNat).map (UInt64.ofNat · * chunk)

/-- Jobs divided into chunks: the bounds of the chunks that were started, the upper
ones excluded, and what kept another one from being started. -/
structure Division where
  started : List (UInt64 × UInt64)
  crash : Option Crash
  deriving DecidableEq, Repr

/-- Start chunks one after another, as long as the sums that bound them are words. -/
def startChunks (count chunk : UInt64) : List UInt64 → Division
  | [] => ⟨[], none⟩
  | first :: rest =>
      if first.toNat + chunk.toNat < UInt64.size then
        let others := startChunks count chunk rest
        ⟨(first, min (first + chunk) count) :: others.started, others.crash⟩
      else ⟨[], some .sumOverflow⟩

/-- The division of `count` jobs into chunks. -/
def divide (count chunk : UInt64) : Division :=
  startChunks count chunk (chunkStarts count chunk)

/-- The definition to render and how. -/
structure Voice where
  program : Program
  name : String
  budget : Nat

namespace Voice

/-- The samples at points of frequency and time, on one new machine. -/
def samplesAt (voice : Voice) (points : List (Float × Float)) :
    Except Failure (List Float) :=
  let work : Eval (List Float) := points.mapM fun (frequency, time) =>
    evaluateWaveform voice.program voice.budget voice.name frequency time
  ((Machine.start voice.program).run work).1

/-- The samples of the next `left` indices, behind those that are `done`, of which the latest is
in front. The indices are not listed in advance, so a failure ends any count of them. -/
def samplesFrom (voice : Voice) (frequency : Float) (rate : UInt32) :
    (left index : Nat) → (done : List Float) → Eval (List Float)
  | 0, _, done => return done.reverse
  | left + 1, index, done => do
      let sample ← evaluateWaveform voice.program voice.budget voice.name frequency
        (sampleTime rate index)
      voice.samplesFrom frequency rate left (index + 1) (sample :: done)

/-- Samples from a first index up to another one, which is excluded, on one new machine. -/
def samplesBetween (voice : Voice) (frequency : Float) (rate : UInt32)
    (first stop : UInt64) : Except Failure (List Float) :=
  let work := voice.samplesFrom frequency rate (stop.toNat - first.toNat) first.toNat []
  ((Machine.start voice.program).run work).1

/-- The first `count` samples, in order. -/
def render (voice : Voice) (frequency : Float) (rate : UInt32) (count : UInt64) :
    Except Failure (List Float) :=
  voice.samplesBetween frequency rate 0 count

/-- Whether the work on a chunk never ends. -/
def stalls : Except Failure (List Float) → Bool
  | .error .unfinished => true
  | _ => false

/-- Compute the chunks side by side, wait for all of them and join them; the first
failure in order counts. A crash is one that happens after the waiting and before
any result is read. -/
def joinChunks (chunks : List (Unit → Except Failure (List Float))) (crash : Option Crash) :
    Except RenderError (List Float) :=
  let tasks := chunks.map fun chunk => Task.spawn chunk
  let results := tasks.map Task.get
  if results.any stalls then .error (.failed .unfinished)
  else
    match crash with
    | some reason => .error (.crashed reason)
    | none => ((results.mapM id).map List.flatten).mapError .failed

/-- The first `count` samples, by several workers. -/
def renderParallel (voice : Voice) (host : Host) (frequency : Float) (rate : UInt32)
    (count requested : UInt64) : Except RenderError (List Float) :=
  let workers := workerCount host.workers requested count
  if workers = 1 then (voice.render frequency rate count).mapError .failed
  else
    let division := divide count (ceilingQuotient count workers)
    let chunks := division.started.map fun (first, stop) _ =>
      voice.samplesBetween frequency rate first stop
    joinChunks chunks (division.crash.or (host.reserve count))

/-- The samples at points of frequency and time, by several workers. -/
def renderPoints (voice : Voice) (host : Host) (points : List (Float × Float))
    (requested : UInt64) : Except RenderError (List Float) :=
  let jobs := UInt64.ofNat points.length
  let workers := workerCount host.workers requested jobs
  if workers = 1 then (voice.samplesAt points).mapError .failed
  else
    let chunk := ceilingQuotient jobs workers
    let chunks := (chunkStarts jobs chunk).map fun first _ =>
      voice.samplesAt ((points.drop first.toNat).take chunk.toNat)
    joinChunks chunks (host.reserve jobs)

end Voice

end Timbre
