import Timbre.Load
import Timbre.Samples

/-!
# From a source text to samples

A source text is loaded, the entry is checked, and only then are samples
rendered. The first of these steps that fails gives the outcome.
-/

namespace Timbre

/-- Why a source text gave no samples. -/
inductive PerformanceError where
  | notLoaded (reason : LoadError)
  | badEntry (diagnostic : Diagnostic)
  | notRendered (reason : RenderError)
  deriving DecidableEq, Repr

/-- The text of a message. -/
def PerformanceError.message : PerformanceError → String
  | notLoaded reason => reason.message
  | badEntry diagnostic => diagnostic.message
  | notRendered reason => reason.message

/-- What to render. -/
structure Score where
  source : String
  name : String
  frequency : Float
  seconds : Float
  rate : UInt32
  workers : UInt64

/-- The samples of a score. -/
def Score.perform (score : Score) (budget : Nat) (host : Host) :
    Logged (Except PerformanceError (List Float)) :=
  let attempt := load score.source
  let outcome := match attempt.value with
    | .error reason => .error (.notLoaded reason)
    | .ok loaded =>
        match loaded.program.entryDiagnostic score.name with
        | some diagnostic => .error (.badEntry diagnostic)
        | none =>
            let voice : Voice := ⟨loaded.program, score.name, budget⟩
            (voice.renderParallel host score.frequency score.rate
              (sampleCount score.seconds score.rate) score.workers).mapError .notRendered
  ⟨outcome, attempt.log⟩

end Timbre
