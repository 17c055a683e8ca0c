import Timbre.Machine

/-!
# Samplers

A sampler computes one sample after another on one machine. A sample that fails
is silent. Each failure is logged when it first occurs and not again, so that a
faulty program does not fill the log.
-/

namespace Timbre

/-- A machine and the failures that it has logged. -/
structure Sampler where
  machine : Machine
  /-- Distinct failures in the order of their first occurrence. -/
  reported : List Failure

namespace Sampler

/-- A sampler that has computed nothing. -/
def start (program : Program) : Sampler := ⟨.start program, []⟩

/-- The record about a failure. -/
def record (name : String) (frequency time : Float) (failure : Failure) : Record :=
  let call := name ++ "(" ++ numberText frequency ++ ", " ++ numberText time ++ ")"
  ⟨.warn, call ++ ": " ++ failure.message⟩

/-- Compute one sample. -/
def sample (sampler : Sampler) (budget : Nat) (name : String) (frequency time : Float) :
    Logged Float × Sampler :=
  match sampler.machine.call budget name frequency time with
  | (.ok value, machine) => (⟨value, []⟩, { sampler with machine })
  | (.error failure, machine) =>
      if failure ∈ sampler.reported then (⟨silence, []⟩, { sampler with machine })
      else
        (⟨silence, [record name frequency time failure]⟩,
          ⟨machine, sampler.reported ++ [failure]⟩)

end Sampler

end Timbre
