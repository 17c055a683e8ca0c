import Mathlib.Data.List.Forall2
import Timbre.Proofs.Reuse
import Timbre.Sampler

/-!
# The trace of a sampler

A sampler answers every request with the sample that a new machine gives, whatever
was asked of it before. What it has reported are the failures of new machines on
the requests so far, each at its first occurrence only. A warning is logged when a
failure is reported, and at no other time.

The invariant relates a sampler to the failures so far: the first frame of its
machine is in place, and its report is the list of these failures without
repetitions. One request keeps it, and so do requests one after another.
-/

namespace Timbre.Sampler

/-- What is asked of a sampler. -/
structure Request where
  name : String
  frequency : Float
  time : Float

/-- Answer requests one after another. -/
def sampleAll (sampler : Sampler) (budget : Nat) :
    List Request → List (Logged Float) × Sampler
  | [] => ([], sampler)
  | request :: rest =>
      let (answer, next) := sampler.sample budget request.name request.frequency request.time
      let (answers, last) := next.sampleAll budget rest
      (answer :: answers, last)

/-- The first request is answered before the others. -/
theorem sampleAll_cons (sampler : Sampler) (budget : Nat) (request : Request)
    (rest : List Request) :
    sampler.sampleAll budget (request :: rest) =
      let first := sampler.sample budget request.name request.frequency request.time
      let others := first.2.sampleAll budget rest
      (first.1 :: others.1, others.2) := rfl

namespace Request

variable (request : Request) (program : Program) (budget : Nat)

/-- What a new machine answers to a request. -/
def outcome : Except Failure Float :=
  program.call budget request.name request.frequency request.time

/-- Why a new machine fails on a request, if it does. -/
def failure : Option Failure :=
  match request.outcome program budget with
  | .ok _ => none
  | .error reason => some reason

/-- The sample for a request: the number that a new machine answers, and zero if it fails. -/
def sample : Float :=
  match request.outcome program budget with
  | .ok value => value
  | .error _ => 0

/-- The record about the failure of a request: a warning that names the definition, the frequency
and the time, and says what failed. -/
def warning (reason : Failure) : Record :=
  ⟨.warn, request.name ++ "(" ++ numberText request.frequency ++ ", " ++
    numberText request.time ++ "): " ++ reason.message⟩

/-- The records that a request calls for after some failures: a warning if it fails
in another way than these. -/
def warnings (past : List Failure) : List Record :=
  ((request.failure program budget).filter (· ∉ past)).toList.map request.warning

/-- The answer to a request after some failures. -/
def answer (past : List Failure) : Logged Float :=
  ⟨request.sample program budget, request.warnings program budget past⟩

/-- The failure of a request is that of a new machine. -/
theorem failure_eq_some {request : Request} {program : Program} {budget : Nat}
    {reason : Failure} :
    request.failure program budget = some reason ↔
      request.outcome program budget = .error reason := by
  unfold failure
  cases request.outcome program budget <;> simp

/-- The sample for a request is the one that a program gives without a sampler. -/
theorem sample_eq : program.sample budget request.name request.frequency request.time =
    request.sample program budget := rfl

/-- What a sampler records about a failure is the warning of the request. -/
theorem record_eq (reason : Failure) :
    record request.name request.frequency request.time reason = request.warning reason := by
  have closed (rest : String) : ")" ++ (": " ++ rest) = "): " ++ rest := by
    rw [← String.append_assoc]
    rfl
  simp only [record, warning, String.append_assoc, closed]

end Request

/-- The failures of new machines on requests, in order. -/
def failures (program : Program) (budget : Nat) (requests : List Request) : List Failure :=
  requests.filterMap (·.failure program budget)

/-- The failure of the first request, if it fails, comes before the others. -/
theorem failures_cons (program : Program) (budget : Nat) (request : Request)
    (rest : List Request) :
    failures program budget (request :: rest) =
      (request.failure program budget).toList ++ failures program budget rest := by
  unfold failures
  cases found : request.failure program budget <;> simp [found]

/-! ### One request -/

/-- A sampler that has met some failures. -/
structure HasMet (program : Program) (past : List Failure) (sampler : Sampler) : Prop where
  program_eq : sampler.machine.program = program
  rooted : sampler.machine.frames.Rooted
  reported_eq : sampler.reported = past.eraseDups

/-- A new sampler has met no failures. -/
theorem start_hasMet (program : Program) : HasMet program [] (start program) :=
  ⟨rfl, Frames.root_rooted, rfl⟩

/-- Without repetitions, a list grows at its end by what it does not hold yet. -/
theorem eraseDups_concat {α : Type} [DecidableEq α] (past : List α) (item : α) :
    (past ++ [item]).eraseDups =
      if item ∈ past then past.eraseDups else past.eraseDups ++ [item] := by
  rw [List.eraseDups_append]
  split <;> simp_all [List.removeAll, List.eraseDups_cons]

namespace HasMet

variable {program : Program} {past : List Failure} {sampler : Sampler}

/-- The machine of the sampler answers as a new one, and its first frame stays in
place. -/
theorem call (met : HasMet program past sampler) (budget : Nat) (request : Request) :
    ∃ machine, sampler.machine.call budget request.name request.frequency request.time =
        (request.outcome program budget, machine) ∧
      machine.program = program ∧ machine.frames.Rooted := by
  have fresh := Machine.call_rooted sampler.machine met.rooted budget request.name
    request.frequency request.time
  rw [met.program_eq] at fresh
  refine ⟨_, fresh, rfl, ?_⟩
  exact rooted_evaluateWaveform Frames.root_rooted program budget request.name
    request.frequency request.time

/-- One request: the sample of a new machine, a warning exactly when the failure is
new, and a report that grows by it. -/
theorem sample (met : HasMet program past sampler) (budget : Nat) (request : Request) :
    (sampler.sample budget request.name request.frequency request.time).1 =
        request.answer program budget past ∧
      HasMet program (past ++ (request.failure program budget).toList)
        (sampler.sample budget request.name request.frequency request.time).2 := by
  obtain ⟨machine, answered, same, rooted⟩ := met.call budget request
  unfold Sampler.sample
  simp only [answered, Request.answer, Request.sample, Request.record_eq, Request.warnings,
    Request.failure]
  cases request.outcome program budget with
  | ok value =>
    simp only [Option.toList_none, List.append_nil]
    exact ⟨rfl, same, rooted, met.reported_eq⟩
  | error reason =>
    simp only [met.reported_eq, List.mem_eraseDups, Option.toList_some]
    by_cases known : reason ∈ past
    · rw [if_pos known]
      refine ⟨by simp [known, silence], same, rooted, ?_⟩
      rw [eraseDups_concat, if_pos known]
    · rw [if_neg known]
      refine ⟨by simp [known, silence, Option.filter_some], same, rooted, ?_⟩
      rw [eraseDups_concat, if_neg known]

end HasMet

/-! ### Requests one after another -/

/-- A record about a failure at its first occurrence, after some failures: the
warning of the first among the requests that fails for this reason. -/
def Announces (program : Program) (budget : Nat) (past : List Failure)
    (requests : List Request) (reason : Failure) (record : Record) : Prop :=
  ∃ before request after, requests = before ++ request :: after ∧
    request.failure program budget = some reason ∧
      reason ∉ past ++ failures program budget before ∧ record = request.warning reason

section Run

variable {program : Program} {past : List Failure} {sampler : Sampler}

/-- What is announced after a request is announced with it. -/
theorem Announces.later {budget : Nat} {request : Request} {rest : List Request} {reason : Failure}
    {record : Record}
    (announces : Announces program budget (past ++ (request.failure program budget).toList)
      rest reason record) :
    Announces program budget past (request :: rest) reason record := by
  obtain ⟨before, other, after, rfl, failed, unknown, same⟩ := announces
  refine ⟨request :: before, other, after, rfl, failed, ?_, same⟩
  rwa [failures_cons, ← List.append_assoc]

/-- A request announces what it adds to the report. -/
theorem warnings_announce (program : Program) (budget : Nat) (past : List Failure)
    (request : Request) (rest : List Request) :
    ∃ fresh, (past ++ (request.failure program budget).toList).eraseDups =
        past.eraseDups ++ fresh ∧
      List.Forall₂ (Announces program budget past (request :: rest)) fresh
        (request.warnings program budget past) := by
  unfold Request.warnings
  cases failed : request.failure program budget with
  | none => exact ⟨[], by simp, .nil⟩
  | some reason =>
    rw [Option.toList_some, eraseDups_concat]
    by_cases known : reason ∈ past
    · rw [if_pos known]
      exact ⟨[], by simp, by simp [known, Option.filter_some]⟩
    · rw [if_neg known]
      refine ⟨[reason], rfl, ?_⟩
      have announced : Announces program budget past (request :: rest) reason
          (request.warning reason) :=
        ⟨[], request, rest, rfl, failed, by simpa [failures] using known, rfl⟩
      simpa [known, Option.filter_some] using announced

/-- The sampler after requests has met their failures as well. -/
theorem HasMet.sampleAll (met : HasMet program past sampler) (budget : Nat)
    (requests : List Request) :
    HasMet program (past ++ failures program budget requests)
      (sampler.sampleAll budget requests).2 := by
  induction requests generalizing past sampler with
  | nil => simpa [failures, Sampler.sampleAll] using met
  | cons request rest inductionHypothesis =>
    rw [failures_cons, ← List.append_assoc]
    exact inductionHypothesis (met.sample budget request).2

/-- The answer to a request depends on the requests before it only through their
failures. -/
theorem HasMet.answer (met : HasMet program past sampler) (budget : Nat)
    (requests : List Request) (index : Nat) :
    (sampler.sampleAll budget requests).1[index]? = requests[index]?.map fun request =>
      request.answer program budget (past ++ failures program budget (requests.take index)) := by
  induction requests generalizing past sampler index with
  | nil => rfl
  | cons request rest inductionHypothesis =>
    obtain ⟨answered, next⟩ := met.sample budget request
    cases index with
    | zero => simp [sampleAll_cons, answered, failures]
    | succ index =>
      have later := inductionHypothesis next index
      rw [List.append_assoc, ← failures_cons] at later
      exact later

/-- The warnings of all requests announce what these add to the report, in order. -/
theorem HasMet.announced (met : HasMet program past sampler) (budget : Nat)
    (requests : List Request) :
    ∃ fresh, (past ++ failures program budget requests).eraseDups = past.eraseDups ++ fresh ∧
      List.Forall₂ (Announces program budget past requests) fresh
        ((sampler.sampleAll budget requests).1.flatMap (·.log)) := by
  induction requests generalizing past sampler with
  | nil => exact ⟨[], by simp [failures], .nil⟩
  | cons request rest inductionHypothesis =>
    obtain ⟨answered, next⟩ := met.sample budget request
    obtain ⟨first, added, now⟩ := warnings_announce program budget past request rest
    obtain ⟨others, grown, later⟩ := inductionHypothesis next
    refine ⟨first ++ others, ?_, ?_⟩
    · rw [failures_cons, ← List.append_assoc, grown, added, List.append_assoc]
    · simp only [sampleAll_cons, List.flatMap_cons, answered, Request.answer]
      exact List.rel_append now (later.imp fun _ _ => Announces.later)

end Run

/-- Every finite sequence of requests to a sampler: each is answered with the sample
that a program gives without a sampler, which is zero if the request fails, and with a
warning exactly when it fails as no request before it did. The report is the list of the
failures of new machines without repetitions, and the warnings of the whole sequence are one
for each reported failure, in order, each from the first request that failed so. -/
theorem trace_of_requests (program : Program) (budget : Nat) (requests : List Request) :
    let trace := (start program).sampleAll budget requests
    (∀ index : Nat, trace.1[index]? = requests[index]?.map fun request =>
      request.answer program budget (failures program budget (requests.take index))) ∧
      (∀ request : Request, request.sample program budget =
        program.sample budget request.name request.frequency request.time) ∧
      trace.2.reported = (failures program budget requests).eraseDups ∧
      List.Forall₂ (Announces program budget [] requests) trace.2.reported
        (trace.1.flatMap (·.log)) := by
  intro trace
  have met := start_hasMet program
  have reported : trace.2.reported = (failures program budget requests).eraseDups :=
    (met.sampleAll budget requests).reported_eq
  refine ⟨met.answer budget requests, fun request => (request.sample_eq ..).symm, reported, ?_⟩
  obtain ⟨fresh, same, announced⟩ := met.announced budget requests
  rw [List.nil_append, List.eraseDups_nil, List.nil_append, ← reported] at same
  rwa [same]

/-- A request that succeeds, one that fails, the same failure again at another time, and a
request that fails in another way. There are two warnings, each with the first request that
failed so, and the samples of all three failures are zero. -/
theorem trace_of_requests_failing :
    let program := Program.ofStatements
      [.definition ⟨"main", .lambda "f" (.lambda "t" (.identifier "x" 1) 1) 1, 1⟩,
        .definition ⟨"tone", .lambda "f" (.lambda "t" (.identifier "t" 2) 2) 2, 2⟩]
    let requests : List Request :=
      [⟨"tone", 440, 2⟩, ⟨"main", 440, 1⟩, ⟨"main", 220, 2⟩, ⟨"drum", 440, 1⟩]
    let trace := (start program).sampleAll 3 requests
    trace.1 = [⟨2, []⟩,
      ⟨0, [⟨.warn, "main(440, 1): Error on line 1: Unknown identifier 'x'."⟩]⟩, ⟨0, []⟩,
      ⟨0, [⟨.warn, "drum(440, 1): Error: Unknown definition 'drum'."⟩]⟩] ∧
    trace.2.reported = [.fault (.unknownIdentifier "x" 1), .fault (.unknownDefinition "drum")] := by
  intro program requests trace
  have first : (⟨"main", 440, 1⟩ : Request).warning (.fault (.unknownIdentifier "x" 1)) =
      ⟨.warn, "main(440, 1): Error on line 1: Unknown identifier 'x'."⟩ := by decide +kernel
  have second : (⟨"drum", 440, 1⟩ : Request).warning (.fault (.unknownDefinition "drum")) =
      ⟨.warn, "drum(440, 1): Error: Unknown definition 'drum'."⟩ := by decide +kernel
  have tone : (⟨"tone", 440, 2⟩ : Request).outcome program 3 = .ok 2 := rfl
  have main (frequency time : Float) : (⟨"main", frequency, time⟩ : Request).outcome program 3 =
      .error (.fault (.unknownIdentifier "x" 1)) := rfl
  have drum : (⟨"drum", 440, 1⟩ : Request).outcome program 3 =
      .error (.fault (.unknownDefinition "drum")) := rfl
  obtain ⟨answers, -, reported, -⟩ := trace_of_requests program 3 requests
  have met : trace.2.reported =
      [.fault (.unknownIdentifier "x" 1), .fault (.unknownDefinition "drum")] := by
    rw [reported]
    simp [requests, failures, Request.failure, tone, main, drum, List.eraseDups_cons]
  refine ⟨?_, met⟩
  rw [← first, ← second]
  apply List.ext_getElem?
  intro index
  rw [answers index]
  obtain _ | _ | _ | _ | index := index <;>
    simp [requests, failures, Request.answer, Request.sample, Request.warnings, Request.failure,
      Option.filter_some, tone, main, drum]

end Timbre.Sampler
