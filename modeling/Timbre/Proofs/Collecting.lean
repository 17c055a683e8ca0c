/-!
# Collecting answers

A list of answers is collected in order, up to the first one that failed.
-/

namespace Timbre

variable {ε α : Type}

/-- A failure in front is the result. -/
theorem collect_error (reason : ε) (rest : List (Except ε α)) :
    (.error reason :: rest : List (Except ε α)).mapM id = .error reason := by
  rw [List.mapM_cons]
  rfl

/-- A success in front is put before the results of the rest. -/
theorem collect_ok (value : α) (rest : List (Except ε α)) :
    (.ok value :: rest : List (Except ε α)).mapM id = (rest.mapM id).map (value :: ·) := by
  rw [List.mapM_cons]
  cases rest.mapM id <;> rfl

/-- Answers are collected up to the first failure. -/
theorem collect_cases (answers : List (Except ε α)) :
    (∃ values : List α, answers.mapM id = .ok values ∧ answers = values.map .ok) ∨
      ∃ (values : List α) (reason : ε) (rest : List (Except ε α)),
        answers.mapM id = .error reason ∧ answers = values.map .ok ++ .error reason :: rest := by
  induction answers with
  | nil => exact .inl ⟨[], rfl, rfl⟩
  | cons answer rest inductionHypothesis =>
    cases answer with
    | error reason => exact .inr ⟨[], reason, rest, collect_error reason rest, rfl⟩
    | ok value =>
      rw [collect_ok]
      obtain ⟨values, collected, same⟩ | ⟨values, reason, after, failed, same⟩ :=
        inductionHypothesis
      · refine .inl ⟨value :: values, ?_, ?_⟩
        · rw [collected]
          rfl
        · rw [same]
          rfl
      · refine .inr ⟨value :: values, reason, after, ?_, ?_⟩
        · rw [failed]
          rfl
        · rw [same]
          rfl

/-- Collecting succeeds exactly on successes, with their values. -/
theorem collect_eq_ok {answers : List (Except ε α)} {values : List α} :
    answers.mapM id = .ok values ↔ answers = values.map .ok := by
  constructor
  · intro collected
    obtain ⟨found, again, same⟩ | ⟨_, _, _, failed, _⟩ := collect_cases answers
    · rw [collected] at again
      obtain rfl := Except.ok.inj again
      exact same
    · rw [collected] at failed
      nomatch failed
  · rintro rfl
    induction values with
    | nil => rfl
    | cons value values inductionHypothesis =>
      rw [List.map_cons, collect_ok, inductionHypothesis]
      rfl

/-- Collecting fails with the first failure among the answers. -/
theorem collect_eq_error {answers : List (Except ε α)} {reason : ε} :
    answers.mapM id = .error reason ↔ ∃ index : Nat, answers[index]? = some (.error reason) ∧
      ∀ earlier < index, ∃ value : α, answers[earlier]? = some (.ok value) := by
  obtain ⟨values, collected, rfl⟩ | ⟨values, found, rest, failed, rfl⟩ := collect_cases answers
  · rw [collected]
    constructor
    · intro impossible
      nomatch impossible
    · rintro ⟨index, stopped, -⟩
      rw [List.getElem?_map] at stopped
      obtain ⟨value, -, impossible⟩ := Option.map_eq_some_iff.mp stopped
      nomatch impossible
  · have before : ∀ earlier < values.length, ∃ value : α,
        (values.map Except.ok ++ Except.error found :: rest)[earlier]? = some (.ok value) := by
      intro earlier inside
      exact ⟨values[earlier], by simp [List.getElem?_append, inside]⟩
    have stopped : (values.map Except.ok ++ Except.error found :: rest)[values.length]? =
        some (.error found) := by
      simp
    rw [failed]
    constructor
    · intro same
      obtain rfl := Except.error.inj same
      exact ⟨values.length, stopped, before⟩
    · rintro ⟨index, stored, numbers⟩
      -- Neither of the two places can be before the other one.
      obtain below | rfl | above := Nat.lt_trichotomy index values.length
      · obtain ⟨value, number⟩ := before index below
        rw [stored] at number
        nomatch number
      · rw [stopped] at stored
        rw [Except.error.inj (Option.some.inj stored)]
      · obtain ⟨value, number⟩ := numbers values.length above
        rw [stopped] at number
        nomatch number

/-! ### Numbered answers -/

/-- Numbered answers are collected exactly when each of them is a success with the value
of its number. -/
theorem collect_numbered_eq_ok {answer : Nat → Except ε α} {count : Nat} {values : List α} :
    ((List.range count).map answer).mapM id = .ok values ↔ values.length = count ∧
      ∀ (index : Nat) (value : α), values[index]? = some value → answer index = .ok value := by
  rw [collect_eq_ok]
  constructor
  · intro same
    have length : values.length = count := by simpa using (congrArg List.length same).symm
    refine ⟨length, fun index value stored => ?_⟩
    have inside : index < count := by
      obtain ⟨bound, -⟩ := List.getElem?_eq_some_iff.mp stored
      omega
    have place := congrArg (·[index]?) same
    simpa [stored, inside] using place
  · rintro ⟨length, each⟩
    apply List.ext_getElem (by simp [length])
    intro index inside bound
    have stored := List.getElem?_eq_getElem (by simpa using bound : index < values.length)
    simpa using each index _ stored

/-- Collecting numbered answers fails with the failure of the smallest number that has
one. -/
theorem collect_numbered_eq_error {answer : Nat → Except ε α} {count : Nat} {reason : ε} :
    ((List.range count).map answer).mapM id = .error reason ↔
      ∃ index < count, answer index = .error reason ∧
        ∀ earlier < index, ∃ value : α, answer earlier = .ok value := by
  have stored : ∀ (index : Nat) (result : Except ε α),
      ((List.range count).map answer)[index]? = some result ↔
        index < count ∧ answer index = result := by
    intro index result
    by_cases inside : index < count <;> simp [inside]
  simp only [collect_eq_error, stored]
  constructor
  · rintro ⟨index, ⟨inside, failed⟩, before⟩
    refine ⟨index, inside, failed, fun earlier below => ?_⟩
    exact (before earlier below).imp fun _ => And.right
  · rintro ⟨index, inside, failed, before⟩
    refine ⟨index, ⟨inside, failed⟩, fun earlier below => ?_⟩
    obtain ⟨value, number⟩ := before earlier below
    exact ⟨value, by omega, number⟩

end Timbre
