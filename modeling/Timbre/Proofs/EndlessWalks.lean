import Mathlib.Data.Finset.Card
import Mathlib.Data.Finset.Range
import Mathlib.Logic.Relation
import Timbre.Proofs.FrameHistories

/-!
# When a walk has no end

A walk for a name passes the frames that bind other names, each time to the scope that the
frame extends. It has no end exactly when it comes back to a frame that it has passed: there
are only so many frames, so a walk of more steps than frames has met one of them twice, and
from there on it repeats itself. The bound that the search sets on its steps is thus never
the reason for its answer.

A circle of frames cannot lead to older ones throughout. So one of its frames was bound on a
scope that had no frame at that moment. Where all bindings are made on live scopes, every
walk ends, also one from a scope whose frame was released since.
-/

namespace Timbre

namespace Frames

/-- The walk for a name goes on from a scope to another: the frame of the first binds
another name and extends the second. -/
def Passes (frames : Frames) (name : String) (scope outer : Scope) : Prop :=
  ∃ number frame, scope = some number ∧ frames.row[number]? = some frame ∧
    frame.name ≠ name ∧ outer = frame.parent

/-- The walk for a name comes from a scope to one that it returns to. -/
def Circles (frames : Frames) (scope : Scope) (name : String) : Prop :=
  ∃ turn, Relation.ReflTransGen (frames.Passes name) scope turn ∧
    Relation.TransGen (frames.Passes name) turn turn

variable {frames : Frames} {name : String} {scope outer : Scope}

/-- A walk that passes from one scope to another takes one step. -/
theorem Passes.walk (passes : frames.Passes name scope outer) (steps : Nat) :
    frames.walk name (steps + 1) scope = frames.walk name steps outer := by
  obtain ⟨number, frame, rfl, stored, differs, rfl⟩ := passes
  simp [Frames.walk, stored, differs]

/-- A walk that has not ended after its first step has passed a frame. -/
theorem passes_of_endless {steps : Nat} (endless : frames.walk name (steps + 1) scope = .endless) :
    ∃ number outer, scope = some number ∧ number < frames.size ∧
      frames.Passes name scope outer ∧ frames.walk name steps outer = .endless := by
  cases scope with
  | none => nomatch endless
  | some number =>
    cases stored : frames.row[number]? with
    | none => simp [Frames.walk, stored] at endless
    | some frame =>
      by_cases same : frame.name = name
      · simp [Frames.walk, stored, same] at endless
      · have passes : frames.Passes name (some number) frame.parent :=
          ⟨number, frame, rfl, stored, same, rfl⟩
        rw [passes.walk steps] at endless
        exact ⟨number, frame.parent, rfl, (Array.getElem?_eq_some_iff.mp stored).1, passes, endless⟩

/-- From a scope that leads to a circle the walk goes on, to another such scope. -/
theorem Circles.passes (circles : frames.Circles scope name) :
    ∃ outer, frames.Passes name scope outer ∧ frames.Circles outer name := by
  obtain ⟨turn, reached, around⟩ := circles
  rcases Relation.ReflTransGen.cases_head reached with rfl | ⟨outer, passes, onward⟩
  · obtain ⟨outer, passes, back⟩ := Relation.TransGen.head'_iff.mp around
    exact ⟨outer, passes, scope, back, around⟩
  · exact ⟨outer, passes, turn, onward, around⟩

/-- On a circle a walk never has steps enough. -/
theorem Circles.walk (circles : frames.Circles scope name) (steps : Nat) :
    frames.walk name steps scope = .endless := by
  induction steps generalizing scope with
  | zero => rfl
  | succ steps inductionHypothesis =>
    obtain ⟨outer, passes, onward⟩ := circles.passes
    rw [passes.walk steps]
    exact inductionHypothesis onward

/-- A walk that is to make more steps than there are frames it has not passed yet, and does
not end before, comes back to one that it has passed. -/
theorem circles_of_walk {steps : Nat} (passed : Finset Nat)
    (behind : ∀ number ∈ passed, number < frames.size ∧
      Relation.TransGen (frames.Passes name) (some number) scope)
    (many : frames.size < steps + passed.card)
    (endless : frames.walk name steps scope = .endless) : frames.Circles scope name := by
  induction steps generalizing scope passed with
  | zero =>
    -- More frames were passed than there are.
    have few : passed.card ≤ frames.size := by
      have inside : passed ⊆ Finset.range frames.size :=
        fun number member => Finset.mem_range.mpr (behind number member).1
      simpa using Finset.card_le_card inside
    omega
  | succ steps inductionHypothesis =>
    obtain ⟨number, outer, rfl, inside, passes, onward⟩ := passes_of_endless endless
    by_cases again : number ∈ passed
    · exact ⟨some number, .refl, (behind number again).2⟩
    · have further : ∀ other ∈ insert number passed, other < frames.size ∧
          Relation.TransGen (frames.Passes name) (some other) outer := by
        intro other member
        rcases Finset.mem_insert.mp member with rfl | member
        · exact ⟨inside, .single passes⟩
        · obtain ⟨small, reaches⟩ := behind other member
          exact ⟨small, reaches.tail passes⟩
      have counted : frames.size < steps + (insert number passed).card := by
        rw [Finset.card_insert_of_notMem again]
        omega
      obtain ⟨turn, reached, around⟩ := inductionHypothesis _ further counted onward
      exact ⟨turn, reached.head passes, around⟩

/-- A search is endless exactly when the walk comes back to a scope. -/
theorem find_endless_iff : frames.find scope name = .endless ↔ frames.Circles scope name := by
  constructor
  · exact circles_of_walk ∅ (by simp) (by simp)
  · intro circles
    exact circles.walk _

/-- A walk does not end exactly when it circles. -/
theorem not_ends_iff : ¬ frames.Ends scope name ↔ frames.Circles scope name := by
  constructor
  · intro never
    refine find_endless_iff.mp ?_
    by_contra finite
    exact never ⟨_, finite⟩
  · rintro circles ⟨steps, finite⟩
    exact finite (circles.walk steps)

/-- A walk from a frame leads to older ones as long as each frame extends an older one. -/
theorem older_of_passes (older : ∀ {number : Nat} {frame : Frame},
      frames.row[number]? = some frame → Scope.Below frame.parent number)
    {number : Nat} (reaches : Relation.TransGen (frames.Passes name) (some number) scope) :
    Scope.Below scope number := by
  induction reaches with
  | single passes =>
    obtain ⟨_, frame, ⟨⟩, stored, -, rfl⟩ := passes
    exact older stored
  | tail reaches passes inductionHypothesis =>
    obtain ⟨middle, frame, rfl, stored, -, rfl⟩ := passes
    exact (older stored).mono (Nat.le_of_lt (inductionHypothesis middle rfl))

/-- Where every frame extends an older one, no walk circles: each step would lower the
number. -/
theorem not_circles_of_older (older : ∀ {number : Nat} {frame : Frame},
      frames.row[number]? = some frame → Scope.Below frame.parent number) :
    ¬ frames.Circles scope name := by
  rintro ⟨turn, -, around⟩
  obtain ⟨_, ⟨number, -, rfl, -⟩, -⟩ := Relation.TransGen.head'_iff.mp around
  exact Nat.lt_irrefl number (older_of_passes older around number rfl)

end Frames

namespace Ledger

/-- Whatever was bound and released, on whatever scopes, the search for a name is endless
exactly when the walk is, and the walk ends exactly when it does not lead into a circle. It
always ends if each binding was made on a scope that was live at that moment, from whatever
scope it starts. -/
theorem walks_end_outside_circles (history : List Change) (scope : Scope) (name : String) :
    let ledger := start.changeAll history
    (ledger.frames.find scope name = .endless ↔ ¬ ledger.frames.Ends scope name) ∧
    (ledger.frames.Ends scope name ↔ ¬ ledger.frames.Circles scope name) ∧
    (start.Obeys Live history → ledger.frames.Ends scope name) := by
  intro ledger
  have ends : ledger.frames.Ends scope name ↔ ¬ ledger.frames.Circles scope name :=
    not_iff_comm.mp Frames.not_ends_iff |>.symm
  refine ⟨Frames.find_endless_iff.trans Frames.not_ends_iff.symm, ends, ?_⟩
  intro live
  have describes := Family.start_describes.run live
  exact ends.mpr (Frames.not_circles_of_older fun stored => describes.older stored)

/-- A frame is bound on a scope whose number was given out again, and released; the walk
from its old scope ends at once. -/
theorem walks_end_outside_circles_released :
    let sine : Value := .builtin (.unary .sin)
    let history : List Change := [.bind none "a" sine, .bind (some 0) "b" sine, .release 1,
      .bind (some 0) "c" sine, .bind (some 1) "d" sine, .release 2]
    let ledger := start.changeAll history
    start.Obeys Issued history ∧ start.Obeys Live history ∧ ledger.Issued (some 2) ∧
      ¬ ledger.Live (some 2) ∧ ledger.frames.Ends (some 2) "a" ∧
      ledger.frames.Ends (some 1) "b" := by
  intro sine history ledger
  have issued : start.Obeys Issued history := by
    simp [history, Obeys, Issued, start, change, Frames.bind, Frames.empty, Frames.size]
  have live : start.Obeys Live history :=
    ⟨Scope.below_none _, Scope.below_some (by decide), Scope.below_some (by decide),
      Scope.below_some (by decide), trivial⟩
  have released : ¬ ledger.Live (some 2) := fun inside => absurd (inside 2 rfl) (by decide)
  exact ⟨issued, live, .head _, released,
    (walks_end_outside_circles history (some 2) "a").2.2 live,
    (walks_end_outside_circles history (some 1) "b").2.2 live⟩

/-- A scope outlives its frame and is extended when its number is next to be given out. The
new frame extends itself, and the walk from it for a name that it does not bind has no
end. -/
theorem walk_endless_on_own_number :
    let sine : Value := .builtin (.unary .sin)
    let history : List Change := [.bind none "a" sine, .bind (some 0) "b" sine, .release 1,
      .bind (some 1) "c" sine]
    let ledger := start.changeAll history
    start.Obeys Issued history ∧ ledger.Issued (some 1) ∧
      ledger.frames.find (some 1) "d" = .endless ∧ ¬ ledger.frames.Ends (some 1) "d" := by
  intro sine history ledger
  have issued : start.Obeys Issued history := by
    simp [history, Obeys, Issued, start, change, Frames.bind, Frames.empty, Frames.size]
  have passes : ledger.frames.Passes "d" (some 1) (some 1) :=
    ⟨1, ⟨"c", sine, some 1⟩, rfl, rfl, by decide, rfl⟩
  have circles : ledger.frames.Circles (some 1) "d" := ⟨some 1, .refl, .single passes⟩
  exact ⟨issued, .head _, Frames.find_endless_iff.mpr circles, Frames.not_ends_iff.mpr circles⟩

end Ledger

end Timbre
