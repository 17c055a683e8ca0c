import Timbre.Proofs.Inheritance

/-!
# Evaluation only adds frames

Whether a piece of work succeeds, fails or spends its budget, the frames that it
found are still there when it stops: unchanged, in front, and under the same
numbers. A sequence of work inherits this from its parts, so the evaluator
has it for every budget, every term and every scope. Scopes whose frames were
released are included; nothing is assumed about what they reach.
-/

namespace Timbre

/-- What stands in an initial part of a list stands there in the whole list. -/
theorem stored_of_initial {α : Type} {part whole : List α} (initial : part <+: whole)
    {number : Nat} {item : α} (stored : part[number]? = some item) :
    whole[number]? = some item := by
  obtain ⟨inside, rfl⟩ := List.getElem?_eq_some_iff.mp stored
  exact List.prefix_iff_getElem?.mp initial number inside

/-- The frames of `before` are the first frames of `after`. -/
def Frames.Extends (before after : Frames) : Prop := before.row.toList <+: after.row.toList

namespace Frames

variable {before middle after : Frames}

/-- Frames extend themselves. -/
theorem extends_refl (frames : Frames) : frames.Extends frames := List.prefix_rfl

/-- What extends an extension extends the first. -/
theorem Extends.trans (first : before.Extends middle) (second : middle.Extends after) :
    before.Extends after :=
  List.IsPrefix.trans first second

/-- A frame keeps its number while others are added. -/
theorem Extends.stored {number : Nat} {frame : Frame} (extended : before.Extends after)
    (stored : before.row[number]? = some frame) : after.row[number]? = some frame := by
  rw [← Array.getElem?_toList] at stored ⊢
  exact stored_of_initial extended stored

/-- Binding a name extends the frames. -/
theorem extends_bind (frames : Frames) (parent : Scope) (name : String) (value : Value) :
    frames.Extends (frames.bind parent name value).2 := by
  simp [Extends, bind]

/-- The frame that `bind` adds is found under the number that it returns. -/
theorem bind_stored (frames : Frames) (parent : Scope) (name : String) (value : Value) :
    (frames.bind parent name value).2.row[frames.size]? = some ⟨name, value, parent⟩ := by
  simp [bind, size]

/-- Release undoes what was added after the kept frames. -/
theorem Extends.release_size (extended : before.Extends after) :
    after.release before.size = before := by
  obtain ⟨added, same⟩ := extended
  have taken : (after.row.take before.row.size).toList = before.row.toList := by
    simp [← same]
  simp only [release, size]
  rw [Array.toList_inj.mp taken]

end Frames

namespace Eval

variable {α β : Type}

/-! ### How work runs -/

/-- A change of the frames succeeds. -/
theorem run_modify (change : Frames → Frames) (frames : Frames) :
    (modify change : Eval PUnit).run frames = (.ok ⟨⟩, change frames) := rfl

/-- The second part runs on the frames that the first one leaves, and only when
the first one succeeds. -/
theorem run_bind (work : Eval α) (next : α → Eval β) (frames : Frames) :
    (work >>= next).run frames =
      match work.run frames with
      | (.ok value, after) => (next value).run after
      | (.error reason, after) => (.error reason, after) := by
  have unfolded : (work >>= next).run frames =
      (fun outcome => ExceptT.bindCont next outcome.1 outcome.2) (work.run frames) := rfl
  rw [unfolded]
  cases (work.run frames : Except Failure α × Frames) with
  | mk result after => cases result <;> rfl

/-! ### Work that only adds frames -/

/-- The frames that work finds are still there when it stops, however it ends. -/
def Grows (work : Eval α) : Prop :=
  ∀ frames : Frames, frames.Extends (work.run frames).2

/-- Returning a value leaves the frames. -/
theorem grows_pure (value : α) : (pure value : Eval α).Grows :=
  fun frames => frames.extends_refl

/-- Failing leaves the frames. -/
theorem grows_throw (reason : Failure) : (throw reason : Eval α).Grows :=
  fun frames => frames.extends_refl

/-- Raising a fault leaves the frames. -/
theorem grows_raise (reason : Fault) : (raise reason : Eval α).Grows :=
  grows_throw _

/-- Binding a name only adds a frame. -/
theorem grows_bindName (scope : Scope) (name : String) (value : Value) :
    (bindName scope name value).Grows :=
  fun frames => frames.extends_bind scope name value

/-- A sequence of growing parts grows. -/
theorem Grows.bind {work : Eval α} {next : α → Eval β} (first : work.Grows)
    (second : ∀ value, (next value).Grows) : (work >>= next).Grows := by
  intro frames
  have start := first frames
  rw [run_bind]
  cases outcome : (work.run frames : Except Failure α × Frames) with
  | mk result after =>
    rw [outcome] at start
    cases result with
    | error reason => exact start
    | ok value => exact start.trans (second value after)

/-- The rules grow if the evaluations that they make do. -/
theorem grows_inherited : Inherited fun _ work => work.Grows where
  pure := grows_pure
  raise := fun reason _ => grows_raise reason
  unfinished := grows_throw _
  get := fun frames => frames.extends_refl
  bindName := grows_bindName
  bind := Grows.bind

/-! ### The rules for one node -/

section Rules

variable {evaluate : Term → Scope → Eval Value}
  (grows : ∀ term scope, (evaluate term scope).Grows)

include grows

/-- Asking for a number only adds frames. -/
theorem grows_number (term : Term) (scope : Scope) (context : String) (line : Nat) :
    (number evaluate term scope context line).Grows :=
  grows_inherited.number grows term scope context line

/-- An application only adds frames. -/
theorem grows_apply (function : Value) (argument : Term) (scope : Scope) (line : Nat) :
    (apply evaluate function argument scope line).Grows :=
  grows_inherited.apply grows function argument scope line

/-- Binding definitions only adds frames. -/
theorem grows_bindAll (definitions : List Definition) (scope : Scope) :
    (bindAll evaluate definitions scope).Grows :=
  grows_inherited.bindAll grows definitions scope

/-- The choice of a clause only adds frames. -/
theorem grows_choose (value : Int) (scope : Scope) (clauses : List Clause) :
    (choose evaluate value scope clauses).Grows :=
  grows_inherited.choose grows value scope clauses

end Rules

end Eval

/-- Evaluation only adds frames. -/
theorem grows_evaluate (program : Program) (budget : Nat) (term : Term) (scope : Scope) :
    (evaluate program budget term scope).Grows :=
  Eval.grows_inherited.evaluate program budget term scope

end Timbre
