import Timbre.Value

/-!
# Frames

Bindings are kept in one growing row of frames, each with a name, a value and
the scope it extends. Binding a name appends a frame and never changes one, so
scopes can share their outer frames.

Releasing frames shortens the row. A scope whose frame was released sees nothing,
or whatever frame has received its number since. Such a frame may extend the
very scope that reached it, and then the walk from frame to frame has no end.
That outcome is a result of its own here. A walk that does end visits each frame
at most once, so more steps than there are frames show that it does not.
-/

namespace Timbre

/-- One binding and the scope it extends. -/
structure Frame where
  name : String
  value : Value
  parent : Scope
  deriving Repr

/-- The row of all frames. -/
structure Frames where
  row : Array Frame
  deriving Repr

/-- What becomes of looking for a name. -/
inductive Search where
  | bound (value : Value)
  | unbound
  /-- The walk goes round in a circle. -/
  | endless
  deriving Repr

namespace Frames

/-- No frames. -/
def empty : Frames := ⟨#[]⟩

/-- The number of frames. -/
def size (frames : Frames) : Nat := frames.row.size

/-- The frames with one more, and the scope that it makes. -/
def bind (frames : Frames) (parent : Scope) (name : String) (value : Value) : Scope × Frames :=
  (some frames.size, ⟨frames.row.push ⟨name, value, parent⟩⟩)

/-- Keep the first `kept` frames. -/
def release (frames : Frames) (kept : Nat) : Frames := ⟨frames.row.take kept⟩

/-- Walk outward from a scope, at most `steps` steps. -/
def walk (frames : Frames) (name : String) : Nat → Scope → Search
  | 0, _ => .endless
  | _ + 1, none => .unbound
  | steps + 1, some number =>
      match frames.row[number]? with
      | none => .unbound
      | some frame =>
          if frame.name = name then .bound frame.value
          else walk frames name steps frame.parent

/-- The innermost binding of a name that a scope sees. -/
def find (frames : Frames) (scope : Scope) (name : String) : Search :=
  frames.walk name (frames.size + 1) scope

end Frames

end Timbre
