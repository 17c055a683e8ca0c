import Timbre.Load
import Timbre.Machine

/-!
# Sessions

A session holds the program that is being played while its source text changes.
A new text replaces the program only if it can be loaded; otherwise the session
keeps what it has. Installations are numbered, so that two looks at a session
can be told to have seen the same installation or different ones.

Loading does not look at the session, and installing does not fail. Several
reloads may therefore overlap in any order, and the last installation counts.
-/

namespace Timbre

/-- The program being played and the number of installations before it. -/
structure Session where
  loaded : Loaded
  revision : Nat

namespace Session

/-- Replace the program. -/
def install (session : Session) (loaded : Loaded) : Session :=
  ⟨loaded, session.revision + 1⟩

/-- Begin a session. -/
def begin (source : String) : Logged (Except LoadError Session) :=
  let attempt := load source
  ⟨attempt.value.map fun loaded => ⟨loaded, 0⟩, attempt.log⟩

/-- Load a source text and replace the program by it. A text that cannot be
loaded leaves the session as it is. -/
def reload (session : Session) (source : String) :
    Logged (Except LoadError Unit) × Session :=
  let attempt := load source
  match attempt.value with
  | .error reason =>
      let refusal := "reload refused, keeping previous program: " ++ reason.message
      (⟨.error reason, attempt.log ++ [⟨.error, refusal⟩]⟩, session)
  | .ok loaded =>
      (⟨.ok (), attempt.log ++ [⟨.debug, "program reloaded"⟩]⟩, session.install loaded)

end Session

end Timbre
