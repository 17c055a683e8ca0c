import Timbre.Proofs.LiveScopes

/-!
# Scopes are immutable

Frames are only ever added at the end and released from the end. A scope that was made
on a live one therefore stands for a fixed list of bindings, the innermost first: its own
binding in front of those that its parent stood for when it was made.

The numbers of released frames are given out again, so what a number stands for may
change. What a scope sees does not change for as long as its own frame is kept: all
frames on the way outward are older, and are kept with it. Frames that are added meanwhile
make no difference, whatever they extend.
-/

namespace Timbre

/-- A smaller number is below a bound. -/
theorem Scope.below_some {number bound : Nat} (less : number < bound) :
    Scope.Below (some number) bound := by
  rintro _ ⟨⟩
  exact less

/-- What was found, if anything was. -/
def Search.ofOption : Option Value → Search
  | some value => .bound value
  | none => .unbound

/-- What was found, or was not, has been found by a search that ended. -/
theorem Search.ofOption_ne_endless (found : Option Value) : ofOption found ≠ .endless := by
  cases found <;> simp [ofOption]

namespace Frames

/-- The walk outward from a scope comes to an end, with a value or without. -/
def Ends (frames : Frames) (scope : Scope) (name : String) : Prop :=
  ∃ steps, frames.walk name steps scope ≠ .endless

/-! ### What a scope sees -/

/-- A scope stands for bindings, the innermost first: that of its frame, and those of the
older scope that the frame extends. -/
inductive Sees (frames : Frames) : Scope → List (String × Value) → Prop where
  | empty : Sees frames none []
  | bound {number : Nat} {frame : Frame} {outer : List (String × Value)}
      (stored : frames.row[number]? = some frame) (older : Scope.Below frame.parent number)
      (rest : Sees frames frame.parent outer) :
      Sees frames (some number) ((frame.name, frame.value) :: outer)

variable {frames before after : Frames} {scope : Scope} {bindings : List (String × Value)}

/-- The walk outward finds the innermost binding of a name, if it may take more steps than
the number of its first frame. -/
theorem Sees.walk (sees : frames.Sees scope bindings) (name : String) (steps : Nat)
    (enough : Scope.Below scope steps) :
    frames.walk name (steps + 1) scope = .ofOption (bindings.lookup name) := by
  induction sees generalizing steps with
  | empty => rfl
  | @bound number frame outer stored older rest inductionHypothesis =>
    by_cases same : frame.name = name
    · simp [Frames.walk, stored, same, Search.ofOption]
    · -- The parent is older, so one step fewer is still more than its number.
      have bound : number < steps := enough number rfl
      obtain ⟨fewer, rfl⟩ : ∃ fewer, steps = fewer + 1 := ⟨steps - 1, by omega⟩
      have onward := inductionHypothesis fewer (older.mono (Nat.le_of_lt_succ bound))
      have other : (name == frame.name) = false := by simpa using Ne.symm same
      simpa [Frames.walk, stored, same, List.lookup_cons, other] using onward

/-- A scope that sees bindings is live. -/
theorem Sees.live (sees : frames.Sees scope bindings) : frames.Live scope := by
  cases sees with
  | empty => exact frames.live_none
  | bound stored older rest => exact Scope.below_some (Array.getElem?_eq_some_iff.mp stored).1

/-- A search in a scope finds what its bindings say. -/
theorem Sees.find (sees : frames.Sees scope bindings) (name : String) :
    frames.find scope name = .ofOption (bindings.lookup name) :=
  sees.walk name frames.size sees.live

/-- Every walk ends where a scope sees its bindings. -/
theorem Sees.ends (sees : frames.Sees scope bindings) (name : String) :
    frames.Ends scope name := by
  refine ⟨frames.size + 1, ?_⟩
  rw [sees.walk name frames.size sees.live]
  exact Search.ofOption_ne_endless _

/-- Only the frame of a scope and older ones matter to what the scope sees. -/
theorem Sees.keep (sees : before.Sees scope bindings)
    (same : ∀ number ∈ scope, ∀ older ≤ number, after.row[older]? = before.row[older]?) :
    after.Sees scope bindings := by
  induction sees with
  | empty => exact .empty
  | @bound number frame outer stored older rest inductionHypothesis =>
    have kept := same number rfl
    refine .bound ((kept number (Nat.le_refl _)).trans stored) older (inductionHypothesis ?_)
    intro parent member lower below
    exact kept lower (Nat.le_of_lt (Nat.lt_of_le_of_lt below (older parent member)))

/-! ### Frames that stay -/

/-- Adding a frame leaves the older frames as they are. -/
theorem bind_older {number : Nat} (inside : number < frames.size) (parent : Scope) (name : String)
    (value : Value) : (frames.bind parent name value).2.row[number]? = frames.row[number]? := by
  have old : number ≠ frames.row.size := Nat.ne_of_lt inside
  simp [Frames.bind, Array.getElem?_push, old]

/-- Releasing frames leaves the kept ones as they are. -/
theorem release_kept {number kept : Nat} (inside : number < kept) (frames : Frames) :
    (frames.release kept).row[number]? = frames.row[number]? := by
  simp [release, ← Array.getElem?_toList, inside]

/-- Binding a name adds one frame. -/
theorem size_bind (frames : Frames) (parent : Scope) (name : String) (value : Value) :
    (frames.bind parent name value).2.size = frames.size + 1 := by
  simp [Frames.bind, size]

/-- Releasing frames leaves at most as many as are kept. -/
theorem size_release (frames : Frames) (kept : Nat) :
    (frames.release kept).size = min kept frames.size := by
  simp [release, size]

/-- A new frame stands for one more binding. -/
theorem Sees.bind (sees : frames.Sees scope bindings) (name : String) (value : Value) :
    (frames.bind scope name value).2.Sees (some frames.size) ((name, value) :: bindings) := by
  refine .bound (frames.bind_stored scope name value) sees.live (sees.keep ?_)
  intro number member older below
  exact bind_older (Nat.lt_of_le_of_lt below (sees.live number member)) scope name value

end Frames

/-! ### Histories -/

/-- Something that is done to frames. -/
inductive Change where
  | bind (parent : Scope) (name : String) (value : Value)
  | release (kept : Nat)

/-- Frames, and the scopes that were given out so far. -/
structure Ledger where
  frames : Frames
  issued : List Scope

namespace Ledger

/-- No frames; the empty scope is there from the beginning. -/
def start : Ledger := ⟨.empty, [none]⟩

/-- The ledger after a change. -/
def change (ledger : Ledger) : Change → Ledger
  | .bind parent name value =>
      let (scope, frames) := ledger.frames.bind parent name value
      ⟨frames, scope :: ledger.issued⟩
  | .release kept => { ledger with frames := ledger.frames.release kept }

/-- The ledger after changes in order. -/
def changeAll (ledger : Ledger) (history : List Change) : Ledger := history.foldl change ledger

/-- The parents of all bindings are allowed, each at its moment. -/
def Obeys (allowed : Ledger → Scope → Prop) : Ledger → List Change → Prop
  | _, [] => True
  | ledger, .bind parent name value :: rest =>
      allowed ledger parent ∧ Obeys allowed (ledger.change (.bind parent name value)) rest
  | ledger, .release kept :: rest => Obeys allowed (ledger.change (.release kept)) rest

/-- A scope that was given out, whether or not its frame is still there. -/
def Issued (ledger : Ledger) (scope : Scope) : Prop := scope ∈ ledger.issued

/-- A scope that is empty or has a frame at this moment. -/
def Live (ledger : Ledger) (scope : Scope) : Prop := ledger.frames.Live scope

/-- The frame of a number and the older ones stay while changes release newer ones only,
and add frames on whatever scopes. -/
theorem changeAll_older {number : Nat} (history : List Change) {ledger : Ledger}
    (inside : number < ledger.frames.size)
    (keeps : ∀ kept, .release kept ∈ history → number < kept) :
    ∀ older ≤ number,
      (ledger.changeAll history).frames.row[older]? = ledger.frames.row[older]? := by
  induction history generalizing ledger with
  | nil => exact fun older below => rfl
  | cons first rest inductionHypothesis =>
    intro older below
    have inFront : older < ledger.frames.size := Nat.lt_of_le_of_lt below inside
    have later : ∀ kept, .release kept ∈ rest → number < kept :=
      fun kept member => keeps kept (.tail _ member)
    cases first with
    | bind parent name value =>
      have grown : number < (ledger.change (.bind parent name value)).frames.size :=
        Nat.lt_of_lt_of_eq (Nat.lt_succ_of_lt inside)
          (ledger.frames.size_bind parent name value).symm
      exact (inductionHypothesis grown later older below).trans
        (Frames.bind_older inFront parent name value)
    | release kept =>
      have remains : number < kept := keeps kept (.head _)
      have inRest : number < (ledger.change (.release kept)).frames.size :=
        Nat.lt_of_lt_of_eq (Nat.lt_min.mpr ⟨remains, inside⟩)
          (ledger.frames.size_release kept).symm
      exact (inductionHypothesis inRest later older below).trans
        (Frames.release_kept (Nat.lt_of_le_of_lt below remains) ledger.frames)

end Ledger

/-! ### Families of immutable scopes -/

/-- Scopes without frames: what the scope of each number was built from, the innermost
binding first. Nothing is shared and nothing refers to anything else. -/
structure Family where
  chains : List (List (String × Value))

namespace Family

/-- The bindings that a scope was built from. -/
def bindings (family : Family) : Scope → List (String × Value)
  | none => []
  | some number => family.chains[number]?.getD []

/-- The scopes after a change. A new one has its own copy of the bindings of its parent. -/
def change (family : Family) : Change → Family
  | .bind parent name value => ⟨family.chains ++ [(name, value) :: family.bindings parent]⟩
  | .release kept => ⟨family.chains.take kept⟩

/-- The scopes after changes in order, beginning with none. -/
def after (history : List Change) : Family := history.foldl change ⟨[]⟩

/-- There are as many scopes as frames, and each live scope of the frames sees the bindings
that it was built from. -/
structure Describes (family : Family) (frames : Frames) : Prop where
  size : family.chains.length = frames.size
  sees : ∀ {scope : Scope}, frames.Live scope → frames.Sees scope (family.bindings scope)

variable {family : Family} {frames : Frames}

/-- A new scope in a live one sees its binding and all that the parent sees; the older
scopes see what they saw. -/
theorem Describes.bind (describes : family.Describes frames) {parent : Scope}
    (live : frames.Live parent) (name : String) (value : Value) :
    (family.change (.bind parent name value)).Describes (frames.bind parent name value).2 where
  size := by simp [change, describes.size, Frames.size_bind]
  sees := by
    intro scope inside
    cases scope with
    | none => exact .empty
    | some number =>
      have bound : number < frames.size + 1 := by
        simpa only [Frames.size_bind] using inside number rfl
      rcases Nat.lt_succ_iff_lt_or_eq.mp bound with old | rfl
      · have unchanged : (family.change (.bind parent name value)).bindings (some number) =
            family.bindings (some number) := by
          simp [change, bindings, List.getElem?_append_left (describes.size ▸ old)]
        rw [unchanged]
        refine (describes.sees (Scope.below_some old)).keep ?_
        rintro _ ⟨⟩ older below
        exact Frames.bind_older (Nat.lt_of_le_of_lt below old) parent name value
      · have newest : (family.change (.bind parent name value)).bindings (some frames.size) =
            (name, value) :: family.bindings parent := by
          simp [change, bindings, ← describes.size]
        rw [newest]
        exact (describes.sees live).bind name value

/-- The scopes that are kept see what they saw: their frames extend older ones, which
are kept as well. -/
theorem Describes.release (describes : family.Describes frames) (kept : Nat) :
    (family.change (.release kept)).Describes (frames.release kept) where
  size := by simp [change, describes.size, Frames.size_release]
  sees := by
    intro scope inside
    cases scope with
    | none => exact .empty
    | some number =>
      have bound : number < min kept frames.size := by
        simpa only [Frames.size_release] using inside number rfl
      obtain ⟨remains, old⟩ := Nat.lt_min.mp bound
      have unchanged : (family.change (.release kept)).bindings (some number) =
          family.bindings (some number) := by
        simp [change, bindings, remains]
      rw [unchanged]
      refine (describes.sees (Scope.below_some old)).keep ?_
      rintro _ ⟨⟩ older below
      exact Frames.release_kept (Nat.lt_of_le_of_lt below remains) frames

/-- While bindings are made on live scopes only, the frames are described by the scopes
that the same changes build. -/
theorem Describes.run {ledger : Ledger} (describes : family.Describes ledger.frames)
    {history : List Change} (live : ledger.Obeys Ledger.Live history) :
    (history.foldl change family).Describes (ledger.changeAll history).frames := by
  induction history generalizing family ledger with
  | nil => exact describes
  | cons first rest inductionHypothesis =>
    cases first with
    | bind parent name value =>
      have next : (family.change (.bind parent name value)).Describes
          (ledger.change (.bind parent name value)).frames := describes.bind live.1 name value
      exact inductionHypothesis next live.2
    | release kept =>
      have next : (family.change (.release kept)).Describes
          (ledger.change (.release kept)).frames := describes.release kept
      exact inductionHypothesis next live

/-- Before any change there are neither scopes nor frames. -/
theorem start_describes : (Family.mk []).Describes Ledger.start.frames where
  size := rfl
  sees := by
    intro scope inside
    cases scope with
    | none => exact .empty
    | some number => exact absurd (inside number rfl) (Nat.not_lt_zero number)

/-- Described frames extend older ones only. -/
theorem Describes.older (describes : family.Describes frames) {number : Nat} {frame : Frame}
    (stored : frames.row[number]? = some frame) : Scope.Below frame.parent number := by
  have live : frames.Live (some number) :=
    Scope.below_some (Array.getElem?_eq_some_iff.mp stored).1
  have sees := describes.sees live
  -- The bindings must be arbitrary before the cases of `Sees` can be told apart.
  generalize family.bindings (some number) = bindings at sees
  cases sees with
  | bound storedToo older rest =>
    cases Option.some.inj (stored.symm.trans storedToo)
    exact older

end Family

namespace Ledger

/-- While bindings are made on live scopes only, each frame extends an older one. A live scope
then stands for the bindings that it was built from: looking for a name in it comes to an
end and gives the innermost of them. Nothing that keeps its frame changes this, whatever
scopes are extended later. -/
theorem scopes_immutable {history : List Change} (live : start.Obeys Live history) :
    let ledger := start.changeAll history
    (∀ number frame, ledger.frames.row[number]? = some frame →
      Scope.Below frame.parent number) ∧
    ∀ scope, ledger.Live scope → ∀ name,
      ledger.frames.Ends scope name ∧
      ledger.frames.find scope name =
        .ofOption (((Family.after history).bindings scope).lookup name) ∧
      ∀ later, (∀ kept, .release kept ∈ later → Scope.Below scope kept) →
        (ledger.changeAll later).frames.find scope name = ledger.frames.find scope name := by
  intro ledger
  have describes := Family.start_describes.run live
  refine ⟨fun number frame stored => describes.older stored, ?_⟩
  intro scope inside name
  have sees := describes.sees inside
  refine ⟨sees.ends name, sees.find name, ?_⟩
  intro later keeps
  have seesLater : (ledger.changeAll later).frames.Sees scope _ := sees.keep fun number member =>
    changeAll_older later (inside number member) fun kept listed => keeps kept listed number member
  rw [seesLater.find name, sees.find name]

/-- A number is given out a second time, for a sibling of the frame that was released. The
last scope sees its own binding, which hides the one below it, and not that of a sibling.
Releases of newer frames and a binding on a scope that was never there do not disturb it. -/
theorem scopes_immutable_reused :
    let sine : Value := .builtin (.unary .sin)
    let cosine : Value := .builtin (.unary .cos)
    let history : List Change := [.bind none "a" sine, .bind (some 0) "b" sine, .release 1,
      .bind (some 0) "c" sine, .bind (some 0) "b" sine, .bind (some 1) "c" cosine]
    let later : List Change := [.bind (some 3) "a" cosine, .release 4, .bind (some 9) "c" sine]
    let ledger := start.changeAll history
    start.Obeys Live history ∧ ledger.Live (some 3) ∧
      ledger.frames.find (some 3) "c" = .bound cosine ∧
      ledger.frames.find (some 3) "a" = .bound sine ∧
      ledger.frames.find (some 3) "b" = .unbound ∧
      (∀ name, (ledger.changeAll later).frames.find (some 3) name =
        ledger.frames.find (some 3) name) := by
  intro sine cosine history later ledger
  have live : start.Obeys Live history :=
    ⟨Scope.below_none _, Scope.below_some (by decide), Scope.below_some (by decide),
      Scope.below_some (by decide), Scope.below_some (by decide), trivial⟩
  have inside : ledger.Live (some 3) := Scope.below_some (by decide)
  obtain ⟨-, sees⟩ := scopes_immutable live
  refine ⟨live, inside, (sees _ inside "c").2.1, (sees _ inside "a").2.1, (sees _ inside "b").2.1,
    fun name => (sees _ inside name).2.2 later ?_⟩
  intro kept released
  simp only [later, List.mem_cons, reduceCtorEq, Change.release.injEq, List.not_mem_nil, or_false,
    false_or] at released
  exact Scope.below_some (by omega)

end Ledger

end Timbre
