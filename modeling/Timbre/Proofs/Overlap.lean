import Timbre.Session
import Timbre.Proofs.Appending
import Timbre.Proofs.Loading

/-!
# Overlapping reloads

Several threads use one session. A reload takes two steps: the text is loaded, which
does not look at the session, and what was loaded is installed, which happens at one
moment. Between the two any number of other reloads may load and install, in any
order, and readers may take the program or the diagnostics. A reload whose text is
refused has no second step.

What was installed is never changed, and a reader that takes the program gets hold
of one installation. The law is that at every moment the session shows one
installation whole: the program of a text that can be loaded and the diagnostics of
that program. The last installation counts, whichever text was loaded last.
-/

namespace Timbre

/-- A program and diagnostics that one text gives. -/
structure Loaded.From (loaded : Loaded) (source : String) : Prop where
  accepted : (load source).value = .ok loaded
  parsed : Program.ofSource source = .ok loaded.program
  diagnosed : loaded.diagnostics = loaded.program.diagnostics
  clean : Clean loaded.diagnostics
  distinct : loaded.program.Distinct

/-- What loading a text gives comes from the text. -/
theorem Loaded.from_load {loaded : Loaded} {source : String}
    (accepted : (load source).value = .ok loaded) : loaded.From source := by
  obtain ⟨parsed, diagnosed, distinct⟩ := load_eq_ok.mp accepted
  refine ⟨accepted, parsed, diagnosed, ?_, distinct⟩
  rw [diagnosed]
  exact Program.diagnostics_clean.mpr distinct

/-- A session in use by several threads. -/
structure Stage where
  session : Session
  /-- Everything that was installed, in order. -/
  installed : List Loaded
  /-- What reloads have loaded and not yet installed. -/
  waiting : List Loaded
  /-- For each program that was taken, the number of its installation. -/
  taken : List Nat
  /-- The diagnostics that were given out. -/
  reported : List (List Diagnostic)

/-- What a thread does at one moment. -/
inductive Action where
  | load (source : String)
  | install (loaded : Loaded)
  | current
  | diagnostics

namespace Stage

/-- A session that nobody has used yet. -/
def opening (session : Session) : Stage := ⟨session, [session.loaded], [], [], []⟩

/-- The program that a reader has taken, by the number of the reading. -/
def snapshot (stage : Stage) (number : Nat) : Option Program :=
  stage.taken[number]?.bind fun revision => stage.installed[revision]?.map (·.program)

/-- One step of one thread. Of what waits to be installed any item may be next. -/
inductive Step : Stage → Action → Stage → Prop where
  | refused {stage : Stage} {source : String} {reason : LoadError}
      (failed : (Timbre.load source).value = .error reason) : Step stage (.load source) stage
  | loaded {stage : Stage} {source : String} {loaded : Loaded}
      (accepted : (Timbre.load source).value = .ok loaded) :
      Step stage (.load source) { stage with waiting := loaded :: stage.waiting }
  | installed {stage : Stage} {before after : List Loaded} {loaded : Loaded}
      (next : stage.waiting = before ++ loaded :: after) :
      Step stage (.install loaded)
        { stage with
          session := stage.session.install loaded
          installed := stage.installed ++ [loaded]
          waiting := before ++ after }
  | current {stage : Stage} :
      Step stage .current { stage with taken := stage.taken ++ [stage.session.revision] }
  | diagnostics {stage : Stage} :
      Step stage .diagnostics
        { stage with reported := stage.reported ++ [stage.session.loaded.diagnostics] }

/-- Steps one after another, whichever threads they belong to. -/
inductive Run : Stage → List Action → Stage → Prop where
  | done (stage : Stage) : Run stage [] stage
  | step {first middle last : Stage} {action : Action} {actions : List Action}
      (head : Step first action middle) (tail : Run middle actions last) :
      Run first (action :: actions) last

/-! ### What every step keeps -/

/-- What waits and what was installed comes from known texts, and the session shows
the last installation. -/
structure Sound (known : String → Prop) (stage : Stage) : Prop where
  waiting : ∀ loaded ∈ stage.waiting, ∃ source, known source ∧ loaded.From source
  installed : ∀ loaded ∈ stage.installed, ∃ source, known source ∧ loaded.From source
  shown : stage.installed[stage.session.revision]? = some stage.session.loaded
  last : stage.session.revision + 1 = stage.installed.length

variable {known : String → Prop} {stage next : Stage} {action : Action} {actions : List Action}

/-- A step keeps a session sound, if the texts that are loaded are known. -/
theorem Step.sound (step : Step stage action next) (sound : stage.Sound known)
    (listed : ∀ source, action = .load source → known source) : next.Sound known := by
  cases step with
  | refused failed => exact sound
  | @loaded source loaded accepted =>
    refine ⟨?_, sound.installed, sound.shown, sound.last⟩
    intro other member
    obtain rfl | member := List.mem_cons.mp member
    · exact ⟨source, listed source rfl, Loaded.from_load accepted⟩
    · exact sound.waiting other member
  | @installed before after loaded next =>
    have origin := sound.waiting loaded (by simp [next])
    refine ⟨?_, ?_, ?_, ?_⟩
    · intro other member
      apply sound.waiting
      rw [next]
      simp only [List.mem_append, List.mem_cons] at member ⊢
      exact member.imp_right .inr
    · intro other member
      obtain member | member := List.mem_append.mp member
      · exact sound.installed other member
      · rw [List.mem_singleton.mp member]
        exact origin
    · simp [Session.install, sound.last]
    · simp [Session.install, sound.last]
  | current => exact ⟨sound.waiting, sound.installed, sound.shown, sound.last⟩
  | diagnostics => exact ⟨sound.waiting, sound.installed, sound.shown, sound.last⟩

/-- Steps one after another keep a session sound. -/
theorem Run.sound (run : Run stage actions next) (sound : stage.Sound known)
    (listed : ∀ source, .load source ∈ actions → known source) : next.Sound known := by
  induction run with
  | done stage => exact sound
  | step head tail inductionHypothesis =>
    apply inductionHypothesis
    · refine head.sound sound ?_
      rintro source rfl
      exact listed source (by simp)
    · intro source member
      exact listed source (by simp [member])

/-- What was installed and what was taken stays, under the same numbers. -/
def Extends (before after : Stage) : Prop :=
  before.installed <+: after.installed ∧ before.taken <+: after.taken

/-- A step takes back nothing that was installed or taken. -/
theorem Step.extends (step : Step stage action next) : stage.Extends next := by
  cases step with
  | refused failed => exact ⟨List.prefix_rfl, List.prefix_rfl⟩
  | loaded accepted => exact ⟨List.prefix_rfl, List.prefix_rfl⟩
  | installed next => exact ⟨List.prefix_append .., List.prefix_rfl⟩
  | current => exact ⟨List.prefix_rfl, List.prefix_append ..⟩
  | diagnostics => exact ⟨List.prefix_rfl, List.prefix_rfl⟩

/-- Steps one after another take nothing back. -/
theorem Run.extends (run : Run stage actions next) : stage.Extends next := by
  induction run with
  | done stage => exact ⟨List.prefix_rfl, List.prefix_rfl⟩
  | step head tail inductionHypothesis =>
    obtain ⟨installed, taken⟩ := head.extends
    exact ⟨installed.trans inductionHypothesis.1, taken.trans inductionHypothesis.2⟩

/-- A program that was taken stays the same. -/
theorem Extends.snapshot (extended : stage.Extends next) {number : Nat} {program : Program}
    (held : stage.snapshot number = some program) : next.snapshot number = some program := by
  obtain ⟨revision, listed, stored⟩ := Option.bind_eq_some_iff.mp held
  obtain ⟨loaded, found, same⟩ := Option.map_eq_some_iff.mp stored
  refine Option.bind_eq_some_iff.mpr ⟨revision, ?_, Option.map_eq_some_iff.mpr ⟨loaded, ?_, same⟩⟩
  · exact stored_of_initial extended.2 listed
  · exact stored_of_initial extended.1 found

/-! ### The last installation -/

/-- What is installed last, where `initial` was installed before. -/
def lastInstalled (initial : Loaded) : List Action → Loaded
  | [] => initial
  | .install loaded :: rest => lastInstalled loaded rest
  | _ :: rest => lastInstalled initial rest

/-- After a run the session shows what was installed last. -/
theorem Run.session_loaded (run : Run stage actions next) :
    next.session.loaded = lastInstalled stage.session.loaded actions := by
  induction run with
  | done stage => rfl
  | step head tail inductionHypothesis =>
    rw [inductionHypothesis]
    cases head <;> rfl

/-! ### Reloading without interruption -/

/-- The steps of one reload. A text that is refused is not followed by an
installation. -/
def reloading (source : String) : List Action :=
  match (Timbre.load source).value with
  | .ok loaded => [.load source, .install loaded]
  | .error _ => [.load source]

/-- The steps of one reload, without another thread between them, have the effect of
reloading. -/
theorem run_reloading (stage : Stage) (source : String) :
    ∃ next, stage.Run (reloading source) next ∧
      next.session = (stage.session.reload source).2 := by
  unfold reloading
  cases attempt : (Timbre.load source).value with
  | error reason =>
    refine ⟨stage, .step (.refused attempt) (.done stage), ?_⟩
    simp only [Session.reload, attempt]
  | ok loaded =>
    let ready : Stage := { stage with waiting := loaded :: stage.waiting }
    have next : ready.waiting = [] ++ loaded :: stage.waiting := rfl
    refine ⟨_, .step (.loaded attempt) (.step (.installed next) (.done _)), ?_⟩
    simp only [Session.reload, attempt]

/-! ### The law -/

/-- A session that has begun is sound: it shows the text that it began with. -/
theorem opening_sound {source : String} {session : Session}
    (begun : (Session.begin source).value = .ok session) (listed : known source) :
    (opening session).Sound known := by
  cases attempt : (Timbre.load source).value with
  | error reason =>
    simp only [Session.begin, attempt] at begun
    cases begun
  | ok loaded =>
    simp only [Session.begin, attempt] at begun
    cases begun
    refine ⟨by simp [opening], ?_, rfl, rfl⟩
    intro other member
    rw [List.mem_singleton.mp member]
    exact ⟨source, listed, Loaded.from_load attempt⟩

/-- A sound session shows a program and diagnostics of one known text. -/
theorem Sound.session_from (sound : stage.Sound known) :
    ∃ source, known source ∧ stage.session.loaded.From source :=
  sound.installed _ (List.mem_of_getElem? sound.shown)

/-- A reader that takes the program takes the one that the session shows. -/
theorem Sound.snapshot_current (sound : stage.Sound known) (step : Step stage .current next) :
    next.snapshot stage.taken.length = some stage.session.loaded.program := by
  cases step
  simp [snapshot, sound.shown]

/-- What a program that was taken answers to a call. -/
def answer (stage : Stage) (number budget : Nat) (name : String) (frequency time : Float) :
    Option (Except Failure Float) :=
  (stage.snapshot number).map fun program => program.call budget name frequency time

/-- A session that was begun and is then used in any order of steps shows one
installation whole, from a text that can be loaded, and it is the last one. A refused
text changes nothing, and a report is about the program shown. A program that is taken
is the one shown at that moment, and answers alike whatever happens later. The
steps of a reload, if nothing comes between them, do what reloading does. -/
theorem overlapping_reloads (source : String) (session : Session)
    (begun : (Session.begin source).value = .ok session) (actions : List Action) (stage : Stage)
    (run : (opening session).Run actions stage) :
    (∃ text, (text = source ∨ .load text ∈ actions) ∧ stage.session.loaded.From text) ∧
      stage.session.loaded = lastInstalled session.loaded actions ∧
      (∀ text reason next, (Timbre.load text).value = .error reason →
        stage.Step (.load text) next → next = stage) ∧
      (∀ next, stage.Step .diagnostics next →
        next.reported = stage.reported ++ [stage.session.loaded.program.diagnostics]) ∧
      (∀ next later last, stage.Step .current next → next.Run later last →
        last.snapshot stage.taken.length = some stage.session.loaded.program ∧
          ∀ budget name frequency time,
            last.answer stage.taken.length budget name frequency time =
              some (stage.session.loaded.program.call budget name frequency time)) ∧
      ∀ text, ∃ next, stage.Run (reloading text) next ∧
        next.session = (stage.session.reload text).2 := by
  have sound : stage.Sound fun text => text = source ∨ .load text ∈ actions :=
    run.sound (opening_sound begun (.inl rfl)) fun text member => .inr member
  obtain ⟨text, listed, origin⟩ := sound.session_from
  refine ⟨⟨text, listed, origin⟩, run.session_loaded, ?_, ?_, ?_, stage.run_reloading⟩
  · intro text reason next failed step
    cases step with
    | refused failed' => rfl
    | loaded accepted =>
      rw [failed] at accepted
      cases accepted
  · intro next step
    cases step
    rw [origin.diagnosed]
  · intro next later last step rest
    have held := rest.extends.snapshot (sound.snapshot_current step)
    refine ⟨held, fun budget name frequency time => ?_⟩
    rw [answer, held, Option.map_some]

/-- Two reloads overlap, and the text that was loaded first is installed last. The
program that was taken before either is installed stays the first one. -/
theorem overlapping_reloads_crossing :
    ∃ (first second third : Loaded) (ready taken last : Stage),
      (Session.begin "a = x").value = .ok ⟨first, 0⟩ ∧
      (opening ⟨first, 0⟩).Run [.load "b = x", .load "c = x"] ready ∧
      ready.Step .current taken ∧
      taken.Run [.install third, .load "(", .install second] last ∧
      (opening ⟨first, 0⟩).Run [.load "b = x", .load "c = x", .current, .install third,
        .load "(", .install second] last ∧
      first.program ≠ second.program ∧ last.session.loaded = second ∧
      last.snapshot 0 = some first.program := by
  let program (name : String) := Program.ofStatements [.definition ⟨name, .identifier "x" 1, 1⟩]
  let holding (name : String) : Loaded := ⟨program name, (program name).diagnostics⟩
  have accepted (source name : String) (lexed : tokenize source =
      .ok [⟨.identifier name, ⟨1, 1⟩⟩, ⟨.mark .assign, ⟨1, 3⟩⟩, ⟨.identifier "x", ⟨1, 5⟩⟩]) :
      (Timbre.load source).value = .ok (holding name) := by
    have parsed : Program.ofSource source = .ok (program name) :=
      Program.ofSource_eq_ok.mpr ⟨_, [], lexed, rfl⟩
    have distinct : (program name).Distinct := by
      simp [program, Program.Distinct, Program.definitions, Statement.asDefinition,
        Program.ofStatements]
    exact load_distinct parsed distinct
  obtain ⟨reason, unparsed⟩ : ∃ reason, Program.ofSource "(" = .error reason := ⟨_, rfl⟩
  have begun : (Session.begin "a = x").value = .ok ⟨holding "a", 0⟩ := by
    simp only [Session.begin, accepted "a = x" "a" rfl, Except.map]
  let ready : Stage :=
    { opening ⟨holding "a", 0⟩ with waiting := [holding "c", holding "b"] }
  let taken : Stage := { ready with taken := [0] }
  have loads : (opening ⟨holding "a", 0⟩).Run [.load "b = x", .load "c = x"] ready :=
    .step (.loaded (accepted "b = x" "b" rfl))
      (.step (.loaded (accepted "c = x" "c" rfl)) (.done _))
  have reads : ready.Step .current taken := .current
  have later : taken.waiting = [] ++ holding "c" :: [holding "b"] := rfl
  have earlier : [holding "b"] = [] ++ holding "b" :: [] := rfl
  have refused : (Timbre.load "(").value = .error (.unparsable reason) := load_unparsable unparsed
  obtain ⟨last, installs⟩ :
      ∃ last, taken.Run [.install (holding "c"), .load "(", .install (holding "b")] last :=
    ⟨_, .step (.installed later) (.step (.refused refused) (.step (.installed earlier) (.done _)))⟩
  have whole : (opening ⟨holding "a", 0⟩).Run [.load "b = x", .load "c = x", .current,
      .install (holding "c"), .load "(", .install (holding "b")] last :=
    .step (.loaded (accepted "b = x" "b" rfl))
      (.step (.loaded (accepted "c = x" "c" rfl)) (.step reads installs))
  refine ⟨holding "a", holding "b", holding "c", ready, taken, last, begun, loads, reads, installs,
    whole, by simp [holding, program, Program.ofStatements], ?_, ?_⟩
  · exact (overlapping_reloads _ _ begun _ _ whole).2.1
  · exact ((overlapping_reloads _ _ begun _ _ loads).2.2.2.2.1 taken _ last reads installs).1

end Stage

end Timbre
