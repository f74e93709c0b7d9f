import HttpWorkflow.CommandLine.Basic
import HttpWorkflow.Proofs.Document.Checking
import HttpWorkflow.Proofs.Run.Connection
import HttpWorkflow.Proofs.Run.Errors

/-! What a failing program has done.

The program reads and checks all that it is given before its first call. The part of it that reads
is the same as without a network, so it comes to a failure or to a job, and only the run of a job
makes calls and evaluates expressions. A run fails before any of them, or at a step whose verb has
no support. Then the calls of the steps before it have been made, and all that was printed by then
stands on the standard output.
-/

set_option autoImplicit false

namespace HttpWorkflow.CommandLine

/-- All that the program finds around it, and how the servers reply. -/
structure World where
  file? : String → Option String
  lookup : String → Option String
  settings? : Option String
  replies : Replies

namespace World

/-- The files and variables of a world, with any connection. -/
def connected {m : Type → Type} [Monad m] (w : World) (connect : Connection m) : Surroundings m where
  file? path := pure (w.file? path)
  lookup name := pure (w.lookup name)
  settings? := pure w.settings?
  connect := connect

/-- The surroundings of the program, which keep a log of its calls. -/
def surroundings (w : World) : Surroundings (StateM (List Call)) := w.connected (.logging w.replies)

/-- The same files and variables without a network. -/
def offline (w : World) : Surroundings Id := w.connected fun _ => none

end World

/-- All that a run needs, read and checked. -/
structure Job where
  workflow : Workflow
  input : Members
  helpers : Helpers
  config : Config
  base : Option Url

/-- The settings that are found, with those of the options over them. -/
def Options.config (o : Options) (found : Config) : Config :=
  { found with query := o.query.getD found.query, baseUrl := o.baseUrl.or found.baseUrl }

/-- The text of the script, if an option names one. -/
def World.script (w : World) : Option String → ExceptT Failure Id (Option String)
  | none => return none
  | some path => return some (← textFile w.offline path)

/-- What the program does before it runs anything. -/
def World.prepare (w : World) (o : Options) : ExceptT Failure Id Job := do
  let workflow ← document w.offline o.workflow
  let input ← objectFile w.offline o.input
  let bindings ← objectFile w.offline o.bindings
  let script ← w.script o.helpers
  let found ← (settings w.offline : Id Config)
  match (o.config found).base with
  | .error cause => throw (.invalidBaseUrl cause)
  | .ok base => return ⟨workflow, input, ⟨bindings, script⟩, o.config found, base⟩

/-- What the program does then. -/
def Job.perform {m : Type → Type} [Monad m] (connect : Connection m) (print : Printer m)
    (job : Job) : ExceptT Failure m RunResult := do
  let ended ← runWorkflow connect job.config job.base job.workflow job.input job.helpers print |>.run
  match ended with
  | .ok result => return result
  | .error cause => throw (.failedRun cause)

section Reading

variable {m : Type → Type} [Monad m] [LawfulMonad m] {α β γ : Type}

/-- A computation that first does what `y` does without a network, and no more, and goes on with `k`
if that does not fail. Nothing has been run by then that could fail. -/
structure Begins (x : ExceptT Failure m α) (y : ExceptT Failure Id γ)
    (k : γ → ExceptT Failure m α) : Prop where
  run : x.run = match y.run.run with
    | .error f => pure (.error f)
    | .ok c => (k c).run
  idle : ∀ e, y.run.run ≠ .error (.failedRun e)

omit [LawfulMonad m] in
theorem Begins.done (k : γ → ExceptT Failure m α) (c : γ) : Begins (k c) (pure c) k where
  run := rfl
  idle := nofun

variable {k : γ → ExceptT Failure m α}

omit [LawfulMonad m] in
theorem Begins.throw {f : Failure} (idle : ∀ e, f ≠ .failedRun e) :
    Begins (throw f) (throw f) k where
  run := rfl
  idle e same := idle e (Except.error.inj same)

theorem Begins.bind {x : ExceptT Failure m β} {y : ExceptT Failure Id β}
    {f : β → ExceptT Failure m α} {g : β → ExceptT Failure Id γ} (first : Begins x y pure)
    (next : ∀ b, Begins (f b) (g b) k) : Begins (x >>= f) (y >>= g) k := by
  obtain ⟨run, idle⟩ := first
  constructor
  · rw [ExceptT.run_bind, run, ExceptT.run_bind]
    generalize y.run = result
    cases result with
    | error e => exact pure_bind _ _
    | ok b => exact (pure_bind _ _).trans (next b).run
  · intro e
    rw [ExceptT.run_bind]
    generalize y.run = result at idle ⊢
    cases result with
    | error f =>
      intro same
      exact idle e (congrArg Except.error (Except.error.inj same))
    | ok b => exact (next b).idle e

theorem Begins.map {x : ExceptT Failure m β} {y : ExceptT Failure Id β} (first : Begins x y pure)
    (h : β → γ) : Begins (h <$> x) (do return h (← y)) pure := by
  rw [map_eq_pure_bind]
  exact .bind first fun b => .done pure (h b)

theorem Begins.read (a : β) :
    Begins (liftM (pure a : m β) : ExceptT Failure m β) (liftM (pure a : Id β)) pure where
  run := map_pure _ _
  idle _ same := by cases same

variable (w : World) (connect : Connection m)

theorem document_begins (path : String) :
    Begins (document (w.connected connect) path) (document w.offline path) pure := by
  refine .bind (.read (w.file? path)) fun found => ?_
  split
  · exact .throw (by simp)
  · split
    · exact .done pure _
    · exact .throw (by simp)

theorem textFile_begins (path : String) :
    Begins (textFile (w.connected connect) path) (textFile w.offline path) pure := by
  refine .bind (.read (w.file? path)) fun found => ?_
  split
  · exact .done pure _
  · exact .throw (by simp)

theorem objectFile_begins (path : Option String) :
    Begins (objectFile (w.connected connect) path) (objectFile w.offline path) pure := by
  cases path with
  | none => exact .done pure _
  | some path =>
    refine .bind (textFile_begins w connect path) fun text => ?_
    split
    · exact .done pure _
    · exact .throw (by simp)
    · exact .throw (by simp)

theorem settings_connected : settings (w.connected connect) = pure (settings w.offline) := by
  obtain ⟨_, _, found, _⟩ := w
  simp only [settings, World.connected, Config.variableNames, pure_bind, List.mapM_cons,
    List.mapM_nil]
  cases found <;> rfl

/-- The program prepares a job without a call, and then performs it. -/
theorem runOptions_begins (print : Printer m) (o : Options) :
    Begins (runOptions (w.connected connect) print o) (w.prepare o) (Job.perform connect print) := by
  refine .bind (document_begins w connect _) fun workflow =>
    .bind (objectFile_begins w connect _) fun input =>
    .bind (objectFile_begins w connect _) fun bindings => ?_
  cases o.helpers
  case' none => refine .bind (.done pure none) fun script => ?_
  case' some path => refine .bind (.map (textFile_begins w connect path) some) fun script => ?_
  -- With or without a script, the settings and the base are what is left.
  all_goals
    rw [settings_connected]
    refine .bind (.read (settings w.offline)) fun found => ?_
    change Begins (match (o.config found).base with
      | .error cause => throw (.invalidBaseUrl cause)
      | .ok base => Job.perform connect print
        ⟨workflow, input, ⟨bindings, script⟩, o.config found, base⟩) _ _
    cases (o.config found).base with
    | error cause => exact .throw (by simp)
    | ok base => exact .done (Job.perform connect print) _

end Reading

section Prepared

variable {w : World} {o : Options} {job : Job} {α β : Type}

theorem exists_of_bind_ok {x : ExceptT Failure Id α} {f : α → ExceptT Failure Id β} {b : β}
    (ended : (x >>= f).run.run = .ok b) : ∃ a, x.run.run = .ok a ∧ (f a).run.run = .ok b := by
  rw [ExceptT.run_bind] at ended
  generalize x.run = result at ended
  cases result with
  | error e => cases ended
  | ok a => exact ⟨a, rfl, ended⟩

/-- The texts that a job is made of are there, and each is what it has to be. -/
structure World.Provides (w : World) (o : Options) (job : Job) : Prop where
  document : ∃ text, w.file? o.workflow = some text ∧ Workflow.load text = .ok job.workflow
  input : ∀ path, o.input = some path →
    ∃ text, w.file? path = some text ∧ Json.parse? text = some (.object job.input)
  bindings : ∀ path, o.bindings = some path →
    ∃ text, w.file? path = some text ∧ Json.parse? text = some (.object job.helpers.bindings)
  script : ∀ path, o.helpers = some path →
    ∃ text, w.file? path = some text ∧ job.helpers.script = some text
  config : job.config = o.config (settings w.offline)
  base : job.config.base = .ok job.base

theorem document_ok {path : String} {workflow : Workflow}
    (ended : (document w.offline path).run.run = .ok workflow) :
    ∃ text, w.file? path = some text ∧ Workflow.load text = .ok workflow := by
  obtain ⟨found, read, ended⟩ := exists_of_bind_ok ended
  obtain rfl : w.file? path = found := Except.ok.inj read
  split at ended
  · cases ended
  · next text there =>
    split at ended
    · next loaded =>
      cases ended
      exact ⟨text, there, loaded⟩
    · cases ended

theorem textFile_ok {path text : String} (ended : (textFile w.offline path).run.run = .ok text) :
    w.file? path = some text := by
  obtain ⟨found, read, ended⟩ := exists_of_bind_ok ended
  obtain rfl : w.file? path = found := Except.ok.inj read
  split at ended
  · next there =>
    cases ended
    exact there
  · cases ended

theorem objectFile_ok {path : String} {members : Members}
    (ended : (objectFile w.offline (some path)).run.run = .ok members) :
    ∃ text, w.file? path = some text ∧ Json.parse? text = some (.object members) := by
  obtain ⟨text, read, ended⟩ := exists_of_bind_ok ended
  refine ⟨text, textFile_ok read, ?_⟩
  split at ended
  · next parsed =>
    cases ended
    exact parsed
  · cases ended
  · cases ended

theorem World.script_ok {path : String} {script : Option String}
    (ended : (w.script (some path)).run.run = .ok script) :
    ∃ text, w.file? path = some text ∧ script = some text := by
  obtain ⟨text, read, ended⟩ := exists_of_bind_ok ended
  cases ended
  exact ⟨text, textFile_ok read, rfl⟩

theorem World.prepare_ok (prepared : (w.prepare o).run.run = .ok job) : w.Provides o job := by
  obtain ⟨workflow, loaded, prepared⟩ := exists_of_bind_ok prepared
  obtain ⟨input, readInput, prepared⟩ := exists_of_bind_ok prepared
  obtain ⟨bindings, readBindings, prepared⟩ := exists_of_bind_ok prepared
  obtain ⟨script, readScript, prepared⟩ := exists_of_bind_ok prepared
  obtain ⟨found, read, prepared⟩ := exists_of_bind_ok prepared
  obtain rfl : settings w.offline = found := Except.ok.inj read
  split at prepared
  · cases prepared
  · next base checked =>
    cases prepared
    constructor
    · exact document_ok loaded
    · intro path named
      rw [named] at readInput
      exact objectFile_ok readInput
    · intro path named
      rw [named] at readBindings
      exact objectFile_ok readBindings
    · intro path named
      rw [named] at readScript
      exact script_ok readScript
    · rfl
    · exact checked

end Prepared

/-- The scope that the steps of a job begin with. -/
def Job.scope (job : Job) : Scope := .ofInput job.input (Query.parse job.config.query)

/-- What the run of a job comes to, with the requests that it makes and the lines that it prints. -/
def Job.outcome (job : Job) (replies : Replies) : Except RunError RunResult × Trace :=
  runTraced (replies.answers job.base job.config.timeout) job.config job.workflow.steps job.input
    job.helpers

/-- The calls for requests of a job. -/
def Job.callsOf (job : Job) (requests : List HttpWorkflow.Request) : List Call :=
  HttpWorkflow.callsOf job.base job.config.timeout requests

/-- A run that fails fails the program with its cause. -/
theorem Job.perform_run {m : Type → Type} [Monad m] [LawfulMonad m] (connect : Connection m)
    (print : Printer m) (job : Job) :
    (job.perform connect print).run = Except.mapError Failure.failedRun <$>
      (runWorkflow connect job.config job.base job.workflow job.input job.helpers print).run := by
  have ran (x : m (Except RunError RunResult)) :
      (liftM x : ExceptT Failure m (Except RunError RunResult)).run = Except.ok <$> x := rfl
  rw [perform, ExceptT.run_bind, ran, bind_map_left, map_eq_pure_bind]
  refine bind_congr fun ended => ?_
  cases ended <;> rfl

section Ended

variable {w : World} {args : List String} {o : Options} {job : Job}

theorem Job.perform_keeping (job : Job) (replies : Replies) :
    ((job.perform (Connection.logging replies).keeping .keeping).run.run "").run [] =
      (((job.outcome replies).1.mapError Failure.failedRun, (job.outcome replies).2.printed),
        job.callsOf (job.outcome replies).2.requests) := by
  have ran := run_connection job.base job.config.timeout replies job.config job.workflow.steps
    job.input job.helpers
  rw [perform_run, StateT.run_map, StateT.run_map, runWorkflow, ran]
  rfl

theorem program_of_run (asked : Request.ofArguments args = .run o) :
    (program w.surroundings args).run [] =
      let ended := ((runOptions w.surroundings.keeping .keeping o).run.run "").run []
      (.ofRun ended.1.2 ended.1.1, ended.2) := by
  simp only [program, asked]
  rfl

theorem surroundings_keeping (w : World) :
    w.surroundings.keeping = w.connected (Connection.logging w.replies).keeping := rfl

theorem program_of_unprepared (asked : Request.ofArguments args = .run o) {f : Failure}
    (unprepared : (w.prepare o).run.run = .error f) :
    (program w.surroundings args).run [] = (.ofRun "" (.error f), []) := by
  have begun := (runOptions_begins w (Connection.logging w.replies).keeping .keeping o).run
  rw [unprepared] at begun
  rw [program_of_run asked, surroundings_keeping, begun]
  rfl

theorem program_of_prepared (asked : Request.ofArguments args = .run o)
    (prepared : (w.prepare o).run.run = .ok job) :
    (program w.surroundings args).run [] =
      (.ofRun (job.outcome w.replies).2.printed
          ((job.outcome w.replies).1.mapError Failure.failedRun),
        job.callsOf (job.outcome w.replies).2.requests) := by
  have begun := (runOptions_begins w (Connection.logging w.replies).keeping .keeping o).run
  rw [prepared] at begun
  rw [program_of_run asked, surroundings_keeping, begun]
  simp only [Job.perform_keeping]

/-- What is printed by the visits of a job and by the step that is due then. -/
def Job.printedUpTo (job : Job) (evaluator : Evaluator) (visits : List Visit) (s : Step) : String :=
  printedBy evaluator job.scope [] visits ++ s.printedDue evaluator job.scope visits

/-- The visits of a job, up to a step without support for its verb. -/
structure Job.Stuck (job : Job) (replies : Replies) (evaluator : Evaluator) (visits : List Visit)
    (name : String) (s : Step) : Prop where
  ready : Evaluator.ofHelpers? job.helpers job.config.maxOperations = some evaluator
  history : History (replies.answers job.base job.config.timeout) evaluator job.scope
    job.workflow.steps.steps visits
  going : visits.all Visit.letsGoOn = true
  due : job.workflow.steps.steps[visits.length]? = some (name, s)
  verb : s.verb? = none

theorem Job.outcome_error {replies : Replies} {e : RunError} {t : Trace}
    (failed : job.outcome replies = (.error e, t)) :
    (Evaluator.ofHelpers? job.helpers job.config.maxOperations = none ∧ e = .helperScript ∧
        t = {}) ∨
      ∃ evaluator visits name s, job.Stuck replies evaluator visits name s ∧
        e = .unsupportedMethod name s.method ∧
        t = ⟨visits.filterMap Visit.request, job.printedUpTo evaluator visits s⟩ := by
  rcases runTraced_error failed with ⟨unready, rfl, rfl⟩ | ⟨evaluator, visits, ready, walked, rfl⟩
  · exact Or.inl ⟨unready, rfl, rfl⟩
  · obtain ⟨going, name, s, due, verb, rfl⟩ := walk_error walked
    refine Or.inr ⟨evaluator, visits, name, s, ?_, rfl, ?_⟩
    · exact ⟨ready, walk_history walked, going, due, verb⟩
    · rw [due]
      rfl

/-- A job that is stuck fails, with what it has done by then. -/
theorem Job.Stuck.outcome {replies : Replies} {evaluator : Evaluator} {visits : List Visit}
    {name : String} {s : Step} (stuck : job.Stuck replies evaluator visits name s) :
    job.outcome replies = (.error (.unsupportedMethod name s.method),
      ⟨visits.filterMap Visit.request, job.printedUpTo evaluator visits s⟩) := by
  have walked := stuck.history.walk_stuck stuck.going stuck.due stuck.verb
  rw [scope] at walked
  simp only [Job.outcome, runTraced_eq, stuck.ready, walked, printedLast, stuck.due]
  rfl

/-- All the ways in which the program can end, each with the calls made by then. -/
inductive World.Ends (w : World) (args : List String) : Ending → List Call → Prop where
  | unasked {ending : Ending} (asked : ∀ o, Request.ofArguments args ≠ .run o)
    (unfailing : ending.failure = none) (silent : ending.code ≠ 0 → ending.output = "") :
    Ends w args ending []
  | unprepared {o : Options} {f : Failure} (asked : Request.ofArguments args = .run o)
    (idle : ∀ e, f ≠ .failedRun e) : Ends w args { code := 1, failure := some f } []
  | broken {o : Options} {job : Job} (asked : Request.ofArguments args = .run o)
    (prepared : (w.prepare o).run.run = .ok job)
    (unready : Evaluator.ofHelpers? job.helpers job.config.maxOperations = none) :
    Ends w args { code := 1, failure := some (.failedRun .helperScript) } []
  | stuck {o : Options} {job : Job} {evaluator : Evaluator} {visits : List Visit} {name : String}
    {s : Step} (asked : Request.ofArguments args = .run o)
    (prepared : (w.prepare o).run.run = .ok job)
    (stuck : job.Stuck w.replies evaluator visits name s) :
    Ends w args
      { code := 1, output := job.printedUpTo evaluator visits s,
        failure := some (.failedRun (.unsupportedMethod name s.method)) }
      (job.callsOf (visits.filterMap Visit.request))
  | done {o : Options} {job : Job} {result : RunResult} {t : Trace}
    (asked : Request.ofArguments args = .run o) (prepared : (w.prepare o).run.run = .ok job)
    (ran : job.outcome w.replies = (.ok result, t)) :
    Ends w args { code := 0, output := t.printed ++ result.toJson.pretty ++ "\n" }
      (job.callsOf t.requests)

theorem program_ends {ending : Ending} {calls : List Call}
    (ended : (program w.surroundings args).run [] = (ending, calls)) :
    w.Ends args ending calls := by
  cases asked : Request.ofArguments args with
  | run o =>
    cases prepared : (w.prepare o).run.run with
    | error f =>
      rw [program_of_unprepared asked prepared] at ended
      cases ended
      refine .unprepared asked fun e failed => ?_
      have begun := runOptions_begins w (Connection.logging w.replies).keeping .keeping o
      exact begun.idle e (failed ▸ prepared)
    | ok job =>
      rw [program_of_prepared asked prepared] at ended
      cases ended
      rcases ran : job.outcome w.replies with ⟨result, t⟩
      cases result with
      | ok result => exact .done asked prepared ran
      | error e =>
        rcases Job.outcome_error ran with
          ⟨unready, rfl, rfl⟩ | ⟨evaluator, visits, name, s, stuck, rfl, rfl⟩
        · exact .broken asked prepared unready
        · exact .stuck asked prepared stuck
  | misuse =>
    simp only [program, asked] at ended
    cases ended
    exact .unasked (by simp [asked]) rfl fun _ => rfl
  | help | version =>
    simp only [program, asked] at ended
    cases ended
    exact .unasked (by simp [asked]) rfl fun failed => absurd rfl failed

/-- Something that the program is given is of no use to it. -/
inductive World.Faulty (w : World) (o : Options) : Prop where
  | unreadableDocument (missing : w.file? o.workflow = none)
  | notStepMap {text : String} (there : w.file? o.workflow = some text)
    (other : (Document.Yaml.read? text).bind (Workflow.ofData? .yaml) = none)
  | unsoundWorkflow {text : String} {workflow : Workflow}
    (there : w.file? o.workflow = some text)
    (read : (Document.Yaml.read? text).bind (Workflow.ofData? .yaml) = some workflow)
    (unsound : ¬workflow.Sound)
  | unreadableObject {path : String} (named : o.input = some path ∨ o.bindings = some path)
    (missing : w.file? path = none)
  | notObject {path text : String} (named : o.input = some path ∨ o.bindings = some path)
    (there : w.file? path = some text)
    (other : ∀ members, Json.parse? text ≠ some (.object members))
  | unreadableScript {path : String} (named : o.helpers = some path) (missing : w.file? path = none)
  | brokenScript {path text : String} (named : o.helpers = some path)
    (there : w.file? path = some text) (broken : Script.Program.compile? text = none)
  | invalidBaseUrl {text : String} {reason : UrlError}
    (given : (o.config (settings w.offline)).baseUrl = some text)
    (invalid : Url.parse none text = .error reason)

theorem World.Provides.workflow (provides : w.Provides o job) :
    ∃ text, w.file? o.workflow = some text ∧
      (Document.Yaml.read? text).bind (Workflow.ofData? .yaml) = some job.workflow ∧
      job.workflow.Sound := by
  obtain ⟨text, there, loaded⟩ := provides.document
  exact ⟨text, there, Workflow.load_ok_iff.mp loaded⟩

theorem World.Provides.object (provides : w.Provides o job) {path : String}
    (named : o.input = some path ∨ o.bindings = some path) :
    ∃ text members, w.file? path = some text ∧ Json.parse? text = some (.object members) := by
  rcases named with named | named
  · obtain ⟨text, there, parsed⟩ := provides.input path named
    exact ⟨text, _, there, parsed⟩
  · obtain ⟨text, there, parsed⟩ := provides.bindings path named
    exact ⟨text, _, there, parsed⟩

/-- The one fault that leaves a job is a script that does not compile. -/
theorem World.Faulty.unready (fault : w.Faulty o) (provides : w.Provides o job) :
    Evaluator.ofHelpers? job.helpers job.config.maxOperations = none := by
  cases fault with
  | unreadableDocument missing =>
    obtain ⟨text, found, _⟩ := provides.document
    simp [missing] at found
  | notStepMap there other =>
    obtain ⟨text, found, read, _⟩ := provides.workflow
    obtain rfl := Option.some.inj (there.symm.trans found)
    simp [other] at read
  | unsoundWorkflow there read unsound =>
    obtain ⟨text, found, same, sound⟩ := provides.workflow
    obtain rfl := Option.some.inj (there.symm.trans found)
    obtain rfl := Option.some.inj (read.symm.trans same)
    exact absurd sound unsound
  | unreadableObject named missing =>
    obtain ⟨text, members, found, _⟩ := provides.object named
    simp [missing] at found
  | notObject named there other =>
    obtain ⟨text, members, found, parsed⟩ := provides.object named
    obtain rfl := Option.some.inj (there.symm.trans found)
    exact absurd parsed (other members)
  | unreadableScript named missing =>
    obtain ⟨text, found, _⟩ := provides.script _ named
    simp [missing] at found
  | @brokenScript _ text named there broken =>
    obtain ⟨script, found, given⟩ := provides.script _ named
    obtain rfl := Option.some.inj (there.symm.trans found)
    exact Evaluator.ofHelpers?_eq_none_iff.mpr ⟨text, given, broken⟩
  | invalidBaseUrl given invalid =>
    have checked := provides.base
    simp [Config.base, provides.config, given, invalid] at checked

/-- A fault leaves all servers alone, and nothing is printed. -/
theorem World.Faulty.untouched (fault : w.Faulty o) (asked : Request.ofArguments args = .run o)
    {ending : Ending} {calls : List Call}
    (ended : (program w.surroundings args).run [] = (ending, calls)) :
    ending.code ≠ 0 ∧ ending.output = "" ∧ calls = [] := by
  cases program_ends ended with
  | unasked other => exact absurd asked (other o)
  | unprepared | broken => exact ⟨Nat.one_ne_zero, rfl, rfl⟩
  | stuck asked' prepared stuck =>
    obtain rfl := Request.run.inj (asked.symm.trans asked')
    have ready := stuck.ready
    rw [fault.unready (World.prepare_ok prepared)] at ready
    cases ready
  | done asked' prepared ran =>
    obtain rfl := Request.run.inj (asked.symm.trans asked')
    rw [Job.outcome, runTraced_eq, fault.unready (World.prepare_ok prepared)] at ran
    cases ran

end Ended

/-- The program checks before it acts. When it fails for anything but a verb without support, it has
made no call and its standard output is empty, as after any fault in what it is given. A verb
without support is found after the calls of the steps before it, and the standard output then has
just what expressions printed: those of the steps before, and `beforeFetch` of this one. -/
theorem program_fails_early {w : World} {args : List String} {ending : Ending} {calls : List Call}
    (ended : (program w.surroundings args).run [] = (ending, calls)) :
    (ending.code ≠ 0 →
      (∀ name method, ending.failure ≠ some (.failedRun (.unsupportedMethod name method))) →
      ending.output = "" ∧ calls = []) ∧
    (∀ o, Request.ofArguments args = .run o → w.Faulty o →
      ending.code ≠ 0 ∧ ending.output = "" ∧ calls = []) ∧
    ∀ name method, ending.failure = some (.failedRun (.unsupportedMethod name method)) →
      ∃ o job evaluator visits s, Request.ofArguments args = .run o ∧
        (w.prepare o).run.run = .ok job ∧ job.Stuck w.replies evaluator visits name s ∧
        s.method = method ∧ ending.code ≠ 0 ∧
        calls = job.callsOf (visits.filterMap Visit.request) ∧
        ending.output = job.printedUpTo evaluator visits s := by
  refine ⟨?_, fun o asked fault => fault.untouched asked ended, ?_⟩
  · intro failed other
    cases program_ends ended with
    | unasked _ _ silent => exact ⟨silent failed, rfl⟩
    | unprepared | broken => exact ⟨rfl, rfl⟩
    | stuck => exact absurd rfl (other _ _)
    | done => exact absurd rfl failed
  · intro name method failed
    cases program_ends ended with
    | unasked _ unfailing =>
      rw [unfailing] at failed
      cases failed
    | unprepared _ idle => exact absurd (Option.some.inj failed) (idle _)
    | broken => cases failed
    | stuck asked prepared stuck =>
      cases failed
      exact ⟨_, _, _, _, _, asked, prepared, stuck, rfl, Nat.one_ne_zero, rfl, rfl⟩
    | done => cases failed

/-- A shop that can be asked for its home, before a step whose verb has no support. Its script is
not finished. -/
def shop : World where
  file? path :=
    if path = "shop.yaml" then some "steps:
  home:
    url: '\"http://shop/\"'
    method: GET
    condition: \x7b\x7d
  probe:
    url: /probe
    method: HEAD
    condition: \x7b\x7d
"
    else if path = "shop.rhai" then some "fn total("
    else none
  lookup _ := none
  settings? := none
  replies _ _ := some ⟨200, "\x7b\"open\": true\x7d"⟩

theorem shop_fails_early :
    (∃ ending calls, (program shop.surroundings ["shop.yaml"]).run [] = (ending, calls) ∧
      ending.failure = some (.failedRun (.unsupportedMethod "probe" "HEAD")) ∧ ending.code ≠ 0 ∧
      calls.length = 1 ∧
      ∃ job evaluator visits s, Job.Stuck job shop.replies evaluator visits "probe" s ∧
        calls = job.callsOf (visits.filterMap Visit.request) ∧
        ending.output = job.printedUpTo evaluator visits s) ∧
    ∃ ending calls o, (program shop.surroundings ["shop.yaml", "--helpers", "shop.rhai"]).run [] =
        (ending, calls) ∧
      Request.ofArguments ["shop.yaml", "--helpers", "shop.rhai"] = .run o ∧ shop.Faulty o ∧
      ending.code ≠ 0 ∧ ending.output = "" ∧ calls = [] := by
  constructor
  · have ended : (program shop.surroundings ["shop.yaml"]).run [] =
        (((program shop.surroundings ["shop.yaml"]).run []).1,
          ((program shop.surroundings ["shop.yaml"]).run []).2) := Prod.mk.eta.symm
    obtain ⟨failure, one⟩ : ((program shop.surroundings ["shop.yaml"]).run []).1.failure =
          some (.failedRun (.unsupportedMethod "probe" "HEAD")) ∧
        ((program shop.surroundings ["shop.yaml"]).run []).2.length = 1 := by decide +kernel
    obtain ⟨_, job, evaluator, visits, s, _, _, stuck, _, code, made, printed⟩ :=
      (program_fails_early ended).2.2 "probe" "HEAD" failure
    exact ⟨_, _, ended, failure, code, one, job, evaluator, visits, s, stuck, made, printed⟩
  · have ended : (program shop.surroundings ["shop.yaml", "--helpers", "shop.rhai"]).run [] =
        (((program shop.surroundings ["shop.yaml", "--helpers", "shop.rhai"]).run []).1,
          ((program shop.surroundings ["shop.yaml", "--helpers", "shop.rhai"]).run []).2) :=
      Prod.mk.eta.symm
    have asked : Request.ofArguments ["shop.yaml", "--helpers", "shop.rhai"] =
        .run { workflow := "shop.yaml", helpers := some "shop.rhai" } := by decide +kernel
    have there : shop.file? "shop.rhai" = some "fn total(" := by decide
    have broken : Script.Program.compile? "fn total(" = none := by decide +kernel
    have fault : shop.Faulty { workflow := "shop.yaml", helpers := some "shop.rhai" } :=
      .brokenScript rfl there broken
    exact ⟨_, _, _, ended, asked, fault, (program_fails_early ended).2.1 _ asked fault⟩

/-- One step, whose verb has no support. What it does before prints a line. -/
def probe : World where
  file? _ := some "steps:
  probe:
    url: /probe
    method: HEAD
    beforeFetch: print('x')
    condition: \x7b\x7d
"
  lookup _ := none
  settings? := none
  replies _ _ := none

theorem probe_printed : Expression.printed .empty [] 100000 "print('x')" = "x\n" := by
  have translated : Expression.toScript "print('x')" = "print(\"x\")" := by cbv
  rw [Expression.printed, translated]
  decide +kernel

/-- What the program makes of the document. -/
theorem probe_prepared :
    ∃ job s template, (probe.prepare { workflow := "probe.yaml" }).run.run = .ok job ∧
      (job.config.maxOperations, job.helpers.script) = (100000, none) ∧
      job.workflow.steps.steps = [("probe", s)] ∧ s.method = "HEAD" ∧
      s.beforeFetch = some template ∧
      Template.renderValue template (job.scope.withBodies []) = "print('x')" := by
  let prepared := (probe.prepare { workflow := "probe.yaml" }).run.run
  have settings : prepared.toOption.map (fun job =>
      (job.config.maxOperations, job.helpers.script)) = some (100000, none) := by decide +kernel
  have steps : prepared.toOption.map (fun job => job.workflow.steps.steps.map fun s =>
      (s.1, s.2.method, s.2.beforeFetch.map (Template.renderValue · (job.scope.withBodies [])))) =
        some [("probe", "HEAD", some "print('x')")] := by decide +kernel
  rcases ended : prepared with f | job
  · simp [ended, Except.toOption] at settings
  · simp only [ended, Except.toOption, Option.map_some, Option.some.injEq,
      List.map_eq_singleton_iff, Prod.exists, Prod.mk.injEq, Option.map_eq_some_iff] at steps
    obtain ⟨_, s, listed, rfl, verb, template, filled, rendered⟩ := steps
    rw [ended] at settings
    exact ⟨job, s, template, ended, Option.some.inj settings, listed, verb, filled, rendered⟩

/-- A `beforeFetch` that renders to the call prints its line as soon as the step is due. -/
theorem probe_printedDue {evaluator : Evaluator} {input : Scope} {s : Step} {template : Json}
    (plain : evaluator.plain = .bare 100000) (filled : s.beforeFetch = some template)
    (rendered : Template.renderValue template (input.withBodies []) = "print('x')") :
    s.printedDue evaluator input [] = "x\n" := by
  have truthy : template.isFalsy = false := by
    cases falsy : template.isFalsy with
    | false => rfl
    | true => simp [Template.renderValue, falsy] at rendered
  rw [Step.printedDue, Step.printedBefore, filled, Option.elim_some, Evaluator.printed, truthy,
    if_neg Bool.false_ne_true, plain, List.filterMap_nil, rendered]
  exact probe_printed

theorem probe_prints_before_failing :
    ∃ ending, (program probe.surroundings ["probe.yaml"]).run [] = (ending, []) ∧
      ending.code = 1 ∧ ending.failure = some (.failedRun (.unsupportedMethod "probe" "HEAD")) ∧
      ending.output = "x\n" := by
  have asked : Request.ofArguments ["probe.yaml"] = .run { workflow := "probe.yaml" } := by
    decide +kernel
  obtain ⟨job, s, template, prepared, settings, listed, verb, filled, rendered⟩ := probe_prepared
  obtain ⟨limit, scriptless⟩ := Prod.mk.inj settings
  obtain ⟨evaluator, ready, plain⟩ : ∃ evaluator,
      Evaluator.ofHelpers? job.helpers job.config.maxOperations = some evaluator ∧
        evaluator.plain = .bare 100000 := by
    rw [Evaluator.ofHelpers?, scriptless, limit]
    exact ⟨_, rfl, rfl⟩
  have stuck : job.Stuck probe.replies evaluator [] "probe" s := by
    refine ⟨ready, ⟨rfl, by simp⟩, rfl, ?_, ?_⟩
    · rw [listed]
      rfl
    · rw [Step.verb?, verb]
      decide
  have printed : job.printedUpTo evaluator [] s = "x\n" := by
    rw [Job.printedUpTo, printedBy, String.empty_append, probe_printedDue plain filled rendered]
  rw [program_of_prepared asked prepared, stuck.outcome, verb, printed]
  exact ⟨_, rfl, rfl, rfl, rfl⟩

end HttpWorkflow.CommandLine
