import AgentBridge.CommandLine.Run
import AgentBridge.Proofs.Operations

/-
  AgentBridge.Proofs.Tasks — what a command line asks for, and which operation that comes to.

  A command line is read as a whole (`invocation`) and then run as what it asks for, behind a
  remark if the command was typed by a short name (`run_eq`). A task comes to one operation
  with its arguments, or to none for a reason of its own (`Task.request`); the operation is
  run once, whether its outcome is printed as JSON or for people (`Task.run_eq`). Its arguments
  always have their shape (`Task.shaped_of_request`), so it can fail only as its call does.
-/

namespace AgentBridge.CommandLine

/-! ## Command lines -/

/-- The command that is typed, by its short name or its name. -/
def Command.ofTyped? (typed : List Char) : Option Command := (ofAlias? typed).or (ofName? typed)

/-- What a whole command line asks for. -/
def invocation (env : Environment) (files : Files) (arguments : List (List Char)) : Except UsageError Invocation := do
  let s ← scan programOptions false arguments
  match s.given, s.rest with
  | ⟨.version, _⟩ :: _, _ => return .version
  | _ :: _, _ | [], [] => return .help none
  | [], typed :: rest =>
    match Command.ofTyped? typed with
    | some c => c.invocation env files rest
    | none => .error (.noSuchCommand typed)

/-- A command that is typed is asked for with the arguments behind its name. -/
theorem invocation_of_typed {arguments rest : List (List Char)} {typed : List Char} {c : Command}
    (h : scan programOptions false arguments = .ok ⟨[], typed :: rest⟩) (hc : Command.ofTyped? typed = some c)
    (env : Environment) (files : Files) : invocation env files arguments = c.invocation env files rest := by
  unfold invocation
  rw [h]
  simp only [bind, Except.bind, hc]

/-- The command that asks for a task. -/
def Task.command : Task → Command
  | .connect => .connect
  | .disconnect => .disconnect
  | .status => .status
  | .importToken .. => .importToken
  | .openLink _ => .openLink
  | .setMode _ => .setMode
  | .updateDisguise .. => .updateDisguise

theorem Task.command_of_taskOf {env : Environment} {files : Files} {s : Scanned} {c : Command} {task : Task}
    (h : taskOf env files s c = .ok task) : task.command = c := by
  cases c with
  | connect | disconnect | status | openLink =>
    obtain ⟨_, -, h⟩ := bind_eq_ok.mp h
    cases h
    rfl
  | setMode =>
    obtain ⟨_, -, h⟩ := bind_eq_ok.mp h
    obtain ⟨_, -, h⟩ := bind_eq_ok.mp h
    cases h
    rfl
  | importToken =>
    obtain ⟨_, -, h⟩ := bind_eq_ok.mp h
    obtain ⟨_, -, h⟩ := bind_eq_ok.mp h
    obtain ⟨_, -, h⟩ := bind_eq_ok.mp h
    cases h
    rfl
  | updateDisguise =>
    obtain ⟨_, -, h⟩ := bind_eq_ok.mp h
    obtain ⟨_, -, h⟩ := bind_eq_ok.mp h
    obtain ⟨_, -, h⟩ := bind_eq_ok.mp h
    obtain ⟨_, -, h⟩ := bind_eq_ok.mp h
    obtain ⟨_, -, h⟩ := bind_eq_ok.mp h
    cases h
    rfl

/-- A task is asked for by its own command only. -/
theorem Task.command_of_invocation {env : Environment} {files : Files} {c : Command} {rest : List (List Char)}
    {task : Task} {asJson : Bool} (h : c.invocation env files rest = .ok (.task task asJson)) : task.command = c := by
  unfold Command.invocation at h
  obtain ⟨s, -, h⟩ := bind_eq_ok.mp h
  split at h
  · cases h
  · obtain ⟨task', htask, h⟩ := bind_eq_ok.mp h
    cases h
    exact Task.command_of_taskOf htask

/-- The remark about the short name of a command, if one is typed. -/
def aliasRemarks (debug : Bool) (typed : List Char) : List LogEntry :=
  match Command.ofAlias? typed with
  | some c => Log.debug debug (aliasRemark typed c)
  | none => []

/-- What is remarked before a command line is run. -/
def remarks (debug : Bool) (arguments : List (List Char)) : List LogEntry :=
  match scan programOptions false arguments with
  | .ok ⟨[], typed :: _⟩ => aliasRemarks debug typed
  | _ => []

/-- Nothing is remarked about a task whose command has no short name. -/
theorem remarks_eq_nil {env : Environment} {files : Files} {arguments : List (List Char)} {task : Task}
    {asJson : Bool} (h : invocation env files arguments = .ok (.task task asJson))
    (hc : ∀ a ∈ Command.aliases, a.2 ≠ task.command) (debug : Bool) : remarks debug arguments = [] := by
  unfold remarks
  split
  · rename_i typed rest hscan
    unfold aliasRemarks
    cases halias : Command.ofAlias? typed with
    | none => rfl
    | some c =>
      have htyped : Command.ofTyped? typed = some c := by rw [Command.ofTyped?, halias, Option.some_or]
      rw [invocation_of_typed hscan htyped] at h
      obtain ⟨a, ha, rfl⟩ := Option.map_eq_some_iff.mp halias
      exact absurd (Task.command_of_invocation h).symm (hc a (List.mem_of_find?_eq_some ha))
  · rfl

@[simp] theorem Run.after_nil (r : Run) : r.after (logged []) [] = r := rfl

/-- What was printed and started earlier still comes first. -/
theorem Run.after_after (first second : List LogEntry) (spawns : List Spawn) (r : Run) :
    (r.after (logged second) spawns).after (logged first) [] = r.after (logged (first ++ second)) spawns := by
  simp only [Run.after, logged, List.map_append, List.append_assoc, List.nil_append]

theorem runTyped_eq (w : World) (typed : List Char) (rest : List (List Char)) :
    runTyped w typed rest =
      (Invocation.run w (match Command.ofTyped? typed with
        | some c => c.invocation w.env w.files rest
        | none => .error (.noSuchCommand typed))).after (logged (aliasRemarks w.env.debug typed)) [] := by
  unfold runTyped aliasRemarks Command.ofTyped?
  cases Command.ofAlias? typed with
  | some c => rfl
  | none =>
    cases Command.ofName? typed with
    | some c => rfl
    | none => rfl

/-- A command line is run as what it asks for, behind the remark about a short name. -/
theorem run_eq (w : World) (arguments : List (List Char)) :
    run w arguments = (Invocation.run w (invocation w.env w.files arguments)).after
      (logged (remarks w.env.debug arguments)) [] := by
  unfold run invocation remarks
  cases scan programOptions false arguments with
  | error e => rfl
  | ok s =>
    obtain ⟨given, rest⟩ := s
    cases given with
    | cons g more =>
      obtain ⟨o, value⟩ := g
      cases o <;> rfl
    | nil =>
      cases rest with
      | nil => rfl
      | cons typed rest => exact runTyped_eq w typed rest

/-- Nothing is started where the command line itself is at fault. -/
theorem spawns_usage (w : World) (e : UsageError) : (Invocation.run w (.error e)).spawns = [] := by
  cases e <;> rfl

/-! ## Operations of tasks -/

/-- Why a task comes to no operation: a reason to report, or one that cuts the run short. -/
inductive NoRequest where
  | reported (message : Text)
  | fatal (f : Fatal)

def importArguments (baseUrl token : List Char) : Members Empty :=
  [("base_url", .str (Text.ofChars baseUrl)), ("token", .str (Text.ofChars token))]

def disguiseArguments (baseUrl serverId adminApiKey : List Char) (disguise : Members Empty) : Members Empty :=
  [("base_url", trimmed baseUrl), ("server_id", trimmed serverId), ("admin_api_key", trimmed adminApiKey),
    ("disguise", .object disguise)]

theorem shaped_importArguments (baseUrl token : List Char) :
    Operation.importToken.Shaped (importArguments baseUrl token) := Operation.shaped_of_pack rfl

theorem shaped_disguiseArguments (baseUrl serverId adminApiKey : List Char) (disguise : Members Empty) :
    Operation.updateDisguise.Shaped (disguiseArguments baseUrl serverId adminApiKey disguise) :=
  Operation.shaped_of_pack rfl

namespace Task

/-- The operation that a task comes to, with its arguments. -/
def request : Task → Except NoRequest (Operation × Members Empty)
  | .connect => .ok (.connect, [])
  | .disconnect => .ok (.disconnect, [])
  | .status => .ok (.status, [])
  | .importToken baseUrl token => .ok (.importToken, importArguments (Blank.trim baseUrl) (Blank.trim token))
  | .openLink urls =>
    match Link.firstValid urls with
    | (some link, _) => .ok (.importToken, importArguments link.baseUrl link.token)
    | (none, rejected) => .error (.reported (rejection rejected))
  | .setMode mode => .ok (.setMode, [("mode", .str mode.name)])
  | .updateDisguise baseUrl serverId adminApiKey sources =>
    match sources.load with
    | .ok disguise => .ok (.updateDisguise, disguiseArguments baseUrl serverId adminApiKey disguise)
    | .error (.reported e) => .error (.reported e.message)
    | .error (.fatal f) => .error (.fatal f)

/-- How the value of a task is shown to people. -/
def present (env : Environment) : Task → Json → Run
  | .connect => Run.succeeded "Connect"
  | .disconnect => Run.succeeded "Disconnect"
  | .status => fun v => Run.lines (StatusPage.lines env v)
  | .importToken .. | .openLink _ => Run.succeeded "Import"
  | .setMode _ => Run.succeeded "Mode change"
  | .updateDisguise .. => Run.succeeded "Apply disguise"

/-- The warnings about links that were passed over. -/
def warnings : Task → List LogEntry
  | .openLink urls =>
    match Link.firstValid urls with
    | (some _, rejected) => rejected.map fun (url, reason) => skipped url reason
    | (none, _) => []
  | _ => []

/-- A task runs the operation that it comes to, or says why there is none. -/
theorem run_eq (w : World) (asJson : Bool) (task : Task) :
    task.run w asJson = match task.request with
      | .ok (op, args) => (operate w op args asJson (task.present w.env)).after (logged task.warnings) []
      | .error (.reported message) => Run.failed asJson message
      | .error (.fatal f) => ⟨.error f, [], []⟩ := by
  cases task with
  | openLink urls =>
    simp only [Task.run, runLinks, request, present, warnings]
    rcases Link.firstValid urls with ⟨_ | link, rejected⟩
    · rfl
    · rfl
  | updateDisguise baseUrl serverId adminApiKey sources =>
    simp only [Task.run, runDisguise, request, present, warnings]
    rcases sources.load with (e | f) | disguise
    · rfl
    · rfl
    · rfl
  | _ => rfl

/-- The arguments of the operation have their shape. -/
theorem shaped_of_request {task : Task} {op : Operation} {args : Members Empty} (h : task.request = .ok (op, args)) :
    op.Shaped args := by
  cases task with
  | connect | disconnect | status =>
    cases h
    exact Operation.shaped_of_no_parameters rfl
  | importToken baseUrl token =>
    cases h
    exact shaped_importArguments _ _
  | setMode mode =>
    cases h
    exact Operation.shaped_of_pack rfl
  | openLink urls =>
    simp only [request] at h
    split at h
    · cases h
      exact shaped_importArguments _ _
    · cases h
  | updateDisguise baseUrl serverId adminApiKey sources =>
    simp only [request] at h
    split at h
    · cases h
      exact shaped_disguiseArguments _ _ _ _
    · cases h
    · cases h

end Task

/-! ## Outcomes -/

/-- A run that prints results only and starts nothing, or that is cut short. -/
def Run.Presents (r : Run) : Prop :=
  (∃ results : List Text, r = ⟨.ok 0, results.map .result, []⟩) ∨ ∃ f, r = ⟨.error f, [], []⟩

theorem Run.presents_json (v : Json) : (Run.json 0 v).Presents := by
  unfold Run.json
  split
  · rename_i line _
    exact Or.inl ⟨[Text.ofChars line], rfl⟩
  · exact Or.inr ⟨_, rfl⟩

theorem Run.presents_lines (ls : Except Json.WriteError (List Text)) : (Run.lines ls).Presents := by
  cases ls with
  | ok results => exact Or.inl ⟨results, rfl⟩
  | error e => exact Or.inr ⟨_, rfl⟩

theorem Run.presents_succeeded (label : String) (v : Json) : (Run.succeeded label v).Presents := by
  unfold Run.succeeded
  split
  · exact Or.inl ⟨[(label ++ " completed" : String)], rfl⟩
  · exact Run.presents_lines _

theorem Run.presents_page (text : String) : (Run.page text).Presents := Or.inl ⟨[text], rfl⟩

/-- What a task shows to people is presented. -/
theorem Task.presents_present (task : Task) (env : Environment) (v : Json) : (task.present env v).Presents := by
  cases task with
  | status => exact Run.presents_lines _
  | _ => exact Run.presents_succeeded _ v

/-- The value of an operation is presented as JSON or to people. -/
theorem Run.presents_told {asJson : Bool} {v : Json} {r : Run} (h : r.Presents) :
    (if asJson then Run.json 0 (Run.outcome v) else r).Presents := by
  cases asJson with
  | true => exact Run.presents_json _
  | false => exact h

theorem Run.Presents.spawns {r : Run} (h : r.Presents) : r.spawns = [] := by
  rcases h with ⟨results, rfl⟩ | ⟨f, rfl⟩
  · rfl
  · rfl

/-- A failure that is not told as JSON is a line for people. -/
theorem Run.failed_false (message : Text) :
    Run.failed false message = ⟨.ok 1, [.failure ("Error: " ++ message)], []⟩ := rfl

@[simp] theorem Run.spawns_failed (asJson : Bool) (message : Text) : (Run.failed asJson message).spawns = [] := by
  cases asJson <;> rfl

/-! ## What becomes of a task -/

/-- What comes of an operation in a world. -/
def World.perform (w : World) (op : Operation) (args : Members Empty) :
    Traced (Except (Failure OperationError) Json) :=
  op.run (Config.ofEnvironment w.directory w.env) w.env.debug w.runner args

section

variable {w : World} {op : Operation} {args : Members Empty} {asJson : Bool} {present : Json → Run}

theorem operate_of_ok {v : Json} (h : (w.perform op args).result = .ok v) :
    operate w op args asJson present = (if asJson then Run.json 0 (Run.outcome v) else present v).after
      (logged (w.perform op args).log) (w.perform op args).spawns := by
  unfold World.perform at h
  simp only [operate, h, World.perform]

theorem operate_of_limit {l : Json.Limit} (h : (w.perform op args).result = .error (.limit l)) :
    operate w op args asJson present =
      ⟨.error (.limit l), logged (w.perform op args).log, (w.perform op args).spawns⟩ := by
  unfold World.perform at h
  simp only [operate, h, World.perform]

theorem operate_of_reported {e : OperationError} (h : (w.perform op args).result = .error (.reported e)) :
    operate w op args asJson present = (Run.failed asJson e.message).after
      (logged ((w.perform op args).log ++ Log.debug w.env.debug (op.name ++ " failed: " ++ e.kind.name : String)))
      (w.perform op args).spawns := by
  unfold World.perform at h
  simp only [operate, h, World.perform]

/-- What is printed depends on the arguments through the result and the log only. -/
theorem operate_congr (asJson : Bool) (present : Json → Run) {args' : Members Empty}
    (hresult : (w.perform op args).result = (w.perform op args').result)
    (hlog : (w.perform op args).log = (w.perform op args').log) :
    (operate w op args asJson present).status = (operate w op args' asJson present).status ∧
      (operate w op args asJson present).printed = (operate w op args' asJson present).printed := by
  cases h : (w.perform op args').result with
  | ok v =>
    rw [operate_of_ok (hresult.trans h), operate_of_ok h, hlog]
    exact ⟨rfl, rfl⟩
  | error f =>
    cases f with
    | limit l =>
      rw [operate_of_limit (hresult.trans h), operate_of_limit h, hlog]
      exact ⟨rfl, rfl⟩
    | reported e =>
      rw [operate_of_reported (hresult.trans h), operate_of_reported h, hlog]
      exact ⟨rfl, rfl⟩

/-- The processes are those of the operation. -/
theorem spawns_operate (h : ∀ v, (present v).Presents) :
    (operate w op args asJson present).spawns = (w.perform op args).spawns := by
  cases hresult : (w.perform op args).result with
  | ok v => rw [operate_of_ok hresult, Run.after, (Run.presents_told (h v)).spawns, List.append_nil]
  | error f =>
    cases f with
    | limit l => rw [operate_of_limit hresult]
    | reported e => rw [operate_of_reported hresult, Run.after, Run.spawns_failed, List.append_nil]

end

namespace Task

/-- The processes of a task are those of its operation. -/
theorem spawns_run {w : World} {task : Task} {op : Operation} {args : Members Empty}
    (h : task.request = .ok (op, args)) (asJson : Bool) : (task.run w asJson).spawns = (w.perform op args).spawns := by
  rw [Task.run_eq, h]
  exact spawns_operate (task.presents_present w.env)

/-- The operation of a task gives a value. -/
def Gives (w : World) (task : Task) (v : Json) : Prop :=
  ∃ op args, task.request = .ok (op, args) ∧ (w.perform op args).result = .ok v

/-- A task fails with a message: the reason why it comes to no operation, or the error of its operation. -/
inductive Fails (w : World) (task : Task) : Text → Prop
  | refused {message : Text} : task.request = .error (.reported message) → Fails w task message
  | operation {op : Operation} {args : Members Empty} {e : OperationError} : task.request = .ok (op, args) →
    (w.perform op args).result = .error (.reported e) → Fails w task e.message

/-- What a run of a task is: its operation gives a value or an error, or a limit of the reader is exceeded; or there is
no operation, for a reason that is reported or one that cuts the run short. -/
inductive Ends (w : World) (task : Task) (asJson : Bool) : Run → Prop
  | gives {op : Operation} {args : Members Empty} {v : Json} : task.request = .ok (op, args) →
    (w.perform op args).result = .ok v →
    Ends w task asJson ((if asJson then Run.json 0 (Run.outcome v) else task.present w.env v).after
      (logged (task.warnings ++ (w.perform op args).log)) (w.perform op args).spawns)
  | fails {op : Operation} {args : Members Empty} {e : OperationError} {remark : Text} :
    task.request = .ok (op, args) → (w.perform op args).result = .error (.reported e) →
    Ends w task asJson ((Run.failed asJson e.message).after
      (logged (task.warnings ++ ((w.perform op args).log ++ Log.debug w.env.debug remark))) (w.perform op args).spawns)
  | limit {op : Operation} {args : Members Empty} (l : Json.Limit) : task.request = .ok (op, args) →
    Ends w task asJson
      ⟨.error (.limit l), logged (task.warnings ++ (w.perform op args).log), (w.perform op args).spawns⟩
  | refused {message : Text} : task.request = .error (.reported message) →
    Ends w task asJson (Run.failed asJson message)
  | fatal (f : Fatal) : Ends w task asJson ⟨.error f, [], []⟩

theorem ends_run (w : World) (task : Task) (asJson : Bool) : Ends w task asJson (task.run w asJson) := by
  rw [Task.run_eq]
  cases hrequest : task.request with
  | error reason =>
    cases reason with
    | fatal f => exact .fatal f
    | reported message => exact .refused hrequest
  | ok request =>
    obtain ⟨op, args⟩ := request
    dsimp only
    cases hresult : (w.perform op args).result with
    | ok v =>
      rw [operate_of_ok hresult, Run.after_after]
      exact .gives hrequest hresult
    | error f =>
      cases f with
      | limit l =>
        have hlogged : logged task.warnings ++ logged (w.perform op args).log =
            logged (task.warnings ++ (w.perform op args).log) := List.map_append.symm
        rw [operate_of_limit hresult, Run.after, hlogged]
        exact .limit l hrequest
      | reported e =>
        rw [operate_of_reported hresult, Run.after_after]
        exact .fails hrequest hresult

end Task

end AgentBridge.CommandLine
