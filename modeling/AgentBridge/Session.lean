import AgentBridge.Operation

/-
  AgentBridge.Session — several requests to one configured backend.

  A session has a configuration and environment variables. The configuration is fixed when
  the session starts; an attempt to assign to one of its fields is refused. The variables may
  be set between the steps, and all that a later step takes from them is whether to log
  debugging remarks, so steps do not depend on each other in any other way
  (`run_append` says how the variables are carried on).
-/

namespace AgentBridge

inductive Step where
  /-- Set variables for the steps that follow. -/
  | setVariables (entries : List (String × String))
  /-- Run the operation with a name. -/
  | run (operation : String) (args : Members Empty) (runner : Runner)
  /-- Call the backend with any action. -/
  | call (call : Call) (runner : Runner)
  /-- Call the backend with one of the actions that it knows. -/
  | callKnown (action : String) (payload : Payload) (runner : Runner)
  /-- Ask which command line a call would start. -/
  | commandLine (call : Call)
  /-- Ask for the configuration. -/
  | configuration
  /-- Assign to a field of the configuration. -/
  | assign (field : Text)

inductive StepValue where
  | environment (env : Environment)
  | data (v : Json)
  | commandLine (argv : List Text)
  | configuration (c : Config)

inductive StepError where
  | operation (e : OperationError)
  | unknownAction (name : String)
  | violation (v : Violation)

/-- The wording for an action that the backend does not know. -/
def StepError.unknownActionMessage (name : String) : Text :=
  Text.ofChars (Text.ofString name).quoted ++ " is not a valid BridgeAction"

/-- The result of a step with what it logged and started. -/
abbrev StepResult := Traced (Except (Failure StepError) StepValue)

namespace Step

/-- A result without any trace. -/
def quiet (r : Except StepError StepValue) : StepResult :=
  match r with
  | .ok v => ⟨.ok v, [], []⟩
  | .error e => ⟨.error (.reported e), [], []⟩

/-- The outcome of a call or an operation as the result of a step. -/
def ofTraced {ε : Type} (f : ε → OperationError) (t : Traced (Except (Failure ε) Json)) :
    StepResult :=
  match t.result with
  | .ok v => ⟨.ok (.data v), t.log, t.spawns⟩
  | .error e => ⟨.error (e.map fun e => .operation (f e)), t.log, t.spawns⟩

def after (env : Environment) : Step → Environment
  | .setVariables entries => env.merge entries
  | _ => env

def result (c : Config) (env : Environment) : Step → StepResult
  | .setVariables entries => quiet (.ok (.environment (env.merge entries)))
  | .run operation args runner => ofTraced id (Operation.runNamed operation c env.debug runner args)
  | .call request runner => ofTraced OperationError.call (c.call env.debug runner request)
  | .callKnown action payload runner =>
    match Action.ofText? action with
    | some known => ofTraced OperationError.call (c.call env.debug runner ⟨known, payload⟩)
    | none => quiet (.error (.unknownAction action))
  | .commandLine request =>
    match c.argv request with
    | .ok argv => quiet (.ok (.commandLine argv))
    | .error e => quiet (.error (.operation (.call e)))
  | .configuration => quiet (.ok (.configuration c))
  | .assign field => quiet (.error (.violation ⟨field, .frozen⟩))

end Step

namespace Session

def after (env : Environment) (steps : List Step) : Environment := steps.foldl Step.after env

/-- The results of the steps, in order. -/
def run (c : Config) (env : Environment) : List Step → List StepResult
  | [] => []
  | s :: rest => s.result c env :: run c (s.after env) rest

/-- Later steps see of the earlier ones the variables only. -/
theorem run_append (c : Config) (env : Environment) (a b : List Step) :
    run c env (a ++ b) = run c env a ++ run c (after env a) b := by
  induction a generalizing env with
  | nil => rfl
  | cons s rest ih => simp [run, after, ih]

end Session

end AgentBridge
