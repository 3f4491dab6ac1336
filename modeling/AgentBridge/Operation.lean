import AgentBridge.Call
import AgentBridge.Request

/-
  AgentBridge.Operation — what the application can ask of the backend.

  There are six operations, and the backend knows six actions. What an operation does is its
  own: the action that it sends, the arguments that it takes, and whether it hands on what
  comes back (`run`). A table lists which names there are for callers, and for each of them the
  action and whether there is a value (`table`). It is kept apart from the operations, and an
  operation is looked up through both (`ofName?`). What is listed under a name is what the
  operation of that name does (`describes_of_name`), and every operation is listed
  (`ofName?_name`).

  Arguments come as JSON values under the callers' names; a null stands for an argument that
  was not given, and the missing ones are reported together before anything else is checked.
-/

namespace AgentBridge

/-- The actions that the backend knows. -/
inductive Action where
  | importToken
  | connect
  | setMode
  | disconnect
  | updateDisguise
  | status
  deriving DecidableEq, Repr

namespace Action

def all : List Action :=
  [.importToken, .connect, .setMode, .disconnect, .updateDisguise, .status]

/-- The name of an action on the wire. -/
def text : Action → String
  | .importToken => "importToken"
  | .connect => "connect"
  | .setMode => "setMode"
  | .disconnect => "disconnect"
  | .updateDisguise => "updateDisguise"
  | .status => "status"

instance : Coe Action String := ⟨text⟩

def ofText? (text : String) : Option Action := all.find? (·.text = text)

end Action

inductive Operation where
  | importToken
  | connect
  | setMode
  | disconnect
  | updateDisguise
  | status
  deriving DecidableEq, Repr

namespace Operation

def all : List Operation :=
  [.importToken, .connect, .setMode, .disconnect, .updateDisguise, .status]

def name : Operation → String
  | .importToken => "import_token"
  | .connect => "connect"
  | .setMode => "set_mode"
  | .disconnect => "disconnect"
  | .updateDisguise => "update_disguise"
  | .status => "status"

/-- The action that an operation sends. -/
def action : Operation → Action
  | .importToken => .importToken
  | .connect => .connect
  | .setMode => .setMode
  | .disconnect => .disconnect
  | .updateDisguise => .updateDisguise
  | .status => .status

/-- The value that an operation hands on, from the value of its call. Where only success counts
it is dropped. -/
def handOn : Operation → Json → Json
  | .importToken, _ => .null
  | .connect, data => data
  | .setMode, data => data
  | .disconnect, _ => .null
  | .updateDisguise, data => data
  | .status, data => data

theorem handOn_cases (op : Operation) (data : Json) : op.handOn data = .null ∨ op.handOn data = data := by
  cases op with
  | importToken => exact Or.inl rfl
  | connect => exact Or.inr rfl
  | setMode => exact Or.inr rfl
  | disconnect => exact Or.inl rfl
  | updateDisguise => exact Or.inr rfl
  | status => exact Or.inr rfl

/-- The names of the arguments, in order. -/
def parameters : Operation → List String
  | .importToken => ["base_url", "token"]
  | .setMode => ["mode"]
  | .updateDisguise => ["base_url", "server_id", "admin_api_key", "disguise"]
  | _ => []

/-- The value of an argument; one that was not given is null. -/
def argument (args : Members Empty) (parameter : String) : Json :=
  (args.get? parameter).getD .null

/-- The arguments of an operation, each under its name and in order. -/
def arguments (op : Operation) (args : Members Empty) : Members Empty :=
  op.parameters.map fun p => (Text.ofString p, argument args p)

def isNull : Json → Bool
  | .null => true
  | _ => false

def missing (args : Members Empty) : List Text := (args.filter fun kv => isNull kv.2).map (·.1)

/-- The outcome of a check as a payload; of several violations the first is reported. -/
def checked {α : Type} (toJson : α → Json) : Checked α → Except ArgumentError Json
  | .ok a => .ok (toJson a)
  | .error v _ => .error (.invalid v)

/-- The payload of an operation with the given arguments. -/
def pack (op : Operation) (args : Members Empty) : Except ArgumentError Json :=
  let args := op.arguments args
  match missing args with
  | [] =>
    match op with
    | .importToken => checked ImportRequest.toJson (ImportRequest.ofMembers args)
    | .setMode => checked ModeRequest.toJson (ModeRequest.ofMembers args)
    | .updateDisguise => checked DisguiseRequest.toJson (DisguiseRequest.ofMembers args)
    | _ => .ok (.object [])
  | names => .error (.missing names)

def run (op : Operation) (c : Config) (debug : Bool) (runner : Runner) (args : Members Empty) :
    Traced (Except (Failure OperationError) Json) :=
  match op.pack args with
  | .error e => ⟨.error (.reported (.argument e)), [], []⟩
  | .ok payload =>
    let t := c.call debug runner ⟨op.action, .ofJson payload⟩
    match t.result with
    | .ok data => { t with result := .ok (op.handOn data) }
    | .error e => { t with result := .error (e.map .call) }

/-! ## The table -/

/-- What callers are told of an operation. -/
structure Listing where
  name : String
  action : Action
  /-- Whether there is a value for the caller, or success alone. -/
  returnsValue : Bool
  deriving DecidableEq, Repr

/-- The table of operations. -/
def table : List Listing :=
  [⟨"import_token", .importToken, false⟩,
   ⟨"connect", .connect, true⟩,
   ⟨"set_mode", .setMode, true⟩,
   ⟨"disconnect", .disconnect, false⟩,
   ⟨"update_disguise", .updateDisguise, true⟩,
   ⟨"status", .status, true⟩]

/-- The operation that has a name itself, whether the table has this name or not. -/
def named? (name : String) : Option Operation := all.find? (·.name = name)

/-- The operation for a name. The table decides whether there is one. -/
def ofName? (name : String) : Option Operation :=
  match table.find? (·.name = name) with
  | some listing => named? listing.name
  | none => none

def runNamed (name : String) (c : Config) (debug : Bool) (runner : Runner)
    (args : Members Empty) : Traced (Except (Failure OperationError) Json) :=
  match ofName? name with
  | some op => op.run c debug runner args
  | none => ⟨.error (.reported (.argument (.unknownOperation name))), [], []⟩

/-- What a listing tells of an operation is what the operation does. -/
structure Listing.Describes (listing : Listing) (op : Operation) : Prop where
  name : listing.name = op.name
  action : listing.action = op.action
  value : ∀ v, op.handOn v = if listing.returnsValue then v else .null

theorem name_inj {op op' : Operation} (h : op.name = op'.name) : op = op' := by
  revert h
  cases op <;> cases op' <;> decide

theorem named?_name (op : Operation) : named? op.name = some op := by cases op <;> decide

/-- Each listing describes an operation. -/
theorem exists_described {listing : Listing} (h : listing ∈ table) : ∃ op, listing.Describes op := by
  simp only [table, List.mem_cons, List.not_mem_nil, or_false] at h
  rcases h with rfl | rfl | rfl | rfl | rfl | rfl
  · exact ⟨.importToken, rfl, rfl, fun _ => rfl⟩
  · exact ⟨.connect, rfl, rfl, fun _ => rfl⟩
  · exact ⟨.setMode, rfl, rfl, fun _ => rfl⟩
  · exact ⟨.disconnect, rfl, rfl, fun _ => rfl⟩
  · exact ⟨.updateDisguise, rfl, rfl, fun _ => rfl⟩
  · exact ⟨.status, rfl, rfl, fun _ => rfl⟩

/-- The operation that a listing describes is the one that has its name. -/
theorem describes_of_name {listing : Listing} {op : Operation} (h : listing ∈ table) (hname : listing.name = op.name) :
    listing.Describes op := by
  obtain ⟨op', hop⟩ := exists_described h
  obtain rfl := name_inj (hop.name.symm.trans hname)
  exact hop

/-- Each operation is in the table, and it is found there. -/
theorem ofName?_name (op : Operation) : ofName? op.name = some op := by
  have hlisted : ∃ listing, table.find? (·.name = op.name) = some listing := by
    rw [← Option.isSome_iff_exists, List.find?_isSome]
    cases op <;> decide
  obtain ⟨listing, hlisting⟩ := hlisted
  have hname : listing.name = op.name := by simpa using List.find?_some hlisting
  simp only [ofName?, hlisting, hname, named?_name]

theorem ofName?_eq_none {name : String} (h : ∀ listing ∈ table, listing.name ≠ name) : ofName? name = none := by
  have hnone : table.find? (·.name = name) = none := by
    rw [List.find?_eq_none]
    intro listing hlisting
    simpa using h listing hlisting
  simp only [ofName?, hnone]

end Operation

end AgentBridge
