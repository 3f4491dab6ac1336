import AgentBridge.Environment
import AgentBridge.Path
import AgentBridge.Shape

/-
  AgentBridge.Config — how to reach the backend process.

  A configuration names the program that runs the backend, the entry script that it is given
  as its first argument, and an optional deadline for each call. The deadline is a number
  greater than zero, which its type says, so there is no configuration with another one.

  A configuration comes from an object of fields, where every fault is reported, or from the
  environment, where a variable that is missing or makes no sense counts as not set. The
  environment always gives a configuration, so `Config.ofEnvironment` is total: the fields that
  it gives (`environmentMembers`) are ones that the checks let pass.
-/

namespace AgentBridge

structure Deadline where
  seconds : Binary64
  positive : seconds.isPositive = true
  deriving DecidableEq

namespace Deadline

/-- A number as a deadline, if it is greater than zero. -/
def ofSeconds? (x : Binary64) : Option Deadline :=
  if h : x.isPositive = true then some ⟨x, h⟩ else none

def text (d : Deadline) : List Char := d.seconds.display

end Deadline

structure Config where
  program : Text
  script : Text
  deadline : Option Deadline
  deriving DecidableEq

namespace Config

/-! ## Fields -/

/-- A path, in its normal form. -/
def pathRule : Rule Text
  | .str s => .ok (Path.normal s)
  | _ => .error .notPath

/-- A number in any of its spellings; yes counts as one and no as zero. -/
def numberRule : Rule Binary64
  | .float x => .ok x
  | .int n =>
    match Binary64.ofInt n with
    | .infinite _ => .error .notNumber
    | x => .ok x
  | .bool b => .ok (Binary64.ofInt (if b then 1 else 0))
  | .str s =>
    match s.toChars? with
    | some spelled => (Binary64.ofField? spelled).elim (.error .unreadableNumber) .ok
    | none => .error .notUnicode
  | _ => .error .notNumber

/-- A number greater than zero. -/
def deadlineRule : Rule Deadline := fun v => do
  match Deadline.ofSeconds? (← numberRule v) with
  | some d => .ok d
  | none => .error .notPositive

/-- A configuration from its fields; other fields are ignored. -/
def ofMembers (m : Members Empty) : Checked Config :=
  Config.mk <$> Shape.required m "node_binary" Rule.text
    <*> Shape.required m "script_path" pathRule
    <*> Shape.withDefault m "timeout" none (Rule.orNull deadlineRule)

def toMembers (c : Config) : Members Empty :=
  [("node_binary", .str c.program), ("script_path", .str c.script),
   ("timeout", match c.deadline with
    | some d => .float d.seconds
    | none => .null)]

/-! ## Environment -/

/-- The program when the environment names none. -/
def defaultProgram : String := "node"

/-- The entry script, seen from the directory where the application is installed. -/
def scriptParts : List String := ["backend", "desktop-bridge.cjs"]

/-- The entry script of an application that is installed in a directory. -/
def installedScript (directory : Text) : Text :=
  Path.normal (joinWith [Path.slash] (directory :: scriptParts.map Text.ofString))

/-- The program that the environment names; an empty name counts as none. -/
def programOf (env : Environment) : String :=
  match env.get? "NODE_BINARY" with
  | some name => if name = "" then defaultProgram else name
  | none => defaultProgram

/-- The deadline that the environment sets, if it spells a number greater than zero. -/
def deadlineOf (env : Environment) : Option Deadline := do
  let spelled ← env.get? "XRAY_DESKTOP_BRIDGE_TIMEOUT"
  let seconds ← Binary64.ofEnvironment? spelled.toList
  Deadline.ofSeconds? seconds

def ofEnvironment (directory : Text) (env : Environment) : Config :=
  ⟨programOf env, installedScript directory, deadlineOf env⟩

/-- The seconds that the environment sets, if it spells a number greater than zero. -/
def secondsOf (env : Environment) : Option Binary64 := do
  let spelled ← env.get? "XRAY_DESKTOP_BRIDGE_TIMEOUT"
  let seconds ← Binary64.ofEnvironment? spelled.toList
  if seconds.isPositive then some seconds else none

/-- The fields of a configuration as the environment gives them, before any check of theirs. -/
def environmentMembers (directory : Text) (env : Environment) : Members Empty :=
  [("node_binary", .str (programOf env)), ("script_path", .str (installedScript directory)),
   ("timeout", match secondsOf env with
    | some seconds => .float seconds
    | none => .null)]

theorem programOf_ne_empty (env : Environment) : programOf env ≠ "" := by
  unfold programOf
  split
  · split
    · decide
    · assumption
  · decide

end Config

end AgentBridge
