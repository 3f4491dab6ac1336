import AgentBridge.Json.Value
import AgentBridge.Number.Decimal

/-
  AgentBridge.Shape — checking that a JSON value has the shape of a record.

  A check either gives what it read or lists every violation, in the order of the fields and
  then, for a closed record, of the keys that no field uses. Combining two checks keeps the
  violations of both (`violations_seq`), so a record reports all its faults at once.

  A rule for a text takes it as it is, also with surrogates that have no partner. Where the
  characters of a text matter, such a text is a violation. They matter for the keys of a
  closed record, which cannot be told to be names of fields or not; then nothing else is
  reported (`violations_closed_of_none`).

  A field may have two spellings, one for the wire and one for callers. The wire spelling is
  looked for first; where both are given, the other one belongs to no field.
-/

namespace AgentBridge

/-- What is wrong with a value, or with a field of it. -/
inductive Wrong where
  | notRecord (shape : String)
  | missing
  | notText
  | notFlag
  | notObject
  | notPath
  | notNumber
  /-- A text with a surrogate that has no partner. -/
  | notUnicode
  | unreadableNumber
  | notPositive
  | unexpected
  | frozen
  deriving DecidableEq, Repr

/-- Something wrong, and the field where it is; no field stands for the whole value. -/
structure Violation where
  place : Text
  wrong : Wrong
  deriving DecidableEq

namespace Wrong

def tag : Wrong → String
  | .notRecord _ => "model_type"
  | .missing => "missing"
  | .notText => "string_type"
  | .notFlag => "bool_type"
  | .notObject => "dict_type"
  | .notPath => "path_type"
  | .notNumber => "float_type"
  | .notUnicode => "string_unicode"
  | .unreadableNumber => "float_parsing"
  | .notPositive => "greater_than"
  | .unexpected => "extra_forbidden"
  | .frozen => "frozen_instance"

def message : Wrong → String
  | .notRecord shape => "Input should be a valid dictionary or instance of " ++ shape
  | .missing => "Field required"
  | .notText => "Input should be a valid string"
  | .notFlag => "Input should be a valid boolean"
  | .notObject => "Input should be a valid dictionary"
  | .notPath => "Input is not a valid path for <class 'pathlib.Path'>"
  | .notNumber => "Input should be a valid number"
  | .notUnicode => "Input should be a valid string, unable to parse raw data as a unicode string"
  | .unreadableNumber => "Input should be a valid number, unable to parse string as a number"
  | .notPositive => "Input should be greater than 0"
  | .unexpected => "Extra inputs are not permitted"
  | .frozen => "Instance is frozen"

end Wrong

/-- The outcome of a check: what was read, or the violations, of which there is at least
one. -/
inductive Checked (α : Type) where
  | ok (a : α)
  | error (first : Violation) (others : List Violation)

namespace Checked

/-- Apply what one check gives to what another gives; the violations of both are kept. -/
def seq {α β : Type} : Checked (α → β) → Checked α → Checked β
  | .ok f, .ok a => .ok (f a)
  | .ok _, .error v vs => .error v vs
  | .error v vs, .ok _ => .error v vs
  | .error v vs, .error w ws => .error v (vs ++ w :: ws)

instance : Applicative Checked where
  pure := .ok
  seq f a := seq f (a ())

def violations {α : Type} : Checked α → List Violation
  | .ok _ => []
  | .error v vs => v :: vs

/-- Two checks one after the other have the violations of both. -/
@[simp] theorem violations_seq {α β : Type} (f : Checked (α → β)) (a : Checked α) :
    (seq f a).violations = f.violations ++ a.violations := by
  cases f <;> cases a <;> simp [seq, violations]

end Checked

/-- A rule for the value of a field. -/
abbrev Rule (α : Type) := Json → Except Wrong α

namespace Rule

def anything : Rule Json := .ok

def text : Rule Text
  | .str s => .ok s
  | _ => .error .notText

/-- Yes or no, and no number in their place. -/
def flag : Rule Bool
  | .bool b => .ok b
  | _ => .error .notFlag

def object : Rule (Members Empty)
  | .object m => .ok m
  | _ => .error .notObject

/-- What the rule allows, or null. -/
def orNull {α : Type} (rule : Rule α) : Rule (Option α)
  | .null => .ok none
  | v => (rule v).map some

end Rule

namespace Shape

variable {α : Type}

def found (key : Text) (rule : Rule α) (v : Json) : Checked α :=
  match rule v with
  | .ok a => .ok a
  | .error w => .error ⟨key, w⟩ []

def required (m : Members Empty) (key : Text) (rule : Rule α) : Checked α :=
  match m.get? key with
  | some v => found key rule v
  | none => .error ⟨key, .missing⟩ []

def withDefault (m : Members Empty) (key : Text) (default : α) (rule : Rule α) : Checked α :=
  match m.get? key with
  | some v => found key rule v
  | none => .ok default

/-- The spelling under which a field with two spellings is read. -/
def spelling (m : Members Empty) (wire name : Text) : Text :=
  if (m.get? wire).isSome || (m.get? name).isNone then wire else name

/-- A field with two spellings that has to be there under one of them. -/
def requiredAs (m : Members Empty) (wire name : Text) (rule : Rule α) : Checked α :=
  required m (spelling m wire name) rule

/-- No keys but those that the fields use. -/
def noOthers (m : Members Empty) (used : List Text) : Checked Unit :=
  match m.keys.filter (!used.contains ·) with
  | [] => .ok ()
  | key :: more => .error ⟨key, .unexpected⟩ (more.map (⟨·, .unexpected⟩))

def closed (m : Members Empty) (used : List Text) (fields : Checked α) : Checked α :=
  if m.keys.all (·.toChars?.isSome) then fields <* noOthers m used
  else .error ⟨[], .notUnicode⟩ []

/-- A value that has to be an object, with a check of its members. -/
def record (shape : String) (check : Members Empty → Checked α) : Json → Checked α
  | .object m => check m
  | _ => .error ⟨[], .notRecord shape⟩ []

/-- A key that is not made of characters is the only violation of a closed record. -/
theorem violations_closed_of_none {m : Members Empty} {key : Text} (h : key ∈ m.keys)
    (hk : key.toChars? = none) (used : List Text) (fields : Checked α) :
    (closed m used fields).violations = [⟨[], .notUnicode⟩] := by
  have hall : m.keys.all (·.toChars?.isSome) = false :=
    List.all_eq_false.mpr ⟨key, h, by simp [hk]⟩
  simp [closed, hall, Checked.violations]

end Shape

end AgentBridge
