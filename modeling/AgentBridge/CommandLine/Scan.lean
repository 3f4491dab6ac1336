import AgentBridge.CommandLine.Usage
import AgentBridge.Text.Pieces
import AgentBridge.Text.Similar

/-
  AgentBridge.CommandLine.Scan — options and positional arguments of a command line.

  An argument that starts with a hyphen and has more to it is an option; its value follows an
  equals sign or is the next argument, whatever that looks like. Two hyphens by themselves
  end the options. Where options may follow positional arguments, all other arguments are
  positional; where they may not, the first of them and everything behind it are.

  No name starts with a single hyphen, so of such an option only the letter is looked at.
-/

namespace AgentBridge.CommandLine

/-- An option on the command line, with its value if it has one. -/
structure Given where
  option : Opt
  value : List Char
  deriving DecidableEq, Repr

structure Scanned where
  given : List Given
  rest : List (List Char)
  deriving DecidableEq, Repr

namespace Scanned

def addOption (o : Opt) (value : List Char) (s : Scanned) : Scanned :=
  { s with given := ⟨o, value⟩ :: s.given }

def addRest (argument : List Char) (s : Scanned) : Scanned := { s with rest := argument :: s.rest }

def has (s : Scanned) (o : Opt) : Bool := s.given.any (·.option = o)

/-- The value of an option, the last one if it is given several times. -/
def value? (s : Scanned) (o : Opt) : Option (List Char) :=
  ((s.given.filter (·.option = o)).getLast?).map (·.value)

end Scanned

/-- What ends the options. -/
def optionsEnd : List Char := ['-', '-']

def isOption : List Char → Bool
  | '-' :: _ :: _ => true
  | _ => false

/-- The name of an option, and the value behind an equals sign. -/
def nameAndValue (argument : List Char) : List Char × Option (List Char) :=
  match cutAt? '=' argument with
  | some (name, value) => (name, some value)
  | none => (argument, none)

def unknownOption (known : List Opt) (argument : List Char) : UsageError :=
  match argument with
  | '-' :: '-' :: _ =>
    let name := (nameAndValue argument).1
    .noSuchOption name (Similar.suggestions name (known.map Opt.name))
  | _ => .noSuchOption (argument.take 2) []

def scan (known : List Opt) (interspersed : Bool) :
    List (List Char) → Except UsageError Scanned
  | [] => .ok ⟨[], []⟩
  | argument :: rest =>
    if argument = optionsEnd then .ok ⟨[], rest⟩
    else if !isOption argument then
      if interspersed then (scan known interspersed rest).map (·.addRest argument)
      else .ok ⟨[], argument :: rest⟩
    else
      match Opt.find? known (nameAndValue argument).1, (nameAndValue argument).2 with
      | none, _ => .error (unknownOption known argument)
      | some o, some value =>
        if o.takesValue then (scan known interspersed rest).map (·.addOption o value)
        else .error (.takesNoValue o)
      | some o, none =>
        if o.takesValue then
          match rest with
          | [] => .error (.needsValue o)
          | value :: rest => (scan known interspersed rest).map (·.addOption o value)
        else (scan known interspersed rest).map (·.addOption o [])

end AgentBridge.CommandLine
