/-
  AgentBridge.Environment — environment variables.

  An environment is a list of entries, variables with their values, each name at most once when it is
  built by `set`. `get?_set` says what setting a variable does to looking one up.
-/

namespace AgentBridge

/-- The variables that are set. -/
structure Environment where
  entries : List (String × String)
  deriving DecidableEq, Repr

namespace Environment

def empty : Environment := ⟨[]⟩

def get? (env : Environment) (name : String) : Option String :=
  (env.entries.find? (·.1 = name)).map (·.2)

def set (env : Environment) (name value : String) : Environment :=
  ⟨(name, value) :: env.entries.filter (·.1 ≠ name)⟩

def merge (env : Environment) (more : List (String × String)) : Environment :=
  more.foldl (fun env (name, value) => env.set name value) env

/-- Debugging is on when its variable is exactly "1". -/
def debug (env : Environment) : Bool := env.get? "XRAY_DESKTOP_DEBUG" = some "1"

/-- After setting a variable, it has the value and the others keep theirs. -/
theorem get?_set (env : Environment) (name value other : String) :
    (env.set name value).get? other = if other = name then some value else env.get? other := by
  by_cases h : other = name
  · simp [set, get?, h]
  · have hn : name ≠ other := Ne.symm h
    simp only [set, get?, List.find?_cons, hn, if_neg h, decide_false]
    congr 1
    rw [List.find?_filter]
    congr 1
    funext kv
    by_cases hk : kv.1 = other
    · simp [hk, h]
    · simp [hk]

end Environment

end AgentBridge
