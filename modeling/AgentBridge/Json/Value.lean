import AgentBridge.Number.Binary64
import AgentBridge.Text

/-
  AgentBridge.Json.Value — the values that travel over the bridge.

  A value is what JSON can say, and in addition may hold things that JSON cannot say: a
  caller's object of a foreign kind `F`. A JSON value is one with no foreign parts,
  `Json := Value Empty`. Whole numbers and floating-point numbers are kept apart, and the
  members of an object keep their order.

  `Members.set` is what a repeated key does: the last value wins and the first place is
  kept (`get?_set`, `keys_set_of_mem`).
-/

namespace AgentBridge

/-- A value that may hold foreign parts. -/
inductive Value (F : Type) where
  | null
  | bool (b : Bool)
  | int (n : Int)
  | float (x : Binary64)
  | str (s : Text)
  | array (items : List (Value F))
  | object (members : List (Text × Value F))
  | foreign (x : F)

/-- A value that JSON can say. -/
abbrev Json := Value Empty

/-- The members of an object, in order. -/
abbrev Members (F : Type) := List (Text × Value F)

namespace Members

variable {F : Type}

def get? (key : Text) : Members F → Option (Value F)
  | [] => none
  | (k, v) :: rest => if k = key then some v else get? key rest

/-- Give a key a value: in its place if it has one, else at the end. -/
def set (key : Text) (value : Value F) : Members F → Members F
  | [] => [(key, value)]
  | (k, v) :: rest => if k = key then (k, value) :: rest else (k, v) :: set key value rest

/-- The keys, in order. -/
def keys (m : Members F) : List Text := m.map (·.1)

/-- After giving a key a value, that key has it and the others keep theirs. -/
theorem get?_set (key other : Text) (value : Value F) (m : Members F) :
    get? other (set key value m) = if other = key then some value else get? other m := by
  induction m with
  | nil =>
    by_cases h : other = key
    · simp [set, get?, h]
    · simp [set, get?, h, Ne.symm h]
  | cons kv rest ih =>
    obtain ⟨k, v⟩ := kv
    by_cases hk : k = key
    · subst hk
      by_cases h : other = k
      · simp [set, get?, h]
      · simp [set, get?, h, Ne.symm h]
    · by_cases h : k = other
      · subst h; simp [set, get?, hk]
      · simp [set, get?, hk, h, ih]

theorem keys_set_of_mem {key : Text} (value : Value F) {m : Members F} (h : key ∈ keys m) :
    keys (set key value m) = keys m := by
  induction m with
  | nil => simp [keys] at h
  | cons kv rest ih =>
    obtain ⟨k, v⟩ := kv
    by_cases hk : k = key
    · simp [set, keys, hk]
    · have : key ∈ keys rest := by
        simp only [keys, List.map_cons, List.mem_cons] at h
        exact h.resolve_left (Ne.symm hk)
      simp only [set, hk, if_false, keys, List.map_cons, List.cons.injEq, true_and]
      exact ih this

end Members

namespace Json

/-- Whether a value counts as a yes: not null, not false, not zero and not empty. -/
def isTruthy : Json → Bool
  | .null => false
  | .bool b => b
  | .int n => n != 0
  | .float x => !x.isZero
  | .str s => !s.isEmpty
  | .array items => !items.isEmpty
  | .object members => !members.isEmpty
  | .foreign x => nomatch x

/-- A JSON text that is not a value yet: a string of characters as a value. -/
def ofString (s : String) : Json := .str (Text.ofString s)

end Json

mutual

/-- The most brackets that are open at once in the text of a value. -/
def Value.depth {F : Type} : Value F → Nat
  | .array items => Value.depthOfItems items + 1
  | .object members => Value.depthOfMembers members + 1
  | _ => 0

def Value.depthOfItems {F : Type} : List (Value F) → Nat
  | [] => 0
  | v :: rest => max v.depth (Value.depthOfItems rest)

def Value.depthOfMembers {F : Type} : List (Text × Value F) → Nat
  | [] => 0
  | (_, v) :: rest => max v.depth (Value.depthOfMembers rest)

end

mutual

/-- A JSON value as a value that may hold foreign parts. -/
def Value.ofJson {F : Type} : Json → Value F
  | .null => .null
  | .bool b => .bool b
  | .int n => .int n
  | .float x => .float x
  | .str s => .str s
  | .array items => .array (Value.ofItems items)
  | .object members => .object (Value.ofMembers members)
  | .foreign x => nomatch x

/-- The items of an array, each as a value that may hold foreign parts. -/
def Value.ofItems {F : Type} : List Json → List (Value F)
  | [] => []
  | v :: rest => Value.ofJson v :: Value.ofItems rest

/-- The members of an object, each as a value that may hold foreign parts. -/
def Value.ofMembers {F : Type} : List (Text × Json) → List (Text × Value F)
  | [] => []
  | (k, v) :: rest => (k, Value.ofJson v) :: Value.ofMembers rest

end

mutual

/-- A JSON value without foreign parts is itself. -/
@[simp] theorem Value.ofJson_self : (v : Json) → (Value.ofJson v : Json) = v
  | .null | .bool _ | .int _ | .float _ | .str _ => rfl
  | .array items => congrArg Value.array (Value.ofItems_self items)
  | .object members => congrArg Value.object (Value.ofMembers_self members)
  | .foreign x => nomatch x

theorem Value.ofItems_self : (items : List Json) → Value.ofItems items = items
  | [] => rfl
  | v :: rest => by rw [Value.ofItems, Value.ofJson_self v, Value.ofItems_self rest]

theorem Value.ofMembers_self : (members : List (Text × Json)) → Value.ofMembers members = members
  | [] => rfl
  | (k, v) :: rest => by rw [Value.ofMembers, Value.ofJson_self v, Value.ofMembers_self rest]

end

end AgentBridge
