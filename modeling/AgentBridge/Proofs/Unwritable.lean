import AgentBridge.Proofs.Calls

/-
  AgentBridge.Proofs.Unwritable — what has no JSON text, and which fault is reported.

  A value is looked through from left to right, each part in front of what is in it (`parts`).
  Some parts have no text by themselves: a foreign one, a whole number that is too long and, in
  a strict style, a number that is not finite (`fault?`). A value cannot be written exactly if
  there is such a part in it, and the writer reports the first one (`writeAt_eq_error_iff`, by
  recursion over the value). The failure is worded by the kind of that part (`Wording`). A payload
  that cannot be written leaves no trace: nothing is started and nothing is logged for it
  (`encode_fails_iff`).
-/

namespace AgentBridge

/-! ## Parts -/

mutual

/-- A value and everything in it, from left to right, each part in front of what is in it. -/
def Value.parts {F : Type} : Value F → List (Value F)
  | .array items => .array items :: Value.partsOfItems items
  | .object members => .object members :: Value.partsOfMembers members
  | v => [v]

def Value.partsOfItems {F : Type} : List (Value F) → List (Value F)
  | [] => []
  | v :: rest => v.parts ++ Value.partsOfItems rest

def Value.partsOfMembers {F : Type} : List (Text × Value F) → List (Value F)
  | [] => []
  | (_, v) :: rest => v.parts ++ Value.partsOfMembers rest

end

namespace Json

/-! ## Faults -/

section

variable {F : Type}

/-- Why a part by itself cannot be written in a style. -/
def Style.fault? (s : Style F) : Value F → Option WriteError
  | .foreign x => some (.foreign (s.kind x))
  | .float x => if s.strict && !x.isFinite then some .notFinite else none
  | .int n => if digitLimit < (Nat.toDigits 10 n.natAbs).length then some .tooManyDigits else none
  | _ => none

/-- The first fault among some parts. -/
def Style.firstFault? (s : Style F) (parts : List (Value F)) : Option WriteError := parts.findSome? s.fault?

/-- A whole number has too many digits exactly if it reaches the power of ten with as many zeros. -/
theorem digitLimit_lt_length_iff (n : Nat) : digitLimit < (Nat.toDigits 10 n).length ↔ 10 ^ digitLimit ≤ n := by
  rw [← not_iff_not, Nat.not_lt, Nat.not_le]
  exact Nat.length_toDigits_le_iff (by decide) (by decide)

variable {s : Style F} {level : Nat} {e : WriteError}

theorem writeInteger_eq_error_iff {n : Int} : writeInteger n = .error e ↔ s.fault? (.int n) = some e := by
  rw [writeInteger, Style.fault?, Nat.pow_eq]
  simp only [digitLimit_lt_length_iff]
  split
  · simp
  · simp

theorem writeFloat_eq_error_iff {x : Binary64} : writeFloat s.strict x = .error e ↔ s.fault? (.float x) = some e := by
  rw [writeFloat, Style.fault?]
  split
  · simp
  · simp

/-- Of two steps one after the other, the first that fails is the one with the first fault. -/
theorem steps_eq_error_iff {α β γ : Type} {x : Except WriteError α} {y : Except WriteError β} {f : α → β → γ}
    {front behind : List (Value F)} (hx : ∀ e, x = .error e ↔ s.firstFault? front = some e)
    (hy : ∀ e, y = .error e ↔ s.firstFault? behind = some e) :
    (x >>= fun a => y >>= fun b => .ok (f a b)) = .error e ↔ s.firstFault? (front ++ behind) = some e := by
  rw [Style.firstFault?, List.findSome?_append, ← Style.firstFault?, ← Style.firstFault?]
  cases x with
  | error e' =>
    rw [(hx e').mp rfl]
    simp [bind, Except.bind]
  | ok a =>
    have hfront : s.firstFault? front = none := by
      rw [Option.eq_none_iff_forall_ne_some]
      intro e' he
      cases (hx e').mpr he
    rw [hfront, Option.none_or, ← hy e]
    cases y <;> simp [bind, Except.bind]

mutual

/-- A value cannot be written exactly if some part of it cannot, and the first such part tells why. -/
theorem writeAt_eq_error_iff {level : Nat} {e : WriteError} :
    (v : Value F) → (writeAt s level v = .error e ↔ s.firstFault? v.parts = some e)
  | .null | .bool true | .bool false | .str _ | .array [] | .object [] => by
    constructor
    · intro h
      cases h
    · intro h
      cases h
  | .int n => by
    rw [writeAt, writeInteger_eq_error_iff (s := s)]
    simp [Style.firstFault?, Value.parts]
  | .float x => by
    rw [writeAt, writeFloat_eq_error_iff]
    simp [Style.firstFault?, Value.parts]
  | .foreign x => by
    simp [writeAt, Style.firstFault?, Value.parts, Style.fault?]
  | .array (v :: rest) =>
    steps_eq_error_iff (fun _ => writeAt_eq_error_iff v) fun _ => writeItems_eq_error_iff rest
  | .object ((_, v) :: rest) =>
    steps_eq_error_iff (fun _ => writeAt_eq_error_iff v) fun _ => writeMembers_eq_error_iff rest

theorem writeItems_eq_error_iff {level : Nat} {e : WriteError} :
    (items : List (Value F)) →
      (writeItems s level items = .error e ↔ s.firstFault? (Value.partsOfItems items) = some e)
  | [] => by
    constructor
    · intro h
      cases h
    · intro h
      cases h
  | v :: rest => steps_eq_error_iff (fun _ => writeAt_eq_error_iff v) fun _ => writeItems_eq_error_iff rest

theorem writeMembers_eq_error_iff {level : Nat} {e : WriteError} :
    (members : List (Text × Value F)) →
      (writeMembers s level members = .error e ↔ s.firstFault? (Value.partsOfMembers members) = some e)
  | [] => by
    constructor
    · intro h
      cases h
    · intro h
      cases h
  | (_, v) :: rest => steps_eq_error_iff (fun _ => writeAt_eq_error_iff v) fun _ => writeMembers_eq_error_iff rest

end

end

end Json

/-! ## Payloads -/

namespace Payload

/-- A part of a payload that JSON cannot say: an object of a foreign kind, a number that is infinite or no number, or a
whole number with too many digits. -/
inductive Unsayable : Payload → Json.WriteError → Prop
  | foreign (kind : ForeignKind) : Unsayable (.foreign kind) (.foreign kind.name)
  | notFinite {x : Binary64} : x.isFinite = false → Unsayable (.float x) .notFinite
  | tooManyDigits {n : Int} : Json.digitLimit < (Nat.toDigits 10 n.natAbs).length → Unsayable (.int n) .tooManyDigits

/-- The first part of a payload that JSON cannot say, and why. -/
def FirstUnsayable (p part : Payload) (w : Json.WriteError) : Prop :=
  ∃ before behind, p.parts = before ++ part :: behind ∧ (∀ other ∈ before, ∀ w', ¬ Unsayable other w') ∧
    Unsayable part w

theorem unsayable_iff {part : Payload} {w : Json.WriteError} : Unsayable part w ↔ style.fault? part = some w := by
  constructor
  · intro h
    cases h with
    | foreign kind => rfl
    | notFinite hx =>
      rw [Json.Style.fault?, hx]
      rfl
    | tooManyDigits hn => rw [Json.Style.fault?, if_pos hn]
  · intro h
    cases part with
    | foreign kind =>
      cases h
      exact .foreign kind
    | float x =>
      rw [Json.Style.fault?] at h
      split at h
      · rename_i hx
        cases h
        exact .notFinite (by simpa [style] using hx)
      · cases h
    | int n =>
      rw [Json.Style.fault?] at h
      split at h
      · rename_i hn
        cases h
        exact .tooManyDigits hn
      · cases h
    | _ => cases h

theorem firstUnsayable_iff {p : Payload} {w : Json.WriteError} :
    (∃ part, FirstUnsayable p part w) ↔ style.firstFault? p.parts = some w := by
  have hnone : ∀ other : Payload, (∀ w', ¬ Unsayable other w') ↔ style.fault? other = none := by
    intro other
    simp only [unsayable_iff, Option.eq_none_iff_forall_ne_some, ne_eq]
  rw [Json.Style.firstFault?, List.findSome?_eq_some_iff]
  constructor
  · intro h
    obtain ⟨part, before, behind, hparts, hbefore, hpart⟩ := h
    exact ⟨before, part, behind, hparts, unsayable_iff.mp hpart, fun other ho => (hnone other).mp (hbefore other ho)⟩
  · intro h
    obtain ⟨before, part, behind, hparts, hpart, hbefore⟩ := h
    exact ⟨part, before, behind, hparts, fun other ho => (hnone other).mpr (hbefore other ho), unsayable_iff.mpr hpart⟩

/-- Encoding reports the first part that JSON cannot say. -/
theorem encode_eq_error_iff {p : Payload} {e : CallError} :
    p.encode = .error e ↔ ∃ part w, FirstUnsayable p part w ∧ e = .unwritable w := by
  have hwrite : ∀ w, Json.writeAt style 0 p = .error w ↔ ∃ part, FirstUnsayable p part w :=
    fun w => (Json.writeAt_eq_error_iff p).trans firstUnsayable_iff.symm
  rw [encode]
  constructor
  · intro h
    split at h
    · cases h
    · rename_i w hw
      cases h
      obtain ⟨part, hpart⟩ := (hwrite w).mp hw
      exact ⟨part, w, hpart, rfl⟩
  · intro h
    obtain ⟨part, w, hpart, rfl⟩ := h
    rw [(hwrite w).mpr ⟨part, hpart⟩]

theorem exists_firstUnsayable_iff {p : Payload} :
    (∃ part w, FirstUnsayable p part w) ↔ ∃ part ∈ p.parts, ∃ w, Unsayable part w := by
  constructor
  · intro h
    obtain ⟨part, w, before, behind, hparts, -, hpart⟩ := h
    refine ⟨part, ?_, w, hpart⟩
    rw [hparts]
    exact List.mem_append_right before List.mem_cons_self
  · intro h
    obtain ⟨part, hmem, w, hpart⟩ := h
    have hfirst : style.firstFault? p.parts ≠ none := by
      intro hnone
      have hpartNone := List.findSome?_eq_none_iff.mp hnone part hmem
      rw [unsayable_iff.mp hpart] at hpartNone
      cases hpartNone
    obtain ⟨w', hw'⟩ := Option.ne_none_iff_exists'.mp hfirst
    obtain ⟨first, h⟩ := firstUnsayable_iff.mpr hw'
    exact ⟨first, w', h⟩

/-- The cause of the failure is told by the part that JSON cannot say. -/
theorem Unsayable.cause_eq {part : Payload} {w : Json.WriteError} (h : Unsayable part w) :
    ((∃ kind, part = .foreign kind) → w.cause = "TypeError") ∧
      ((∀ kind, part ≠ .foreign kind) → w.cause = "ValueError") := by
  cases h with
  | foreign kind => exact ⟨fun _ => rfl, fun hno => absurd rfl (hno kind)⟩
  | notFinite _ => exact ⟨fun hkind => (nomatch hkind), fun _ => rfl⟩
  | tooManyDigits _ => exact ⟨fun hkind => (nomatch hkind), fun _ => rfl⟩

/-- What is said of a part that JSON cannot say. -/
inductive Wording : Payload → String → Prop
  | foreign (kind : ForeignKind) :
    Wording (.foreign kind) ("Object of type " ++ kind.name ++ " is not JSON serializable")
  | notFinite (x : Binary64) : Wording (.float x) "Out of range float values are not JSON compliant"
  | tooManyDigits (n : Int) : Wording (.int n) ("Exceeds the limit (4300 digits) for integer string conversion; " ++
      "use sys.set_int_max_str_digits() to increase the limit")

theorem Unsayable.wording {part : Payload} {w : Json.WriteError} (h : Unsayable part w) : Wording part w.message := by
  cases h with
  | foreign kind => exact .foreign kind
  | notFinite _ => exact .notFinite _
  | tooManyDigits _ => exact .tooManyDigits _

/-- A payload cannot be encoded exactly if JSON cannot say some part of it. The failure is reported with the text and
the cause that belong to the first such part from left to right, and a call with this payload starts nothing and logs
nothing, whether debugging is on or not. -/
theorem encode_fails_iff (p : Payload) :
    ((∃ e, p.encode = .error e) ↔ ∃ part ∈ p.parts, ∃ w, Unsayable part w) ∧
    (∀ e, p.encode = .error e → ∃ part w, FirstUnsayable p part w ∧ e = .unwritable w ∧ e.kind = .serialization ∧
      e.message = Text.ofString ("Cannot serialize bridge payload: " ++ w.message) ∧ Wording part w.message ∧
      ((∃ kind, part = .foreign kind) → w.cause = "TypeError") ∧
      ((∀ kind, part ≠ .foreign kind) → w.cause = "ValueError")) ∧
    ∀ e, p.encode = .error e → ∀ (c : Config) (debug : Bool) (run : Runner) (action : Text),
      c.call debug run ⟨action, p⟩ = ⟨.error (.reported e), [], []⟩ := by
  refine ⟨?_, ?_, ?_⟩
  · rw [← exists_firstUnsayable_iff]
    constructor
    · intro h
      obtain ⟨e, he⟩ := h
      obtain ⟨part, w, hpart, -⟩ := encode_eq_error_iff.mp he
      exact ⟨part, w, hpart⟩
    · intro h
      obtain ⟨part, w, hpart⟩ := h
      exact ⟨.unwritable w, encode_eq_error_iff.mpr ⟨part, w, hpart, rfl⟩⟩
  · intro e he
    obtain ⟨part, w, hfirst, rfl⟩ := encode_eq_error_iff.mp he
    obtain ⟨-, -, -, -, hpart⟩ := id hfirst
    exact ⟨part, w, hfirst, rfl, rfl, rfl, hpart.wording, hpart.cause_eq⟩
  · intro e he c debug run action
    exact Config.call_of_unwritable c debug run action he

/-- A number that is none, deep inside, stands in front of a set. -/
theorem encode_fails_iff_nested :
    (∃ e, encode (.array [.bool true, .object [("a", .array [.float .nan]), ("b", .foreign .set)]]) = .error e) ∧
      Config.call ⟨"node", "bridge.js", none⟩ true (fun _ => .expired)
          ⟨"status", .array [.bool true, .object [("a", .array [.float .nan]), ("b", .foreign .set)]]⟩ =
        ⟨.error (.reported (.unwritable .notFinite)), [], []⟩ := by
  obtain ⟨hiff, -, htrace⟩ :=
    encode_fails_iff (.array [.bool true, .object [("a", .array [.float .nan]), ("b", .foreign .set)]])
  have hpart : Unsayable (.float .nan) .notFinite := .notFinite rfl
  exact ⟨hiff.mpr ⟨_, by simp [Value.parts, Value.partsOfItems, Value.partsOfMembers], _, hpart⟩, htrace _ rfl _ _ _ _⟩

end Payload

end AgentBridge
