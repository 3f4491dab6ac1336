import AgentBridge.Proofs.RoundTrip

/-
  AgentBridge.Proofs.Writable — which values have a JSON text.

  A value has a strict JSON text only if no number in it is infinite or not-a-number and no
  whole number too long (`writable_of_writeAt`, by recursion over the value as the writer goes
  through it). Together with bounds that concern reading alone, on brackets, keys and
  surrogates, it can be held by a text (`Proper.readable`).
-/

namespace AgentBridge.Json

/-- No number in a value is infinite, not-a-number or a whole number with more digits than are written. -/
inductive Writable : Json → Prop
  | null : Writable .null
  | bool (b : Bool) : Writable (.bool b)
  | int {n : Int} : n.natAbs < 10 ^ digitLimit → Writable (.int n)
  | float {x : Binary64} : x.isFinite = true → Writable (.float x)
  | str (t : Text) : Writable (.str t)
  | array {items : List Json} : (∀ v ∈ items, Writable v) → Writable (.array items)
  | object {members : List (Text × Json)} : (∀ kv ∈ members, Writable kv.2) → Writable (.object members)

/-- A value has at most `room` brackets inside each other, no key of an object comes twice, and no two
surrogates could be joined. -/
inductive Proper : Nat → Json → Prop
  | null {room : Nat} : Proper room .null
  | bool {room : Nat} (b : Bool) : Proper room (.bool b)
  | int {room : Nat} (n : Int) : Proper room (.int n)
  | float {room : Nat} (x : Binary64) : Proper room (.float x)
  | str {room : Nat} {t : Text} : t.Paired → Proper room (.str t)
  | array {room : Nat} {items : List Json} : (∀ v ∈ items, Proper room v) → Proper (room + 1) (.array items)
  | object {room : Nat} {members : List (Text × Json)} : (Members.keys members).Nodup →
    (∀ kv ∈ members, kv.1.Paired) → (∀ kv ∈ members, Proper room kv.2) → Proper (room + 1) (.object members)

theorem Writable.allFinite {v : Json} (h : Writable v) : AllFinite v := by
  induction h with
  | null => exact .null
  | bool b => exact .bool b
  | int _ => exact .int _
  | float hx => exact .float hx
  | str t => exact .str t
  | array _ ih => exact .array ih
  | object _ ih => exact .object ih

/-- A value that could be read and written can be held by a text. -/
theorem Proper.readable {room : Nat} {v : Json} (h : Proper room v) (hw : Writable v) : Readable room v := by
  induction h with
  | null => exact .null
  | bool b => exact .bool b
  | int n =>
    cases hw with
    | int hn => exact .int hn
  | float x => exact .float x
  | str ht => exact .str ht
  | array _ ih =>
    cases hw with
    | array hall => exact .array fun v hv => ih v hv (hall v hv)
  | object hn hk _ ih =>
    cases hw with
    | object hall => exact .object hn hk fun kv hkv => ih kv hkv (hall kv hkv)

/-- A value that a text can hold can be written if its numbers are finite. -/
theorem Readable.writable {room : Nat} {v : Json} (h : Readable room v) (hf : AllFinite v) : Writable v := by
  induction h with
  | null => exact .null
  | bool b => exact .bool b
  | int hn => exact .int hn
  | float x =>
    cases hf with
    | float hx => exact .float hx
  | @str _ t _ => exact .str t
  | array _ ih =>
    cases hf with
    | array hall => exact .array fun v hv => ih v hv (hall v hv)
  | object _ _ _ ih =>
    cases hf with
    | object hall => exact .object fun kv hkv => ih kv hkv (hall kv hkv)

theorem depth_le_depthOfItems {v : Json} {items : List Json} (h : v ∈ items) : v.depth ≤ Value.depthOfItems items := by
  induction items with
  | nil => cases h
  | cons x items ih =>
    rw [Value.depthOfItems]
    rcases List.mem_cons.mp h with rfl | h
    · exact le_max_left _ _
    · exact (ih h).trans (le_max_right _ _)

theorem depth_le_depthOfMembers {kv : Text × Json} {members : List (Text × Json)} (h : kv ∈ members) :
    kv.2.depth ≤ Value.depthOfMembers members := by
  induction members with
  | nil => cases h
  | cons x members ih =>
    rw [Value.depthOfMembers]
    rcases List.mem_cons.mp h with rfl | h
    · exact le_max_left _ _
    · exact (ih h).trans (le_max_right _ _)

/-- A value that a text can hold needs no more room than its own brackets. -/
theorem Readable.proper {room n : Nat} {v : Json} (h : Readable room v) (hd : v.depth ≤ n) : Proper n v := by
  induction h generalizing n with
  | null => exact .null
  | bool b => exact .bool b
  | int _ => exact .int _
  | float x => exact .float x
  | str ht => exact .str ht
  | @array _ items _ ih =>
    rw [Value.depth] at hd
    obtain ⟨n, rfl⟩ := Nat.exists_eq_add_of_le' (Nat.le_of_add_left_le hd)
    exact .array fun v hv => ih v hv ((depth_le_depthOfItems hv).trans (Nat.le_of_add_le_add_right hd))
  | @object _ members hk hp _ ih =>
    rw [Value.depth] at hd
    obtain ⟨n, rfl⟩ := Nat.exists_eq_add_of_le' (Nat.le_of_add_left_le hd)
    exact .object hk hp fun kv hkv => ih kv hkv ((depth_le_depthOfMembers hkv).trans (Nat.le_of_add_le_add_right hd))

variable {F : Type} {s : Style F}

mutual

/-- What was written strictly could be written. -/
theorem writable_of_writeAt (hs : s.strict = true) {level : Nat} {t : List Char} :
    (v : Json) → writeAt s level (Value.ofJson v) = .ok t → Writable v
  | .null => fun _ => .null
  | .bool b => fun _ => .bool b
  | .int n => by
    intro h
    rw [Value.ofJson, writeAt] at h
    exact .int (lt_of_writeInteger h)
  | .float x => by
    intro h
    rw [Value.ofJson, writeAt] at h
    exact .float (isFinite_of_writeFloat hs h)
  | .str t => fun _ => .str t
  | .array [] => fun _ => .array (List.forall_mem_nil _)
  | .array (v :: rest) => by
    intro h
    obtain ⟨first, hfirst, h⟩ := bind_eq_ok.mp h
    obtain ⟨others, hothers, -⟩ := bind_eq_ok.mp h
    refine .array (List.forall_mem_cons.mpr ⟨?_, ?_⟩)
    · exact writable_of_writeAt hs v hfirst
    · exact writable_of_writeItems hs rest hothers
  | .object [] => fun _ => .object (List.forall_mem_nil _)
  | .object ((k, v) :: rest) => by
    intro h
    obtain ⟨first, hfirst, h⟩ := bind_eq_ok.mp h
    obtain ⟨others, hothers, -⟩ := bind_eq_ok.mp h
    refine .object (List.forall_mem_cons.mpr ⟨?_, ?_⟩)
    · exact writable_of_writeAt hs v hfirst
    · exact writable_of_writeMembers hs rest hothers

theorem writable_of_writeItems (hs : s.strict = true) {level : Nat} {t : List Char} :
    (items : List Json) → writeItems s level (Value.ofItems items) = .ok t → ∀ v ∈ items, Writable v
  | [] => fun _ => List.forall_mem_nil _
  | v :: rest => by
    intro h
    obtain ⟨first, hfirst, h⟩ := bind_eq_ok.mp h
    obtain ⟨others, hothers, -⟩ := bind_eq_ok.mp h
    refine List.forall_mem_cons.mpr ⟨?_, ?_⟩
    · exact writable_of_writeAt hs v hfirst
    · exact writable_of_writeItems hs rest hothers

theorem writable_of_writeMembers (hs : s.strict = true) {level : Nat} {t : List Char} :
    (members : List (Text × Json)) → writeMembers s level (Value.ofMembers members) = .ok t →
      ∀ kv ∈ members, Writable kv.2
  | [] => fun _ => List.forall_mem_nil _
  | (k, v) :: rest => by
    intro h
    obtain ⟨first, hfirst, h⟩ := bind_eq_ok.mp h
    obtain ⟨others, hothers, -⟩ := bind_eq_ok.mp h
    refine List.forall_mem_cons.mpr ⟨?_, ?_⟩
    · exact writable_of_writeAt hs v hfirst
    · exact writable_of_writeMembers hs rest hothers

end

end AgentBridge.Json
