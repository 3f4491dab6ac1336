import AgentBridge.Call
import AgentBridge.Proofs.Spelling

/-
  AgentBridge.Proofs.RoundTrip — values are read back as they were written.

  Every value that a text can hold can be written, in any layout (`exists_writeAt`, by induction
  on it), and its text tells this value (`told_ofJson`). So the text is read as the same value
  (`read_of_writeAt`).
-/

namespace AgentBridge

namespace Json

/-- No number in a value is infinite or not-a-number. -/
inductive AllFinite : Json → Prop
  | null : AllFinite .null
  | bool (b : Bool) : AllFinite (.bool b)
  | int (n : Int) : AllFinite (.int n)
  | float {x : Binary64} : x.isFinite = true → AllFinite (.float x)
  | str (t : Text) : AllFinite (.str t)
  | array {items : List Json} : (∀ v ∈ items, AllFinite v) → AllFinite (.array items)
  | object {members : List (Text × Json)} : (∀ kv ∈ members, AllFinite kv.2) → AllFinite (.object members)

/-! ## Values that a text can hold -/

section

variable {F : Type} {s : Style F} {room : Nat}

theorem toldItems_eq {items : List Json} (h : ∀ v ∈ items, (Value.ofJson v : Value F).told = v) :
    Value.toldItems (Value.ofItems items : List (Value F)) = items := by
  induction items with
  | nil => rfl
  | cons v rest ih =>
    obtain ⟨hv, hrest⟩ := List.forall_mem_cons.mp h
    rw [Value.ofItems, Value.toldItems, hv, ih hrest]

theorem toldMembers_eq {members : List (Text × Json)} (hk : ∀ kv ∈ members, kv.1.Paired)
    (h : ∀ kv ∈ members, (Value.ofJson kv.2 : Value F).told = kv.2) (before : Members Empty)
    (hn : (Members.keys (before ++ members)).Nodup) :
    Value.toldMembers before (Value.ofMembers members : List (Text × Value F)) = before ++ members := by
  induction members generalizing before with
  | nil => rw [Value.ofMembers, Value.toldMembers, List.append_nil]
  | cons kv rest ih =>
    obtain ⟨k, v⟩ := kv
    obtain ⟨hkey, hkeys⟩ := List.forall_mem_cons.mp hk
    obtain ⟨hv, hrest⟩ := List.forall_mem_cons.mp h
    have hset : Members.set k v before = before ++ [(k, v)] := by
      refine keys_set_of_not_mem v fun hm => ?_
      simp only [Members.keys, List.map_append, List.map_cons] at hn hm
      exact (List.nodup_append.mp hn).2.2 k hm k (by simp) rfl
    rw [Value.ofMembers, Value.toldMembers, Text.pair_eq_self hkey, hv, hset, ih hkeys hrest _ (by simpa using hn),
      List.append_assoc, List.singleton_append]

/-- A value that a text can hold is told as it is. -/
theorem told_ofJson {v : Json} (h : Readable room v) : (Value.ofJson v : Value F).told = v := by
  induction h with
  | null => rfl
  | bool b => rfl
  | int _ => rfl
  | float x => rfl
  | str ht => rw [Value.ofJson, Value.told, Text.pair_eq_self ht]
  | array _ ih => rw [Value.ofJson, Value.told, toldItems_eq ih]
  | object hn hk _ ih => rw [Value.ofJson, Value.told, toldMembers_eq hk ih [] hn, List.nil_append]

theorem depthOfItems_le {items : List Json} {n : Nat} (h : ∀ v ∈ items, (Value.ofJson v : Value F).depth ≤ n) :
    Value.depthOfItems (Value.ofItems items : List (Value F)) ≤ n := by
  induction items with
  | nil => exact Nat.zero_le n
  | cons v rest ih =>
    obtain ⟨hv, hrest⟩ := List.forall_mem_cons.mp h
    exact Nat.max_le.mpr ⟨hv, ih hrest⟩

theorem depthOfMembers_le {members : List (Text × Json)} {n : Nat}
    (h : ∀ kv ∈ members, (Value.ofJson kv.2 : Value F).depth ≤ n) :
    Value.depthOfMembers (Value.ofMembers members : List (Text × Value F)) ≤ n := by
  induction members with
  | nil => exact Nat.zero_le n
  | cons kv rest ih =>
    obtain ⟨k, v⟩ := kv
    obtain ⟨hv, hrest⟩ := List.forall_mem_cons.mp h
    exact Nat.max_le.mpr ⟨hv, ih hrest⟩

theorem depth_ofJson_le {v : Json} (h : Readable room v) : (Value.ofJson v : Value F).depth ≤ room := by
  induction h with
  | array _ ih => exact Nat.succ_le_succ (depthOfItems_le ih)
  | object _ _ _ ih => exact Nat.succ_le_succ (depthOfMembers_le ih)
  | _ => exact Nat.zero_le _

theorem writeInteger_of_lt {n : Int} (hn : n.natAbs < 10 ^ digitLimit) : writeInteger n = .ok (integerText n) := by
  rw [writeInteger, Nat.pow_eq, if_neg (Nat.not_le.mpr hn)]

theorem writeFloat_of_finite {strict : Bool} {x : Binary64} (h : strict = true → x.isFinite = true) :
    writeFloat strict x = .ok (x.text "NaN" "Infinity") := by
  unfold writeFloat
  cases strict with
  | true => simp [h rfl]
  | false => rfl

theorem exists_writeItems {items : List Json} (h : ∀ v ∈ items, ∀ level, ∃ t, writeAt s level (.ofJson v) = .ok t)
    (level : Nat) : ∃ t, writeItems s level (Value.ofItems items) = .ok t := by
  induction items with
  | nil => exact ⟨[], rfl⟩
  | cons v rest ih =>
    obtain ⟨hv, hrest⟩ := List.forall_mem_cons.mp h
    obtain ⟨first, hfirst⟩ := hv level
    obtain ⟨others, hothers⟩ := ih hrest
    exact ⟨_, bind_eq_ok.mpr ⟨first, hfirst, bind_eq_ok.mpr ⟨others, hothers, rfl⟩⟩⟩

theorem exists_writeMembers {members : List (Text × Json)}
    (h : ∀ kv ∈ members, ∀ level, ∃ t, writeAt s level (.ofJson kv.2) = .ok t) (level : Nat) :
    ∃ t, writeMembers s level (Value.ofMembers members) = .ok t := by
  induction members with
  | nil => exact ⟨[], rfl⟩
  | cons kv rest ih =>
    obtain ⟨k, v⟩ := kv
    obtain ⟨hv, hrest⟩ := List.forall_mem_cons.mp h
    obtain ⟨first, hfirst⟩ := hv level
    obtain ⟨others, hothers⟩ := ih hrest
    exact ⟨_, bind_eq_ok.mpr ⟨first, hfirst, bind_eq_ok.mpr ⟨others, hothers, rfl⟩⟩⟩

/-- Every value that a text can hold can be written, if it is finite or the style is lenient. -/
theorem exists_writeAt {v : Json} (h : Readable room v) (hf : s.strict = true → AllFinite v) (level : Nat) :
    ∃ t, writeAt s level (.ofJson v) = .ok t := by
  induction h generalizing level with
  | null => exact ⟨_, rfl⟩
  | bool b => cases b <;> exact ⟨_, rfl⟩
  | int hn => exact ⟨_, writeInteger_of_lt hn⟩
  | float x =>
    refine ⟨_, writeFloat_of_finite fun hs => ?_⟩
    cases hf hs
    assumption
  | str ht => exact ⟨_, rfl⟩
  | @array _ items _ ih =>
    have hitems : ∀ v ∈ items, ∀ level, ∃ t, writeAt s level (.ofJson v) = .ok t := by
      intro v hv level
      refine ih v hv (fun hs => ?_) level
      cases hf hs with
      | array hall => exact hall v hv
    cases items with
    | nil => exact ⟨_, rfl⟩
    | cons v rest =>
      obtain ⟨hv, hrest⟩ := List.forall_mem_cons.mp hitems
      obtain ⟨first, hfirst⟩ := hv (level + 1)
      obtain ⟨others, hothers⟩ := exists_writeItems hrest (level + 1)
      exact ⟨_, bind_eq_ok.mpr ⟨first, hfirst, bind_eq_ok.mpr ⟨others, hothers, rfl⟩⟩⟩
  | @object _ members _ _ _ ih =>
    have hmembers : ∀ kv ∈ members, ∀ level, ∃ t, writeAt s level (.ofJson kv.2) = .ok t := by
      intro kv hkv level
      refine ih kv hkv (fun hs => ?_) level
      cases hf hs with
      | object hall => exact hall kv hkv
    cases members with
    | nil => exact ⟨_, rfl⟩
    | cons kv rest =>
      obtain ⟨k, v⟩ := kv
      obtain ⟨hv, hrest⟩ := List.forall_mem_cons.mp hmembers
      obtain ⟨first, hfirst⟩ := hv (level + 1)
      obtain ⟨others, hothers⟩ := exists_writeMembers hrest (level + 1)
      exact ⟨_, bind_eq_ok.mpr ⟨first, hfirst, bind_eq_ok.mpr ⟨others, hothers, rfl⟩⟩⟩

/-- What was written is read as the value it was written for. -/
theorem read_of_writeAt {v : Json} (level : Nat) (h : Readable nestingLimit v) (hf : s.strict = true → AllFinite v) :
    ∃ t, writeAt s level (Value.ofJson v) = .ok t ∧ read t = .ok v := by
  obtain ⟨t, ht⟩ := exists_writeAt h hf level
  have hread := read_of_told ht (depth_ofJson_le h)
  rw [told_ofJson h] at hread
  exact ⟨t, ht, hread⟩

/-- The values that a text can hold are those that are read from some text. -/
theorem readable_iff {v : Json} : Readable nestingLimit v ↔ ∃ cs, read cs = .ok v := by
  constructor
  · intro h
    obtain ⟨t, -, hread⟩ := read_of_writeAt (s := ⟨false, .oneLine, Empty.elim⟩) 0 h (by simp)
    exact ⟨t, hread⟩
  · rintro ⟨cs, h⟩
    exact readable_of_read h

end

end Json

/-! ## Refusals -/

namespace Envelope

variable {F : Type} (message : Text)

theorem depth_refusal_le : (Envelope.refusal message : Value F).depth ≤ Json.nestingLimit := by
  have hone : (Envelope.refusal message : Value F).depth = 1 := rfl
  rw [hone]
  decide

/-- A refusal tells its message, with surrogates joined. -/
theorem told_refusal : (Envelope.refusal message : Value F).told = Envelope.refusal message.pair := rfl

end Envelope

/-! ## Payloads -/

namespace Payload

/-- A payload that was read from some text is written as one line of printed characters of ASCII, which is
read as the same payload. -/
theorem read_of_encode {cs : List Char} {v : Json} (h : Json.read cs = .ok v) (hf : v.AllFinite) :
    ∃ t, encode (.ofJson v) = .ok t ∧ Json.Printable t ∧ Json.read t = .ok v := by
  obtain ⟨t, ht, hread⟩ := Json.read_of_writeAt (s := style) 0 (Json.readable_of_read h) fun _ => hf
  refine ⟨t, ?_, Json.printable_writeAt rfl _ ht, hread⟩
  rw [encode, ht]

/-- A zero, a negative zero, and both halves of a character above U+FFFF before one of them by itself. -/
theorem read_of_encode_surrogates :
    Json.read "[0, -0.0, \"\\ud83d\\ude00\\ud83d\"]".toList =
        .ok (.array [.int 0, .float (.zero true), .str [.char (Char.ofNat 0x1F600), .high 61]]) ∧
      ∃ t, encode (.ofJson (.array [.int 0, .float (.zero true), .str [.char (Char.ofNat 0x1F600), .high 61]])) =
          .ok t ∧ Json.Printable t ∧
        Json.read t = .ok (.array [.int 0, .float (.zero true), .str [.char (Char.ofNat 0x1F600), .high 61]]) := by
  have h : Json.read "[0, -0.0, \"\\ud83d\\ude00\\ud83d\"]".toList =
      .ok (.array [.int 0, .float (.zero true), .str [.char (Char.ofNat 0x1F600), .high 61]]) := by rfl
  refine ⟨h, read_of_encode h (.array fun v hv => ?_)⟩
  simp only [List.mem_cons, List.not_mem_nil, or_false] at hv
  rcases hv with rfl | rfl | rfl
  · exact .int 0
  · exact .float rfl
  · exact .str _

end Payload

end AgentBridge
