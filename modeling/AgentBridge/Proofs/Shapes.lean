import AgentBridge.Envelope

/-
  AgentBridge.Proofs.Shapes — when a check goes well.

  A check goes well exactly when its parts do: `seq_eq_ok_iff` and `required_eq_ok_iff` take a
  record apart into its fields, `closed_eq_ok_iff` says which keys it may have. A field with
  two spellings is read under the second one where only that is there (`spelling_eq_name`).
  An envelope is a record of this kind (`Envelope.ofMembers_eq_ok_iff`).
-/

namespace AgentBridge

/-! ## Members -/

namespace Members

variable {F : Type}

theorem get?_eq_none_iff {key : Text} {m : Members F} : m.get? key = none ↔ key ∉ m.keys := by
  induction m with
  | nil => simp [get?, keys]
  | cons kv rest ih =>
    obtain ⟨k, v⟩ := kv
    by_cases hk : k = key
    · simp [get?, keys, hk]
    · rw [get?, if_neg hk, ih]
      simp [keys, Ne.symm hk]

/-- A key that is there has a value. -/
theorem exists_get? {key : Text} {m : Members F} (h : key ∈ m.keys) : ∃ v, m.get? key = some v := by
  refine Option.ne_none_iff_exists'.mp ?_
  intro hnone
  exact get?_eq_none_iff.mp hnone h

theorem mem_of_get? {key : Text} {v : Value F} {m : Members F} (h : m.get? key = some v) : (key, v) ∈ m := by
  induction m with
  | nil => cases h
  | cons kv rest ih =>
    obtain ⟨k, w⟩ := kv
    by_cases hk : k = key
    · rw [get?, if_pos hk] at h
      obtain rfl := Option.some.inj h
      rw [hk]
      exact List.mem_cons_self
    · rw [get?, if_neg hk] at h
      exact List.mem_cons_of_mem _ (ih h)

end Members

/-! ## Parts of a check -/

namespace Checked

variable {α β : Type}

theorem seq_eq_ok_iff {f : Checked (α → β)} {x : Checked α} {b : β} :
    f <*> x = .ok b ↔ ∃ g a, f = .ok g ∧ x = .ok a ∧ g a = b := by
  show seq f x = .ok b ↔ _
  cases f with
  | error v vs => cases x <;> simp [seq]
  | ok g => cases x <;> simp [seq]

theorem map_eq_ok_iff {f : α → β} {x : Checked α} {b : β} : f <$> x = .ok b ↔ ∃ a, x = .ok a ∧ f a = b := by
  show seq (.ok f) x = .ok b ↔ _
  cases x <;> simp [seq]

theorem seqLeft_eq_ok_iff {x : Checked α} {y : Checked β} {a : α} :
    x <* y = .ok a ↔ x = .ok a ∧ ∃ b, y = .ok b := by
  show seq (seq (.ok (Function.const β)) x) y = .ok a ↔ _
  cases x <;> cases y <;> simp [seq]

end Checked

namespace Rule

theorem text_eq_ok_iff {v : Json} {t : Text} : text v = .ok t ↔ v = .str t := by
  cases v <;> simp [text]

theorem object_eq_ok_iff {v : Json} {m : Members Empty} : object v = .ok m ↔ v = .object m := by
  cases v <;> simp [object]

theorem flag_eq_ok_iff {v : Json} {b : Bool} : flag v = .ok b ↔ v = .bool b := by
  cases v <;> simp [flag]

theorem orNull_text_eq_ok_iff {v : Json} {t : Option Text} : orNull text v = .ok t ↔ v = t.elim .null .str := by
  cases v <;> cases t <;> simp [orNull, text, Except.map]

end Rule

namespace Shape

variable {α : Type}

theorem found_eq_ok_iff {key : Text} {rule : Rule α} {v : Json} {a : α} :
    found key rule v = .ok a ↔ rule v = .ok a := by
  unfold found
  cases rule v <;> simp

theorem required_eq_ok_iff {m : Members Empty} {key : Text} {rule : Rule α} {a : α} :
    required m key rule = .ok a ↔ ∃ v, m.get? key = some v ∧ rule v = .ok a := by
  unfold required
  cases m.get? key with
  | none => simp
  | some v => simp [found_eq_ok_iff]

theorem withDefault_eq_ok_iff {m : Members Empty} {key : Text} {default : α} {rule : Rule α} {a : α} :
    withDefault m key default rule = .ok a ↔
      (m.get? key = none ∧ default = a) ∨ ∃ v, m.get? key = some v ∧ rule v = .ok a := by
  unfold withDefault
  cases m.get? key with
  | none => simp
  | some v => simp [found_eq_ok_iff]

/-- Where the wire spelling is not there, the other one is read if it is. -/
theorem spelling_eq_name {m : Members Empty} {wire name : Text} (hwire : wire ∉ m.keys) (hname : name ∈ m.keys) :
    spelling m wire name = name := by
  have hnone : m.get? wire = none := Members.get?_eq_none_iff.mpr hwire
  obtain ⟨v, hsome⟩ := Members.exists_get? hname
  refine if_neg ?_
  rw [hnone, hsome]
  exact Bool.false_ne_true

theorem noOthers_eq_ok_iff {m : Members Empty} {used : List Text} :
    noOthers m used = .ok () ↔ ∀ key ∈ m.keys, key ∈ used := by
  unfold noOthers
  cases hothers : m.keys.filter (!used.contains ·) with
  | nil =>
    rw [List.filter_eq_nil_iff] at hothers
    simpa using hothers
  | cons key more =>
    have hkey : key ∈ m.keys.filter (!used.contains ·) := by
      rw [hothers]
      exact List.mem_cons_self
    rw [List.mem_filter] at hkey
    constructor
    · intro h
      cases h
    · intro h
      have hused := h key hkey.1
      simp [hused] at hkey

/-- A closed record is read when all its keys belong to fields and are made of characters. -/
theorem closed_eq_ok_iff {m : Members Empty} {used : List Text} {fields : Checked α} {a : α} :
    closed m used fields = .ok a ↔
      (∀ key ∈ m.keys, key.toChars?.isSome = true) ∧ fields = .ok a ∧ ∀ key ∈ m.keys, key ∈ used := by
  unfold closed
  by_cases hchars : m.keys.all (·.toChars?.isSome) = true
  · rw [if_pos hchars, Checked.seqLeft_eq_ok_iff]
    have hothers : (∃ u, noOthers m used = .ok u) ↔ ∀ key ∈ m.keys, key ∈ used := by
      rw [← noOthers_eq_ok_iff]
      constructor
      · intro h
        obtain ⟨u, h⟩ := h
        exact h
      · intro h
        exact ⟨(), h⟩
    rw [hothers]
    rw [List.all_eq_true] at hchars
    exact ⟨fun h => ⟨hchars, h⟩, fun h => h.2⟩
  · rw [if_neg hchars]
    rw [List.all_eq_true] at hchars
    constructor
    · intro h
      cases h
    · intro h
      exact absurd h.1 hchars

end Shape

/-! ## Envelopes -/

namespace Envelope

/-- The members with the names of an envelope hold it. Data and error that are not there are null. -/
structure HeldBy (m : Members Empty) (e : Envelope) : Prop where
  ok : m.get? "ok" = some (.bool e.ok)
  data : (m.get? "data").getD .null = e.data
  error : (m.get? "error").getD .null = e.error.elim .null .str

theorem ofMembers_eq_ok_iff {m : Members Empty} {e : Envelope} : ofMembers m = .ok e ↔ HeldBy m e := by
  have hdata : ∀ d, Shape.withDefault m "data" .null Rule.anything = .ok d ↔ (m.get? "data").getD .null = d := by
    intro d
    rw [Shape.withDefault_eq_ok_iff]
    cases m.get? "data" with
    | none => simp
    | some v => simp [Rule.anything]
  have herror : ∀ t, Shape.withDefault m "error" none (Rule.orNull Rule.text) = .ok t ↔
      (m.get? "error").getD .null = t.elim .null .str := by
    intro t
    rw [Shape.withDefault_eq_ok_iff]
    cases m.get? "error" with
    | none => cases t <;> simp
    | some v => simp [Rule.orNull_text_eq_ok_iff]
  have hok : ∀ b, Shape.required m "ok" Rule.flag = .ok b ↔ m.get? "ok" = some (.bool b) := by
    intro b
    simp only [Shape.required_eq_ok_iff, Rule.flag_eq_ok_iff, exists_eq_right]
  unfold ofMembers
  simp only [Checked.seq_eq_ok_iff, Checked.map_eq_ok_iff, hok, hdata, herror]
  constructor
  · rintro ⟨f, t, ⟨g, d, ⟨b, hb, rfl⟩, hd, rfl⟩, ht, rfl⟩
    exact ⟨hb, hd, ht⟩
  · intro h
    exact ⟨_, e.error, ⟨_, e.data, ⟨e.ok, h.ok, rfl⟩, h.data, rfl⟩, h.error, rfl⟩

theorem HeldBy.get?_error {m : Members Empty} {e : Envelope} {message : Text} (h : HeldBy m e)
    (he : e.error = some message) : m.get? "error" = some (.str message) := by
  have herror := h.error
  rw [he] at herror
  cases hget : m.get? "error" with
  | none =>
    rw [hget] at herror
    cases herror
  | some v =>
    rw [hget] at herror
    exact congrArg some herror

/-- What is read as an envelope is an object whose members hold it. -/
theorem exists_members {cs : List Char} {e : Envelope} (h : read cs = .ok e) :
    ∃ m : Members Empty, Json.read cs = .ok (.object m) ∧ HeldBy m e := by
  unfold read at h
  split at h
  · cases h
  · cases h
  · rename_i v hread
    cases v with
    | object m =>
      rw [ofJson, Shape.record] at h
      split at h
      · rename_i hm
        cases h
        exact ⟨m, hread, ofMembers_eq_ok_iff.mp hm⟩
      · cases h
    | _ => cases h

end Envelope

end AgentBridge
