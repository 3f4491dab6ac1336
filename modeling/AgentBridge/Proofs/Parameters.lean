import AgentBridge.Proofs.Utf8
import AgentBridge.Url
import Mathlib.Data.List.Forall2

/-
  AgentBridge.Proofs.Parameters — written parameters are read back.

  There is more than one way to percent-encode bytes: the digits may be small or capital, and
  an unreserved character may stand for itself or be encoded. `Percent.Writes` holds of all of
  these, and whatever was written in one of them is read as the text that was written
  (`decode_of_writes`). A query that writes parameters one after the other is read as these
  parameters, without those that have no value (`ofChars_of_writes`).
-/

namespace AgentBridge

/-! ## Percent-encoding -/

namespace Percent

/-- A text writes bytes: an unreserved character stands for its own bytes, and a percent sign with two
hexadecimal digits stands for the byte they number. -/
inductive Writes : List UInt8 → List Char → Prop
  | nil : Writes [] []
  | unreserved {c : Char} {bs : List UInt8} {text : List Char} : isUnreserved c = true → Writes bs text →
    Writes (String.utf8EncodeChar c ++ bs) (c :: text)
  | encoded {high low : Char} {b : UInt8} {bs : List UInt8} {text : List Char} : byte? high low = some b →
    Writes bs text → Writes (b :: bs) ('%' :: high :: low :: text)

theorem isAlphanum_of_byte? {high low : Char} {b : UInt8} (h : byte? high low = some b) :
    high.isAlphanum = true ∧ low.isAlphanum = true := by
  simp only [byte?, Option.bind_eq_bind, Option.bind_eq_some_iff] at h
  obtain ⟨m, hm, n, hn, -⟩ := h
  exact ⟨Hex.isAlphanum_of_value? hm, Hex.isAlphanum_of_value? hn⟩

/-- A written text holds unreserved characters and percent signs only. -/
theorem mem_of_writes {bs : List UInt8} {text : List Char} (h : Writes bs text) {c : Char} (hc : c ∈ text) :
    c = '%' ∨ isUnreserved c = true := by
  have hdigit : ∀ d : Char, d.isAlphanum = true → isUnreserved d = true := by
    intro d hd
    simp [isUnreserved, hd]
  induction h with
  | nil => cases hc
  | unreserved hu _ ih =>
    rcases List.mem_cons.mp hc with rfl | hc
    · exact Or.inr hu
    · exact ih hc
  | encoded hb _ ih =>
    obtain ⟨hhigh, hlow⟩ := isAlphanum_of_byte? hb
    rcases List.mem_cons.mp hc with rfl | hc
    · exact Or.inl rfl
    rcases List.mem_cons.mp hc with rfl | hc
    · exact Or.inr (hdigit _ hhigh)
    rcases List.mem_cons.mp hc with rfl | hc
    · exact Or.inr (hdigit _ hlow)
    · exact ih hc

theorem bytes_encoded {high low : Char} {b : UInt8} (h : byte? high low = some b) (rest : List Char) :
    bytes ('%' :: high :: low :: rest) = b :: bytes rest := by
  rw [bytes, h]

theorem bytes_cons_of_ne {c : Char} (h : c ≠ '%') (rest : List Char) :
    bytes (c :: rest) = String.utf8EncodeChar c ++ bytes rest := by
  rw [bytes]
  intro high low rest' hc
  exact absurd hc h

theorem bytes_of_writes {bs : List UInt8} {text : List Char} (h : Writes bs text) : bytes text = bs := by
  induction h with
  | nil => rfl
  | @unreserved c bs text hu _ ih =>
    have hc : c ≠ '%' := by
      intro he
      rw [he] at hu
      exact absurd hu (by decide)
    rw [bytes_cons_of_ne hc, ih]
  | encoded hb _ ih => rw [bytes_encoded hb, ih]

/-- A written text is read as the text that was written. -/
theorem decode_of_writes {cs text : List Char} (h : Writes (Utf8.encode cs) text) : decode text = cs := by
  rw [decode, bytes_of_writes h, Utf8.decodeLossy_encode]

/-- Unreserved characters write themselves. -/
theorem writes_self {cs : List Char} (h : ∀ c ∈ cs, isUnreserved c = true) : Writes (Utf8.encode cs) cs := by
  induction cs with
  | nil => exact .nil
  | cons c cs ih =>
    have hrest : ∀ d ∈ cs, isUnreserved d = true := fun d hd => h d (List.mem_cons_of_mem _ hd)
    exact .unreserved (h c List.mem_cons_self) (ih hrest)

theorem eq_nil_iff_of_writes {cs text : List Char} (h : Writes (Utf8.encode cs) text) : text = [] ↔ cs = [] := by
  constructor
  · intro ht
    rw [← decode_of_writes h, ht]
    rfl
  · intro hcs
    rw [hcs] at h
    generalize hb : Utf8.encode [] = bs at h
    cases h with
    | nil => rfl
    | unreserved => exact absurd (List.append_eq_nil_iff.mp hb.symm).1 String.utf8EncodeChar_ne_nil
    | encoded => cases hb

theorem byte?_digits (b : UInt8) : byte? (Hex.digit (b.toNat / 16 % 16)) (Hex.digit (b.toNat % 16)) = some b := by
  have hb := b.toNat_lt
  have hvalue : 16 * (b.toNat / 16 % 16) + b.toNat % 16 = b.toNat := by omega
  simp only [byte?, Hex.value?_digit _ (Nat.mod_lt _ (by decide : 0 < 16)), Option.bind_eq_bind, Option.bind_some,
    Option.pure_def, hvalue, UInt8.ofNat_toNat]

theorem writes_flatMap_encodeByte (front : List UInt8) {bs : List UInt8} {text : List Char} (h : Writes bs text) :
    Writes (front ++ bs) (front.flatMap encodeByte ++ text) := by
  induction front with
  | nil => exact h
  | cons b front ih => exact .encoded (byte?_digits b) ih

/-- Encoding is one way to write. -/
theorem writes_encode (cs : List Char) : Writes (Utf8.encode cs) (encode cs) := by
  induction cs with
  | nil => exact .nil
  | cons c cs ih =>
    show Writes (String.utf8EncodeChar c ++ Utf8.encode cs) (encodeChar c ++ encode cs)
    unfold encodeChar
    split
    · exact .unreserved ‹_› ih
    · exact writes_flatMap_encodeByte _ ih

end Percent

/-! ## Queries -/

namespace Query

/-- A piece of a query writes a parameter: its key, an equals sign and its value. -/
def WritesParameter (kv : List Char × List Char) (piece : List Char) : Prop :=
  ∃ key value, Percent.Writes (Utf8.encode kv.1) key ∧ Percent.Writes (Utf8.encode kv.2) value ∧
    piece = key ++ '=' :: value

/-- A query writes parameters, one after the other. -/
def Writes (q : Query) (cs : List Char) : Prop :=
  ∃ parts, List.Forall₂ WritesParameter q parts ∧ cs = joinWith ['&'] parts

def encodeParameter (kv : List Char × List Char) : List Char := Percent.encode kv.1 ++ '=' :: Percent.encode kv.2

/-- The parameters in a query, each percent-encoded. -/
def encode (q : Query) : List Char := joinWith ['&'] (q.map encodeParameter)

theorem writes_encode (q : Query) : Writes q (encode q) := by
  refine ⟨q.map encodeParameter, ?_, rfl⟩
  rw [List.forall₂_map_right_iff]
  refine List.forall₂_same.mpr fun kv _ => ?_
  exact ⟨_, _, Percent.writes_encode kv.1, Percent.writes_encode kv.2, rfl⟩

/-- The characters of a query that writes parameters. -/
def IsQueryChar (c : Char) : Prop := c = '%' ∨ c = '=' ∨ c = '&' ∨ Percent.isUnreserved c = true

theorem not_mem_of_writes {bs : List UInt8} {text : List Char} (h : Percent.Writes bs text) {c : Char}
    (hp : c ≠ '%') (hu : Percent.isUnreserved c = false) : c ∉ text := by
  intro hc
  rcases Percent.mem_of_writes h hc with rfl | hc
  · exact hp rfl
  · rw [hu] at hc
    cases hc

theorem isQueryChar_of_writesParameter {kv : List Char × List Char} {piece : List Char}
    (h : WritesParameter kv piece) {c : Char} (hc : c ∈ piece) : IsQueryChar c ∧ c ≠ '&' := by
  obtain ⟨key, value, hkey, hvalue, rfl⟩ := h
  have hpart : ∀ {bs text}, Percent.Writes bs text → c ∈ text → IsQueryChar c ∧ c ≠ '&' := by
    intro bs text hw hm
    refine ⟨?_, ?_⟩
    · rcases Percent.mem_of_writes hw hm with h | h
      · exact Or.inl h
      · exact Or.inr (Or.inr (Or.inr h))
    · intro he
      rw [he] at hm
      exact not_mem_of_writes hw (by decide) (by decide) hm
  rcases List.mem_append.mp hc with hc | hc
  · exact hpart hkey hc
  rcases List.mem_cons.mp hc with rfl | hc
  · exact ⟨Or.inr (Or.inl rfl), by decide⟩
  · exact hpart hvalue hc

theorem decodePart_of_writes {cs text : List Char} (h : Percent.Writes (Utf8.encode cs) text) :
    decodePart text = cs := by
  have hplus : text.map plusToBlank = text.map id := by
    apply List.map_congr_left
    intro c hc
    by_cases he : c = '+'
    · rw [he] at hc
      exact absurd hc (not_mem_of_writes h (by decide) (by decide))
    · exact if_neg he
  rw [decodePart, hplus, List.map_id, Percent.decode_of_writes h]

/-- A written parameter is read as that parameter, if it has a value. -/
theorem parameter?_of_writes {kv : List Char × List Char} {piece : List Char} (h : WritesParameter kv piece) :
    parameter? piece = if kv.2 = [] then none else some kv := by
  obtain ⟨key, value, hkey, hvalue, rfl⟩ := h
  have hcut : cutAt? '=' (key ++ '=' :: value) = some (key, value) :=
    cutAt?_append_cons (not_mem_of_writes hkey (by decide) (by decide)) value
  unfold parameter?
  rw [hcut]
  by_cases hnil : kv.2 = []
  · rw [if_pos hnil, (Percent.eq_nil_iff_of_writes hvalue).mpr hnil]
  · rw [if_neg hnil]
    cases hv : value with
    | nil => exact absurd ((Percent.eq_nil_iff_of_writes hvalue).mp hv) hnil
    | cons c rest =>
      rw [hv] at hvalue
      simp only [decodePart_of_writes hkey, decodePart_of_writes hvalue]

theorem exists_of_mem_parts {q : Query} {parts : List (List Char)} (h : List.Forall₂ WritesParameter q parts)
    {part : List Char} (hp : part ∈ parts) : ∃ kv, WritesParameter kv part := by
  induction h with
  | nil => cases hp
  | cons hkv _ ih =>
    rcases List.mem_cons.mp hp with rfl | hp
    · exact ⟨_, hkv⟩
    · exact ih hp

theorem filterMap_parameter? {q : Query} {parts : List (List Char)} (h : List.Forall₂ WritesParameter q parts) :
    parts.filterMap parameter? = q.filter fun kv => kv.2 ≠ [] := by
  induction h with
  | nil => rfl
  | @cons kv part q parts hkv _ ih =>
    rw [List.filterMap_cons, List.filter_cons, parameter?_of_writes hkv, ih]
    by_cases hnil : kv.2 = []
    · simp [hnil]
    · simp [hnil]

/-- Written parameters are read as those of them that have a value. -/
theorem ofChars_of_writes {q : Query} {cs : List Char} (h : Writes q cs) :
    ofChars cs = q.filter fun kv => kv.2 ≠ [] := by
  obtain ⟨parts, hparts, rfl⟩ := h
  rw [← filterMap_parameter? hparts, ofChars]
  by_cases hnil : parts = []
  · rw [hnil]
    rfl
  · rw [pieces_joinWith hnil]
    intro part hp hamp
    obtain ⟨kv, hkv⟩ := exists_of_mem_parts hparts hp
    exact (isQueryChar_of_writesParameter hkv hamp).2 rfl

theorem isQueryChar_of_writes {q : Query} {cs : List Char} (h : Writes q cs) {c : Char} (hc : c ∈ cs) :
    IsQueryChar c := by
  obtain ⟨parts, hparts, rfl⟩ := h
  rcases mem_joinWith hc with hc | hc
  · exact Or.inr (Or.inr (Or.inl (List.mem_singleton.mp hc)))
  · obtain ⟨part, hp, hc⟩ := hc
    obtain ⟨kv, hkv⟩ := exists_of_mem_parts hparts hp
    exact (isQueryChar_of_writesParameter hkv hc).1

end Query

end AgentBridge
