import AgentBridge.Proofs.Documents
import AgentBridge.Proofs.Failures
import AgentBridge.Proofs.Shapes

/-
  AgentBridge.Proofs.Envelopes — the texts that are envelopes.

  A text is an envelope if it denotes an object whose last `ok` is yes or no and whose last
  `error`, if any, is a text or null (`Carries`). Within the limits of the reader these are the
  texts that are read as envelopes, and nothing else about the members counts (`read_exactly`).
  The grammar comes from `Documents`, the checks of the members from `Shapes`.
-/

namespace AgentBridge

/-! ## Objects as they are written -/

namespace Json

/-- A text is an object with these members in the order in which they are written. -/
inductive Writes : List (Text × Json) → List Char → Prop
  | none {w inner w' : List Char} : Space w → Space inner → Space w' →
    Writes [] (w ++ ('\x7b' :: inner ++ ['\x7d']) ++ w')
  | some {written : List (Text × Json)} {w t w' : List Char} : Space w → Denotes (.members written) t → Space w' →
    Writes written (w ++ ('\x7b' :: t ++ ['\x7d']) ++ w')

theorem not_scalar_object {members : List (Text × Json)} {t : List Char} : ¬ Scalar (.object members) t := by
  intro h
  rcases h with hword | hnumber
  · simp [words] at hword
  · generalize hv : Value.object members = v at hnumber
    cases hnumber with
    | plain | minus =>
      unfold amount at hv
      split at hv
      all_goals cases hv

theorem denotes_object_iff {members : List (Text × Json)} {cs : List Char} :
    Denotes (.element (.object members)) cs ↔ ∃ written, Writes written cs ∧ members = Members.gather written := by
  constructor
  · intro h
    cases h with
    | element hw hv hw' =>
      cases hv with
      | scalar hs => exact absurd hs not_scalar_object
      | noMembers hinner => exact ⟨[], .none hw hinner hw', rfl⟩
      | object hms => exact ⟨_, .some hw hms hw', rfl⟩
  · rintro ⟨written, h, rfl⟩
    cases h with
    | none hw hinner hw' => exact .element hw (.noMembers hinner) hw'
    | some hw hms hw' => exact .element hw (.object hms) hw'

end Json

/-! ## Members that carry an envelope -/

namespace Envelope

/-- The last members with the names of an envelope carry it. Data and error that are not there are null. -/
structure Carries (written : List (Text × Json)) (e : Envelope) : Prop where
  ok : Members.last? "ok" written = some (.bool e.ok)
  data : (Members.last? "data" written).getD .null = e.data
  error : (Members.last? "error" written).getD .null = e.error.elim .null .str

/-- What is read of the members is what the last ones carry. -/
theorem ofMembers_gather_eq_ok_iff {written : List (Text × Json)} {e : Envelope} :
    ofMembers (Members.gather written) = .ok e ↔ Carries written e := by
  have hget : ∀ key, (Members.gather written).get? key = Members.last? key written := fun key =>
    Members.get?_gather key written
  rw [ofMembers_eq_ok_iff]
  constructor
  · intro h
    exact ⟨(hget _).symm.trans h.ok, hget "data" ▸ h.data, hget "error" ▸ h.error⟩
  · intro h
    exact ⟨(hget _).trans h.ok, (hget "data").symm ▸ h.data, (hget "error").symm ▸ h.error⟩

/-- What is wrong with the last `ok` of an object, if it is not yes or no. -/
def flawOfOk (written : List (Text × Json)) : Wrong :=
  if (Members.last? "ok" written).isNone then .missing else .notFlag

/-- A wrong `ok` is the first thing that is wrong. -/
theorem ofMembers_of_wrong_ok {written : List (Text × Json)}
    (h : ∀ b, Members.last? "ok" written ≠ some (.bool b)) :
    ∃ others, ofMembers (Members.gather written) = .error ⟨"ok", flawOfOk written⟩ others := by
  have hok : Shape.required (Members.gather written) "ok" Rule.flag = .error ⟨"ok", flawOfOk written⟩ [] := by
    rw [Shape.required, Members.get?_gather, flawOfOk]
    cases hlast : Members.last? "ok" written with
    | none => rfl
    | some v =>
      cases v with
      | bool b => exact absurd hlast (h b)
      | _ => rfl
  unfold ofMembers
  rw [hok]
  generalize Shape.withDefault _ "data" _ _ = data
  generalize Shape.withDefault _ "error" _ _ = error
  cases data <;> cases error <;> exact ⟨_, rfl⟩

/-- The last members with the names of an envelope are the same. -/
def SameFields (written written' : List (Text × Json)) : Prop :=
  ∀ key ∈ [Text.ofString "ok", "data", "error"], Members.last? key written = Members.last? key written'

theorem ofMembers_congr {written written' : List (Text × Json)} (h : SameFields written written') :
    ofMembers (Members.gather written) = ofMembers (Members.gather written') := by
  simp only [SameFields, List.mem_cons, List.not_mem_nil, or_false, forall_eq_or_imp, forall_eq] at h
  obtain ⟨hok, hdata, herror⟩ := h
  simp only [ofMembers, Shape.required, Shape.withDefault, Members.get?_gather, hok, hdata, herror]

/-! ## Texts -/

variable {cs : List Char} {written : List (Text × Json)} {e : Envelope}

/-- The text of an object is read by its members. -/
theorem read_eq_of_writes (hlimits : ∀ l, ¬ Json.Exceeds cs l) (h : Json.Writes written cs) :
    read cs = match ofMembers (Members.gather written) with
      | .ok e => .ok e
      | .error v _ => .error (.reported (.notEnvelope v)) := by
  have hread : Json.read cs = .ok (.object (Members.gather written)) :=
    (Json.read_eq_ok_iff_denotes hlimits).mpr (Json.denotes_object_iff.mpr ⟨written, h, rfl⟩)
  rw [read, hread]
  rfl

/-- What is read as an envelope is an object whose members carry it. -/
theorem writes_of_read (h : read cs = .ok e) : ∃ written, Json.Writes written cs ∧ Carries written e := by
  obtain ⟨m, hread, hheld⟩ := exists_members h
  obtain ⟨written, hwrites, rfl⟩ := Json.denotes_object_iff.mp (Json.denotes_of_read hread)
  exact ⟨written, hwrites, ofMembers_gather_eq_ok_iff.mp (ofMembers_eq_ok_iff.mpr hheld)⟩

/-- A text within the limits is read as an envelope, or it is reported that it is none. -/
theorem reported_of_read (hlimits : ∀ l, ¬ Json.Exceeds cs l) (h : ∀ e, read cs ≠ .ok e) :
    ∃ err, read cs = .error (.reported err) ∧ err.kind = .envelopeParse := by
  cases hread : read cs with
  | ok e => exact absurd hread (h e)
  | error failure =>
    cases failure with
    | reported err => exact ⟨err, rfl, kind_of_read hread⟩
    | limit l => exact absurd (read_eq_limit_iff.mp hread) (hlimits l)

/-- Within the limits of the reader, exactly the envelopes are read. A text is read as the envelope that the last
members with its names carry, whatever else is written and in whatever order; of every other text it is reported
that it is none, and first of all that `ok` is wrong. The values are those of the reader, which has words for
numbers that are not finite. -/
theorem read_exactly (hlimits : ∀ l, ¬ Json.Exceeds cs l) :
    (∀ e, read cs = .ok e ↔ ∃ written, Json.Writes written cs ∧ Carries written e) ∧
    ((∀ written e, Json.Writes written cs → ¬ Carries written e) →
      ∃ err, read cs = .error (.reported err) ∧ err.kind = .envelopeParse) ∧
    (∀ written, Json.Writes written cs → (∀ b, Members.last? "ok" written ≠ some (.bool b)) →
      ∃ err, read cs = .error (.reported err) ∧ err.kind = .envelopeParse ∧
        err.message = ("Invalid bridge JSON: ok: " ++ (flawOfOk written).message : String)) ∧
    ∀ written cs' written', Json.Writes written cs → Json.Writes written' cs' → (∀ l, ¬ Json.Exceeds cs' l) →
      SameFields written written' → read cs = read cs' := by
  refine ⟨fun e => ⟨writes_of_read, ?_⟩, ?_, ?_, ?_⟩
  · rintro ⟨written, hwrites, hcarries⟩
    rw [read_eq_of_writes hlimits hwrites, ofMembers_gather_eq_ok_iff.mpr hcarries]
  · intro hnone
    refine reported_of_read hlimits fun e he => ?_
    obtain ⟨written, hwrites, hcarries⟩ := writes_of_read he
    exact hnone written e hwrites hcarries
  · intro written hwrites hok
    obtain ⟨others, herror⟩ := ofMembers_of_wrong_ok hok
    refine ⟨_, by rw [read_eq_of_writes hlimits hwrites, herror], rfl, ?_⟩
    unfold flawOfOk
    split
    all_goals rfl
  · intro written cs' written' hwrites hwrites' hlimits' hsame
    rw [read_eq_of_writes hlimits hwrites, read_eq_of_writes hlimits' hwrites', ofMembers_congr hsame]

/-- A text with white space, an escaped key, other members and names that are written more than once. -/
def repeatedText : List Char :=
  " \x7b\"error\": 1, \"ok\": 0, \"data\": 1e2,\n\"o\\u006b\":true , \"data\": [\x7b\x7d], \"more\": \x7b\"ok\": 2\x7d, \"error\" :null\x7d\t".toList

theorem read_exactly_repeated : (∀ l, ¬ Json.Exceeds repeatedText l) ∧
    ∃ written, Json.Writes written repeatedText ∧ Carries written ⟨true, .array [.object []], none⟩ := by
  have hread : ∃ v, Json.read repeatedText = .ok v := ⟨_, rfl⟩
  have hlimits : ∀ l, ¬ Json.Exceeds repeatedText l := by
    intro l hl
    obtain ⟨v, hv⟩ := hread
    rw [Json.read_eq_limit_iff.mpr hl] at hv
    cases hv
  exact ⟨hlimits, ((read_exactly hlimits).1 _).mp rfl⟩

end Envelope

end AgentBridge
