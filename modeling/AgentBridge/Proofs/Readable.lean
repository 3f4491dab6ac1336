import AgentBridge.Proofs.Reading
import Mathlib.Algebra.Group.Nat.Defs
import Mathlib.Data.List.Induction
import Mathlib.Data.List.TakeWhile

/-
  AgentBridge.Proofs.Readable — what reading a text can give.

  No value that is read holds two surrogates that could be joined: escapes of both halves of
  a pair are joined while the text is read, and joining leaves none that could be joined again
  (`paired_pair`). Its whole numbers are not too long, its keys come once, and its brackets
  are not too many. `Readable` says all this of a value; the reader keeps it of everything it
  has read so far (`invariant_step`), and so of the value at the end (`readable_of_read`).
-/

namespace AgentBridge

/-! ## Surrogates -/

namespace Text

theorem paired_cons {p : CodePoint} {t : Text} (ht : t.Paired)
    (h : ∀ i j, p = .high i → t.head? ≠ some (.low j)) : Paired (p :: t) := by
  cases t with
  | nil => cases p <;> trivial
  | cons q t =>
    cases p with
    | high i =>
      cases q with
      | low j => exact absurd rfl (h i j rfl)
      | char c => exact ht
      | high j => exact ht
    | _ => exact ht

theorem paired_of_cons {p : CodePoint} {t : Text} (h : Paired (p :: t)) :
    t.Paired ∧ ∀ i j, p = .high i → t.head? ≠ some (.low j) := by
  cases t with
  | nil => exact ⟨trivial, by simp⟩
  | cons q t =>
    cases p with
    | high i =>
      cases q with
      | low j => cases h
      | char c => exact ⟨h, by simp⟩
      | high j => exact ⟨h, by simp⟩
    | char c => exact ⟨h, by simp⟩
    | low j => exact ⟨h, by simp⟩

theorem paired_ofChars (cs : List Char) : (ofChars cs).Paired := by
  induction cs with
  | nil => trivial
  | cons c cs ih => exact paired_cons ih (by simp)

theorem paired_ofString (s : String) : (ofString s).Paired := paired_ofChars _

theorem paired_ofChars_append (cs : List Char) {t : Text} (ht : t.Paired) : (ofChars cs ++ t).Paired := by
  induction cs with
  | nil => exact ht
  | cons c cs ih => exact paired_cons ih (by simp)

/-- Joining takes no low surrogate to the front that was not there. -/
theorem head_pair {t : Text} {j : Fin 0x400} (h : (pair t).head? = some (.low j)) : t.head? = some (.low j) := by
  unfold pair at h
  split at h <;> simp_all

/-- After joining, no two surrogates are left that could be joined. -/
theorem paired_pair (t : Text) : (pair t).Paired := by
  fun_induction pair t with
  | case1 i j rest ih => exact paired_cons ih (by simp)
  | case2 c rest hc ih =>
    refine paired_cons ih fun i j hp hh => ?_
    subst hp
    cases rest with
    | nil => simp [pair] at hh
    | cons q rest =>
      obtain rfl := Option.some.inj (head_pair hh)
      exact hc i j rest rfl rfl
  | case3 => trivial

end Text

/-! ## Values -/

namespace Json

/-- The values that a text can hold with at most `room` brackets inside each other: no two surrogates in
it could be joined, its whole numbers have at most as many digits as are read, and no key of an object
comes twice. -/
inductive Readable : Nat → Json → Prop
  | null {room : Nat} : Readable room .null
  | bool {room : Nat} (b : Bool) : Readable room (.bool b)
  | int {room : Nat} {n : Int} : n.natAbs < 10 ^ digitLimit → Readable room (.int n)
  | float {room : Nat} (x : Binary64) : Readable room (.float x)
  | str {room : Nat} {t : Text} : t.Paired → Readable room (.str t)
  | array {room : Nat} {items : List Json} : (∀ v ∈ items, Readable room v) → Readable (room + 1) (.array items)
  | object {room : Nat} {members : List (Text × Json)} : (Members.keys members).Nodup →
    (∀ kv ∈ members, kv.1.Paired) → (∀ kv ∈ members, Readable room kv.2) → Readable (room + 1) (.object members)

theorem Readable.mono {room more : Nat} {v : Json} (h : Readable room v) (hm : room ≤ more) : Readable more v := by
  induction h generalizing more with
  | null => exact .null
  | bool b => exact .bool b
  | int hn => exact .int hn
  | float x => exact .float x
  | str ht => exact .str ht
  | array _ ih =>
    cases more with
    | zero => omega
    | succ more => exact .array fun v hv => ih v hv (by omega)
  | object hk hp _ ih =>
    cases more with
    | zero => omega
    | succ more => exact .object hk hp fun kv hkv => ih kv hkv (by omega)

/-! ## Lexemes -/

/-- Neither an array nor an object. -/
def IsScalar : Json → Prop
  | .array _ | .object _ => False
  | _ => True

/-- What holds of every token of a text. -/
def Token.Sound : Token → Prop
  | .text (.ok t) => t.Paired
  | .scalar (.ok v) => v.IsScalar ∧ Readable 0 v
  | .scalar (.error e) => ∃ n, e = .digits n ∧ digitLimit < n
  | _ => True

theorem value_le {d : Char} (h : Digit.isDigit d = true) : Digit.value d ≤ 9 := by
  have hbounds := Digit.isDigit_iff.mp h
  rw [Digit.value]
  omega

theorem number_lt {ds : List Char} (h : ∀ d ∈ ds, Digit.isDigit d = true) : Digit.number ds < 10 ^ ds.length := by
  induction ds using List.reverseRecOn with
  | nil => decide
  | append_singleton ds d ih =>
    have hd := value_le (h d (by simp))
    have := ih fun x hx => h x (by simp [hx])
    rw [Digit.number_append_singleton, List.length_append, List.length_singleton, Nat.pow_succ]
    omega

theorem isDigit_of_mem_wholeDigits {cs : List Char} {d : Char} (h : d ∈ wholeDigits cs) : Digit.isDigit d = true := by
  unfold wholeDigits at h
  split at h
  · obtain rfl := List.mem_singleton.mp h; decide
  · exact List.mem_takeWhile_imp h

theorem scanNumber_sound {cs : List Char} {v : Except Limit Json} {n : Nat} (h : scanNumber cs = some (v, n)) :
    (Token.scalar v).Sound := by
  obtain ⟨-, -, negative, body, fraction, exponent, rfl⟩ := scanNumber_eq_some h
  simp only [numberValue]
  split
  · split
    · exact ⟨_, rfl, ‹_›⟩
    · refine ⟨trivial, .int ?_⟩
      have hlt : Digit.number (wholeDigits body) < 10 ^ (wholeDigits body).length :=
        number_lt fun d hd => isDigit_of_mem_wholeDigits hd
      have hle : 10 ^ (wholeDigits body).length ≤ 10 ^ digitLimit := Nat.pow_le_pow_right (by decide) (by omega)
      split <;> omega
  · exact ⟨trivial, .float _⟩

theorem scanScalar_sound {cs : List Char} {v : Except Limit Json} {n : Nat} (h : scanScalar cs = some (v, n)) :
    (Token.scalar v).Sound := by
  unfold scanScalar at h
  split at h
  · rename_i w v' hw
    obtain ⟨rfl, -⟩ := Prod.mk.inj (Option.some.inj h)
    have hm := List.mem_of_find?_eq_some hw
    simp only [words, List.mem_cons, List.not_mem_nil, or_false, Prod.mk.injEq] at hm
    rcases hm with ⟨-, rfl⟩ | ⟨-, rfl⟩ | ⟨-, rfl⟩ | ⟨-, rfl⟩ | ⟨-, rfl⟩ | ⟨-, rfl⟩
    · exact ⟨trivial, .null⟩
    · exact ⟨trivial, .bool _⟩
    · exact ⟨trivial, .bool _⟩
    · exact ⟨trivial, .float _⟩
    · exact ⟨trivial, .float _⟩
    · exact ⟨trivial, .float _⟩
  · exact scanNumber_sound h

theorem lexemesFrom_sound {skip pos : Nat} {cs : List Char} {l : Lexeme} (h : l ∈ lexemesFrom skip pos cs) :
    l.token.Sound := by
  induction cs generalizing skip pos with
  | nil => cases skip <;> simp [lexemesFrom] at h
  | cons c rest ih =>
    cases skip with
    | succ skip => exact ih h
    | zero =>
      simp only [lexemesFrom] at h
      repeat' split at h
      · exact ih h
      · rename_i t hp
        rcases List.mem_cons.mp h with rfl | h
        · unfold punctuation? at hp
          split at hp <;> cases hp <;> trivial
        · exact ih h
      · rcases List.mem_cons.mp h with rfl | h
        · exact Text.paired_pair _
        · exact ih h
      · obtain rfl := List.mem_singleton.mp h; trivial
      · rename_i hsc
        rcases List.mem_cons.mp h with rfl | h
        · exact scanScalar_sound hsc
        · exact ih h
      · obtain rfl := List.mem_singleton.mp h; trivial

theorem lexemes_sound {cs : List Char} {l : Lexeme} (h : l ∈ lexemes cs) : l.token.Sound := lexemesFrom_sound h

/-- A whole number that exceeds the limit of digits has more digits than that. -/
theorem digitLimit_lt_of_exceeds {cs : List Char} {n : Nat} (h : Exceeds cs (.digits n)) : digitLimit < n := by
  obtain ⟨before, l, after, s, around, hl, -, -, ho⟩ := h
  have hsound : l.token.Sound := lexemes_sound (by rw [hl]; simp)
  rcases ho with ho | ⟨b, -, -, he⟩
  · rw [ho] at hsound
    obtain ⟨k, hk, hlt⟩ := hsound
    cases hk
    exact hlt
  · cases he

/-! ## States -/

/-- What the reader keeps of its brackets: there are not too many, and what has been read inside each is
readable with the room that is left. -/
def FramesReadable : List Frame → Prop
  | [] => True
  | .array items :: outer =>
    outer.length < nestingLimit ∧ Readable (nestingLimit - outer.length) (.array items) ∧ FramesReadable outer
  | .member members key :: outer =>
    outer.length < nestingLimit ∧ Readable (nestingLimit - outer.length) (.object members) ∧ key.Paired ∧
      FramesReadable outer

/-- What the reader keeps of its state. -/
def State.Invariant : State → Prop
  | .value around => FramesReadable around
  | .arrayStart around | .objectStart around => around.length < nestingLimit ∧ FramesReadable around
  | .arrayNext items around => FramesReadable (.array items :: around)
  | .objectKey members around | .objectNext members around =>
    around.length < nestingLimit ∧ Readable (nestingLimit - around.length) (.object members) ∧ FramesReadable around
  | .objectColon members key around => FramesReadable (.member members key :: around)
  | .done v => Readable nestingLimit v

theorem Readable.array_iff {room : Nat} (hr : 0 < room) {items : List Json} :
    Readable room (.array items) ↔ ∀ v ∈ items, Readable (room - 1) v := by
  constructor
  · intro h; cases h; assumption
  · intro h; have := Readable.array h; rwa [Nat.sub_add_cancel hr] at this

theorem Readable.object_iff {room : Nat} (hr : 0 < room) {members : List (Text × Json)} :
    Readable room (.object members) ↔ (Members.keys members).Nodup ∧ (∀ kv ∈ members, kv.1.Paired) ∧
      ∀ kv ∈ members, Readable (room - 1) kv.2 := by
  constructor
  · intro h; cases h; exact ⟨by assumption, by assumption, by assumption⟩
  · intro ⟨hk, hp, hv⟩; have := Readable.object hk hp hv; rwa [Nat.sub_add_cancel hr] at this

theorem mem_set {key : Text} {value : Json} {members : List (Text × Json)} {kv : Text × Json}
    (h : kv ∈ Members.set key value members) : kv = (key, value) ∨ kv ∈ members := by
  induction members with
  | nil => simpa [Members.set] using h
  | cons x rest ih =>
    simp only [Members.set] at h
    split at h
    · rename_i hx
      rcases List.mem_cons.mp h with rfl | h
      · exact Or.inl (by rw [hx])
      · exact Or.inr (List.mem_cons_of_mem _ h)
    · rcases List.mem_cons.mp h with rfl | h
      · exact Or.inr (List.mem_cons_self ..)
      · rcases ih h with h | h
        · exact Or.inl h
        · exact Or.inr (List.mem_cons_of_mem _ h)

theorem keys_set_of_not_mem {key : Text} (value : Json) {members : List (Text × Json)}
    (h : key ∉ Members.keys members) : Members.set key value members = members ++ [(key, value)] := by
  induction members with
  | nil => rfl
  | cons x rest ih =>
    simp only [Members.keys, List.map_cons, List.mem_cons, not_or] at h
    simp only [Members.set, if_neg (Ne.symm h.1), List.cons_append]
    exact congrArg _ (ih h.2)

theorem nodup_keys_set {key : Text} (value : Json) {members : List (Text × Json)} (h : (Members.keys members).Nodup) :
    (Members.keys (Members.set key value members)).Nodup := by
  by_cases hm : key ∈ Members.keys members
  · rwa [Members.keys_set_of_mem value hm]
  · rw [keys_set_of_not_mem value hm]
    simp only [Members.keys, List.map_append, List.map_cons, List.map_nil] at h hm ⊢
    exact List.nodup_append.mpr ⟨h, by simp, by rintro a ha b hb rfl; exact hm (by simp_all)⟩

theorem invariant_afterValue {v : Json} {around : List Frame} (hf : FramesReadable around)
    (hv : Readable (nestingLimit - around.length) v) : (State.afterValue v around).Invariant := by
  cases around with
  | nil => exact hv
  | cons f outer =>
    have hv' : Readable (nestingLimit - outer.length - 1) v := by rwa [List.length_cons, ← Nat.sub_sub] at hv
    cases f with
    | array items =>
      obtain ⟨hn, hi, ho⟩ := hf
      have hr : 0 < nestingLimit - outer.length := by omega
      refine ⟨hn, (Readable.array_iff hr).mpr fun w hw => ?_, ho⟩
      rcases List.mem_cons.mp hw with rfl | hw
      · exact hv'
      · exact (Readable.array_iff hr).mp hi w hw
    | member members key =>
      obtain ⟨hn, hm, hk, ho⟩ := hf
      have hr : 0 < nestingLimit - outer.length := by omega
      obtain ⟨hkeys, hp, hvals⟩ := (Readable.object_iff hr).mp hm
      refine ⟨hn, (Readable.object_iff hr).mpr ⟨nodup_keys_set v hkeys, fun kv hkv => ?_, fun kv hkv => ?_⟩, ho⟩
      · rcases mem_set hkv with rfl | h
        · exact hk
        · exact hp kv h
      · rcases mem_set hkv with rfl | h
        · exact hv'
        · exact hvals kv h

theorem framesReadable_of_expects {s : State} {around : List Frame} (h : s.Expects around) (hs : s.Invariant) :
    FramesReadable around := by
  cases h with
  | value => exact hs
  | first outer =>
    exact ⟨hs.1, (Readable.array_iff (Nat.sub_pos_of_lt hs.1)).mpr (by simp), hs.2⟩

theorem readable_of_closes {s : State} {b : Bracket} {v : Json} {around : List Frame} (h : s.Closes b v around)
    (hs : s.Invariant) : FramesReadable around ∧ Readable (nestingLimit - around.length) v := by
  cases h with
  | noItems => exact ⟨hs.2, (Readable.array_iff (Nat.sub_pos_of_lt hs.1)).mpr (by simp)⟩
  | items items =>
    have hr := Nat.sub_pos_of_lt hs.1
    exact ⟨hs.2.2, (Readable.array_iff hr).mpr fun v hv =>
      (Readable.array_iff hr).mp hs.2.1 v (List.mem_reverse.mp hv)⟩
  | noMembers => exact ⟨hs.2, (Readable.object_iff (Nat.sub_pos_of_lt hs.1)).mpr (by simp [Members.keys])⟩
  | members members => exact ⟨hs.2.2, hs.2.1⟩

/-- Every step keeps the invariant. -/
theorem invariant_step {s s' : State} {t : Token} (h : State.Step s t s') (ht : t.Sound) (hs : s.Invariant) :
    s'.Invariant := by
  cases h with
  | scalar v he => exact invariant_afterValue (framesReadable_of_expects he hs) (ht.2.mono (Nat.zero_le _))
  | text t he => exact invariant_afterValue (framesReadable_of_expects he hs) (.str ht)
  | openArray he hn => exact ⟨hn, framesReadable_of_expects he hs⟩
  | openObject he hn => exact ⟨hn, framesReadable_of_expects he hs⟩
  | close hc => exact invariant_afterValue (readable_of_closes hc hs).1 (readable_of_closes hc hs).2
  | nextItem items around => exact hs
  | nextMember members around => exact hs
  | key t he =>
    cases he with
    | first => exact ⟨hs.1, (Readable.object_iff (Nat.sub_pos_of_lt hs.1)).mpr (by simp [Members.keys]), ht, hs.2⟩
    | next => exact ⟨hs.1, hs.2.1, ht, hs.2.2⟩
  | colon members key around => exact hs

theorem invariant_feed {s s' : State} {ls : List Lexeme} (h : s.feed ls = .ok s') (hl : ∀ l ∈ ls, l.token.Sound)
    (hs : s.Invariant) : s'.Invariant := by
  induction ls generalizing s with
  | nil => cases h; exact hs
  | cons l ls ih =>
    obtain ⟨s₁, h₁, h⟩ := bind_eq_ok.mp h
    exact ih h (fun x hx => hl x (List.mem_cons_of_mem _ hx))
      (invariant_step (State.take_ok h₁) (hl l (List.mem_cons_self ..)) hs)

/-- Whatever is read can be held by a text. -/
theorem readable_of_read {cs : List Char} {v : Json} (h : read cs = .ok v) : Readable nestingLimit v :=
  invariant_feed (read_eq_ok_iff.mp h).2 (fun _ hl => lexemes_sound hl) trivial

end Json

end AgentBridge
