import AgentBridge.Proofs.Decimals
import AgentBridge.Proofs.Numerals

/-
  AgentBridge.Proofs.Literals — decimal literals and what they stand for.

  A literal is told by a grammar: a sign, then digits with or without a point and a power of
  ten, or a word for what is not finite. What counts as digits is left open, so that each
  dialect has the same grammar over its own digits; a literal by itself is written with
  `AsciiDigits`. The reader takes what the grammar spells and nothing else, and it gives the
  number that is spelled, rounded once (`literal?_eq_some_iff`).
-/

namespace AgentBridge.Binary64

open Digit

/-! ## Grammar -/

/-- What a literal stands for without its sign. -/
inductive Magnitude where
  | number (x : ℚ)
  | infinity
  | notNumber

def Magnitude.rounded (negative : Bool) : Magnitude → Binary64
  | .number x => nearest negative x
  | .infinity => .infinite negative
  | .notNumber => .nan

section

-- What counts as digits, with the number that they stand for and how many they are.
variable (Digits : List Char → Nat → Nat → Prop)

/-- Digits with a point or without one, with the number that they stand for if there is no
point, and how many are behind it. -/
inductive Mantissa : List Char → Nat → Nat → Prop
  | whole {cs n k} : Digits cs n k → Mantissa cs n 0
  | pointBehind {cs n k} : Digits cs n k → Mantissa (cs ++ ['.']) n 0
  | pointBefore {ds m j} : Digits ds m j → Mantissa ('.' :: ds) m j
  | pointBetween {cs n k ds m j} : Digits cs n k → Digits ds m j → Mantissa (cs ++ '.' :: ds) (n * 10 ^ j + m) j

/-- A power of ten; nothing there is the power zero. -/
inductive Power : List Char → Int → Prop
  | none : Power [] 0
  | plain {mark cs n k} : mark ∈ ['e', 'E'] → Digits cs n k → Power (mark :: cs) n
  | plus {mark cs n k} : mark ∈ ['e', 'E'] → Digits cs n k → Power (mark :: '+' :: cs) n
  | minus {mark cs n k} : mark ∈ ['e', 'E'] → Digits cs n k → Power (mark :: '-' :: cs) (-n)

/-- A literal without its sign. The words may be written in any case. -/
inductive Unsigned : List Char → Magnitude → Prop
  | number {cs c p es e} : Mantissa Digits cs c p → Power Digits es e → Unsigned (cs ++ es) (.number (c * 10 ^ (e - p)))
  | infinity {cs} : cs.map Char.toLower ∈ ["inf".toList, "infinity".toList] → Unsigned cs .infinity
  | notNumber {cs} : cs.map Char.toLower = "nan".toList → Unsigned cs .notNumber

/-- A literal with its sign, if it has one. -/
inductive Spells : List Char → Bool → Magnitude → Prop
  | plain {cs m} : Unsigned Digits cs m → Spells cs false m
  | plus {cs m} : Unsigned Digits cs m → Spells ('+' :: cs) false m
  | minus {cs m} : Unsigned Digits cs m → Spells ('-' :: cs) true m

end

structure AsciiDigits (ds : List Char) (n k : Nat) : Prop where
  ne_nil : ds ≠ []
  digits : ∀ d ∈ ds, isDigit d = true
  value_eq : number ds = n
  length_eq : ds.length = k

/-- The words for what is not finite, in small letters. -/
theorem word_letters : (∀ w ∈ ["inf".toList, "infinity".toList], ∀ c ∈ w, 'a' ≤ c ∧ c ≤ 'z') ∧
    ∀ c ∈ "nan".toList, 'a' ≤ c ∧ c ≤ 'z' := by
  simp

/-- What becomes a small letter is a letter. -/
theorem letter_of_toLower {c : Char} (h : 'a' ≤ c.toLower ∧ c.toLower ≤ 'z') :
    'A' ≤ c ∧ c ≤ 'Z' ∨ 'a' ≤ c ∧ c ≤ 'z' := by
  unfold Char.toLower at h
  split at h
  · rename_i hupper
    exact Or.inl hupper
  · exact Or.inr h

theorem letters_of_word {cs w : List Char} (hw : ∀ c ∈ w, 'a' ≤ c ∧ c ≤ 'z') (h : cs.map Char.toLower = w) :
    ∀ c ∈ cs, 'A' ≤ c ∧ c ≤ 'Z' ∨ 'a' ≤ c ∧ c ≤ 'z' :=
  fun c hc => letter_of_toLower (hw c.toLower (h ▸ List.mem_map_of_mem hc))

/-- What begins with a digit, the point or a sign is no word. -/
theorem map_toLower_ne {c : Char} {rest w : List Char} (hc : isDigit c = true ∨ c ∈ ['.', '-', '+'])
    (hw : ∀ c ∈ w, 'a' ≤ c ∧ c ≤ 'z') : (c :: rest).map Char.toLower ≠ w := by
  intro h
  have hletter : 0x41 ≤ c.toNat ∧ c.toNat ≤ 0x5A ∨ 0x61 ≤ c.toNat ∧ c.toNat ≤ 0x7A :=
    letters_of_word hw h c List.mem_cons_self
  have hbelow : c.toNat < 0x41 := by
    rcases hc with hd | hc
    · exact (isDigit_iff.mp hd).2.trans (by decide)
    · exact (show ∀ c ∈ ['.', '-', '+'], c.toNat < 0x41 by simp) c hc
  omega

theorem Power.head {Digits : List Char → Nat → Nat → Prop} {es : List Char} {e : Int} (h : Power Digits es e) :
    ∀ c ∈ es.head?, c ∈ ['e', 'E'] := by
  cases h with
  | none => exact nofun
  | plain hm | plus hm | minus hm =>
    intro c hc
    exact Option.some.inj hc ▸ hm

theorem asciiDigits_self {ds : List Char} (hne : ds ≠ []) (hd : ∀ d ∈ ds, isDigit d = true) :
    AsciiDigits ds (number ds) ds.length :=
  ⟨hne, hd, rfl, rfl⟩

/-! ## Reading -/

theorem asciiDigits_iff {ds : List Char} :
    (!ds.isEmpty && ds.all isDigit) = true ↔ AsciiDigits ds (number ds) ds.length := by
  rw [Bool.and_eq_true, Bool.not_eq_true', List.isEmpty_eq_false_iff, List.all_eq_true]
  exact ⟨fun h => asciiDigits_self h.1 h.2, fun h => ⟨h.ne_nil, h.digits⟩⟩

theorem signedDigits?_of_digits {ds : List Char} {n k : Nat} (h : AsciiDigits ds n k) :
    signedDigits? ds = some (n : Int) ∧ signedDigits? ('+' :: ds) = some (n : Int) ∧
      signedDigits? ('-' :: ds) = some (-n : Int) := by
  have hread := asciiDigits_iff.mpr (asciiDigits_self h.ne_nil h.digits)
  obtain ⟨d, rest, rfl⟩ := List.exists_cons_of_ne_nil h.ne_nil
  have hd := h.digits d List.mem_cons_self
  refine ⟨?_, ?_, ?_⟩
  · rw [signedDigits?, if_pos hread, h.value_eq]
    -- no digit is a sign
    · rintro _ ⟨⟩
      cases hd
    · rintro _ ⟨⟩
      cases hd
  · rw [signedDigits?, if_pos hread, h.value_eq]
  · rw [signedDigits?, if_pos hread, h.value_eq]

theorem exponent?_eq_some_iff {cs : List Char} {e : Int} : exponent? cs = some e ↔ Power AsciiDigits cs e := by
  have hsigned : ∀ {mark : Char} {rest : List Char}, mark ∈ ['e', 'E'] → signedDigits? rest = some e →
      Power AsciiDigits (mark :: rest) e := by
    intro mark rest hm h
    unfold signedDigits? at h
    split at h
    · obtain ⟨hread, he⟩ := Option.ite_none_right_eq_some.mp h
      exact Option.some.inj he ▸ .minus hm (asciiDigits_iff.mp hread)
    · obtain ⟨hread, he⟩ := Option.ite_none_right_eq_some.mp h
      exact Option.some.inj he ▸ .plus hm (asciiDigits_iff.mp hread)
    · obtain ⟨hread, he⟩ := Option.ite_none_right_eq_some.mp h
      exact Option.some.inj he ▸ .plain hm (asciiDigits_iff.mp hread)
  have hmark : ∀ {mark : Char} {rest : List Char}, mark ∈ ['e', 'E'] →
      exponent? (mark :: rest) = signedDigits? rest := by
    intro mark rest hm
    simp only [List.mem_cons, List.not_mem_nil, or_false] at hm
    rcases hm with rfl | rfl
    · rfl
    · rfl
  constructor
  · intro h
    unfold exponent? at h
    split at h
    · obtain rfl := Option.some.inj h
      exact .none
    · exact hsigned (by simp) h
    · exact hsigned (by simp) h
    · cases h
  · intro h
    cases h with
    | none => rfl
    | plain hm h => rw [hmark hm, (signedDigits?_of_digits h).1]
    | plus hm h => rw [hmark hm, (signedDigits?_of_digits h).2.1]
    | minus hm h => rw [hmark hm, (signedDigits?_of_digits h).2.2]

/-- The digits before and after the point of a mantissa. -/
structure Cut (cs whole fraction : List Char) : Prop where
  whole_digits : ∀ d ∈ whole, isDigit d = true
  fraction_digits : ∀ d ∈ fraction, isDigit d = true
  ne_nil : ¬ (whole = [] ∧ fraction = [])
  text : cs = whole ++ '.' :: fraction ∨ fraction = [] ∧ cs = whole

theorem mantissa_iff {cs : List Char} {c p : Nat} : Mantissa AsciiDigits cs c p ↔
    ∃ whole fraction, Cut cs whole fraction ∧ c = number (whole ++ fraction) ∧ p = fraction.length := by
  constructor
  · intro h
    cases h with
    | whole h =>
      exact ⟨cs, [], ⟨h.digits, nofun, fun hnil => h.ne_nil hnil.1, Or.inr ⟨rfl, rfl⟩⟩, by simp [h.value_eq], rfl⟩
    | @pointBehind ds _ _ h =>
      exact ⟨ds, [], ⟨h.digits, nofun, fun hnil => h.ne_nil hnil.1, Or.inl rfl⟩, by simp [h.value_eq], rfl⟩
    | @pointBefore ds _ _ h =>
      exact ⟨[], ds, ⟨nofun, h.digits, fun hnil => h.ne_nil hnil.2, Or.inl rfl⟩, h.value_eq.symm, h.length_eq.symm⟩
    | @pointBetween ds _ _ es _ _ h h' =>
      refine ⟨ds, es, ⟨h.digits, h'.digits, fun hnil => h.ne_nil hnil.1, Or.inl rfl⟩, ?_, h'.length_eq.symm⟩
      rw [number_append, h.value_eq, h'.value_eq, h'.length_eq]
  · rintro ⟨whole, fraction, ⟨hw, hf, hne, htext⟩, rfl, rfl⟩
    by_cases hfraction : fraction = []
    · subst hfraction
      have hwhole : AsciiDigits whole (number (whole ++ [])) whole.length :=
        ⟨fun hnil => hne ⟨hnil, rfl⟩, hw, by rw [List.append_nil], rfl⟩
      rcases htext with rfl | ⟨-, rfl⟩
      · exact .pointBehind hwhole
      · exact .whole hwhole
    · obtain rfl : cs = whole ++ '.' :: fraction := htext.resolve_right fun h => hfraction h.1
      by_cases hwhole : whole = []
      · subst hwhole
        exact .pointBefore (asciiDigits_self hfraction hf)
      · rw [number_append]
        exact .pointBetween (asciiDigits_self hwhole hw) (asciiDigits_self hfraction hf)

theorem ofParts_eq (negative : Bool) {cs whole fraction : List Char} (h : Cut cs whole fraction) (e : Int) :
    ofParts negative whole fraction e = nearest negative (number (whole ++ fraction) * 10 ^ (e - fraction.length)) := by
  refine ofDecimal_eq negative (Json.number_lt fun d hd => ?_)
  rcases List.mem_append.mp hd with hd | hd
  · exact h.whole_digits d hd
  · exact h.fraction_digits d hd

/-- A mantissa begins with a digit or with the point. -/
theorem Cut.head {cs whole fraction : List Char} (h : Cut cs whole fraction) :
    ∃ c rest, cs = c :: rest ∧ (isDigit c = true ∨ c = '.') := by
  cases whole with
  | nil =>
    rcases h.text with rfl | ⟨hnil, -⟩
    · exact ⟨'.', fraction, rfl, Or.inr rfl⟩
    · exact absurd ⟨rfl, hnil⟩ h.ne_nil
  | cons d whole =>
    have hd : isDigit d = true ∨ d = '.' := Or.inl (h.whole_digits d List.mem_cons_self)
    rcases h.text with rfl | ⟨-, rfl⟩
    · exact ⟨d, _, rfl, hd⟩
    · exact ⟨d, _, rfl, hd⟩

theorem unsigned?_of_cut (negative : Bool) {cs whole fraction es : List Char} (h : Cut cs whole fraction)
    (hes : ∀ c ∈ es.head?, c ∈ ['e', 'E']) :
    unsigned? negative (cs ++ es) = (exponent? es).map (ofParts negative whole fraction) := by
  have hstop : ∀ c ∈ es.head?, isDigit c = false := fun c hc =>
    (show ∀ c ∈ ['e', 'E'], isDigit c = false by simp [isDigit]) c (hes c hc)
  have hwords : ∀ w, (∀ c ∈ w, 'a' ≤ c ∧ c ≤ 'z') → (cs ++ es).map Char.toLower ≠ w := by
    obtain ⟨c, rest, rfl, hc⟩ := h.head
    exact fun w => map_toLower_ne (hc.imp_right fun hc => by simp [hc])
  have hinf := hwords "inf".toList (word_letters.1 _ (by simp))
  have hinfinity := hwords "infinity".toList (word_letters.1 _ (by simp))
  have hnan := hwords "nan".toList word_letters.2
  have hne : ¬ (whole.isEmpty && fraction.isEmpty) = true := by
    rw [Bool.and_eq_true, List.isEmpty_iff, List.isEmpty_iff]
    exact h.ne_nil
  unfold unsigned?
  dsimp only
  rw [if_neg (not_or.mpr ⟨hinf, hinfinity⟩), if_neg hnan]
  rcases h.text with rfl | ⟨rfl, rfl⟩
  · have hpoint : ∀ c ∈ ('.' :: fraction ++ es).head?, isDigit c = false := fun c hc => Option.some.inj hc ▸ rfl
    rw [List.append_assoc, Json.takeWhile_append_digits h.whole_digits hpoint,
      Json.dropWhile_append_digits h.whole_digits hpoint]
    simp only [List.cons_append, Json.takeWhile_append_digits h.fraction_digits hstop,
      Json.dropWhile_append_digits h.fraction_digits hstop]
    rw [if_neg hne]
  · rw [Json.takeWhile_append_digits h.whole_digits hstop, Json.dropWhile_append_digits h.whole_digits hstop]
    split
    · exact absurd (hes '.' rfl) (by decide)
    · rw [if_neg hne]

theorem unsigned?_eq_some_iff {negative : Bool} {cs : List Char} {x : Binary64} :
    unsigned? negative cs = some x ↔ ∃ m, Unsigned AsciiDigits cs m ∧ x = m.rounded negative := by
  constructor
  · intro h
    have hnumber : ∀ {text whole fraction es : List Char}, Cut text whole fraction →
        (exponent? es).map (ofParts negative whole fraction) = some x →
        ∃ m, Unsigned AsciiDigits (text ++ es) m ∧ x = m.rounded negative := by
      intro text whole fraction es hcut hx
      obtain ⟨e, he, rfl⟩ := Option.map_eq_some_iff.mp hx
      exact ⟨_, .number (mantissa_iff.mpr ⟨_, _, hcut, rfl, rfl⟩) (exponent?_eq_some_iff.mp he),
        ofParts_eq negative hcut e⟩
    unfold unsigned? at h
    dsimp only at h
    split at h
    · rename_i hword
      obtain rfl := Option.some.inj h
      exact ⟨.infinity, .infinity (by simpa using hword), rfl⟩
    split at h
    · rename_i hword
      obtain rfl := Option.some.inj h
      exact ⟨.notNumber, .notNumber hword, rfl⟩
    · rw [Option.ite_none_left_eq_some, Bool.and_eq_true, List.isEmpty_iff, List.isEmpty_iff] at h
      have hwhole := List.takeWhile_append_dropWhile (p := isDigit) (l := cs)
      split at h
      · rename_i rest hdrop
        obtain ⟨hne, h⟩ := h
        have hfraction := List.takeWhile_append_dropWhile (p := isDigit) (l := rest)
        have hx := hnumber ⟨fun _ => List.mem_takeWhile_imp, fun _ => List.mem_takeWhile_imp, hne, Or.inl rfl⟩ h
        rwa [List.append_assoc, List.cons_append, hfraction, ← hdrop, hwhole] at hx
      · obtain ⟨hne, h⟩ := h
        have hx := hnumber ⟨fun _ => List.mem_takeWhile_imp, List.forall_mem_nil _, hne, Or.inr ⟨rfl, rfl⟩⟩ h
        rwa [hwhole] at hx
  · rintro ⟨m, h, rfl⟩
    cases h with
    | number hc he =>
      obtain ⟨whole, fraction, hcut, rfl, rfl⟩ := mantissa_iff.mp hc
      rw [unsigned?_of_cut negative hcut he.head, exponent?_eq_some_iff.mpr he, Option.map_some,
        ofParts_eq negative hcut]
      rfl
    | infinity hw =>
      have hword : cs.map Char.toLower = "inf".toList ∨ cs.map Char.toLower = "infinity".toList := by simpa using hw
      exact if_pos hword
    | notNumber hw =>
      unfold unsigned?
      dsimp only
      rw [hw]
      rfl

theorem Unsigned.head {cs : List Char} {m : Magnitude} (h : Unsigned AsciiDigits cs m) :
    ∀ c ∈ cs.head?, c ≠ '-' ∧ c ≠ '+' := by
  have hnumber : ∀ c : Char, isDigit c = true ∨ c = '.' → c ≠ '-' ∧ c ≠ '+' := by
    rintro c (hd | rfl)
    · constructor
      all_goals
        rintro rfl
        cases hd
    · decide
  have hword : ∀ {w : List Char} {c : Char} {rest : List Char}, (∀ c ∈ w, 'a' ≤ c ∧ c ≤ 'z') →
      (c :: rest).map Char.toLower = w → c ≠ '-' ∧ c ≠ '+' := by
    intro w c rest hw hrest
    constructor
    · rintro rfl
      exact map_toLower_ne (Or.inr (by simp)) hw hrest
    · rintro rfl
      exact map_toLower_ne (Or.inr (by simp)) hw hrest
  cases cs with
  | nil => exact nofun
  | cons c rest =>
    intro _ heq
    obtain rfl := Option.some.inj heq
    generalize htext : c :: rest = text at h
    cases h with
    | number hc he =>
      obtain ⟨whole, fraction, hcut, -, -⟩ := mantissa_iff.mp hc
      obtain ⟨d, tail, rfl, hd⟩ := hcut.head
      obtain ⟨rfl, -⟩ := List.cons.inj htext
      exact hnumber c hd
    | infinity hw => exact hword (word_letters.1 _ hw) (by rw [htext])
    | notNumber hw => exact hword word_letters.2 (htext ▸ hw)

theorem literal?_eq_some_iff {cs : List Char} {x : Binary64} :
    literal? cs = some x ↔ ∃ negative m, Spells AsciiDigits cs negative m ∧ x = m.rounded negative := by
  constructor
  · intro h
    unfold literal? at h
    split at h
    · obtain ⟨m, hm, rfl⟩ := unsigned?_eq_some_iff.mp h
      exact ⟨true, m, .minus hm, rfl⟩
    · obtain ⟨m, hm, rfl⟩ := unsigned?_eq_some_iff.mp h
      exact ⟨false, m, .plus hm, rfl⟩
    · obtain ⟨m, hm, rfl⟩ := unsigned?_eq_some_iff.mp h
      exact ⟨false, m, .plain hm, rfl⟩
  · rintro ⟨negative, m, h, rfl⟩
    cases h with
    | plain h =>
      have hread : unsigned? false cs = some (m.rounded false) := unsigned?_eq_some_iff.mpr ⟨m, h, rfl⟩
      unfold literal?
      split
      · exact absurd rfl (h.head '-' rfl).1
      · exact absurd rfl (h.head '+' rfl).2
      · exact hread
    | plus h => exact unsigned?_eq_some_iff.mpr ⟨m, h, rfl⟩
    | minus h => exact unsigned?_eq_some_iff.mpr ⟨m, h, rfl⟩

/-! ## Literals that are read as positive numbers -/

/-- Greater than a number, if the sign is left out. -/
def Magnitude.Exceeds (bound : ℚ) : Magnitude → Prop
  | .number x => bound < x
  | .infinity => True
  | .notNumber => False

theorem Spells.nonneg {Digits : List Char → Nat → Nat → Prop} {cs : List Char} {negative : Bool} {x : ℚ}
    (h : Spells Digits cs negative (.number x)) : 0 ≤ x := by
  have hunsigned : ∀ {cs}, Unsigned Digits cs (.number x) → 0 ≤ x := by
    intro cs h
    cases h
    positivity
  cases h with
  | plain h | plus h | minus h => exact hunsigned h

theorem isPositive_rounded_iff {Digits : List Char → Nat → Nat → Prop} {cs : List Char} {negative : Bool}
    {m : Magnitude} (h : Spells Digits cs negative m) :
    (m.rounded negative).isPositive = true ↔ negative = false ∧ m.Exceeds halfLeast := by
  cases m with
  | number x => exact isPositive_nearest_iff negative h.nonneg
  | infinity => simp [Magnitude.rounded, isPositive, Magnitude.Exceeds]
  | notNumber => simp [Magnitude.rounded, isPositive, Magnitude.Exceeds]

end AgentBridge.Binary64
