import AgentBridge.Number.Decimal
import AgentBridge.Proofs.Decimals
import AgentBridge.Proofs.Numerals
import AgentBridge.Proofs.ShortestDigits

/-
  AgentBridge.Proofs.FloatText — floating-point numbers are read back as they were written.

  Every layout of digits is a literal with a whole part and a fraction or an exponent
  (`digitsText_eq`), and such a literal stands for the digits times a power of ten. With the
  digits of a number that is near enough to be rounded to it (`near_shortest`), so the number
  comes back (`scanScalar_text`).
-/

namespace AgentBridge

open Digit

namespace Json

/-! ## Literals -/

/-- A fraction as it is written behind the whole part: nothing where it has no digits. -/
def pointText (fraction : List Char) : List Char := if fraction = [] then [] else '.' :: fraction

/-- An exponent as it is written behind the rest, if there is one. -/
def powerText : Option Int → List Char
  | none => []
  | some e => Binary64.exponentText e

/-- An exponent is written as a letter, a sign and digits. -/
theorem exists_exponentText (e : Int) : ∃ ds,
    Binary64.exponentText e = 'e' :: (if e < 0 then '-' else '+') :: ds ∧ (∀ d ∈ ds, isDigit d = true) ∧ ds ≠ [] ∧
      number ds = e.natAbs := by
  refine ⟨_, rfl, ?_, ?_, ?_⟩
  · intro d hd
    split at hd
    · rcases List.mem_cons.mp hd with rfl | hd
      · decide
      · exact isDigit_of_mem_toDigits hd
    · exact isDigit_of_mem_toDigits hd
  · split
    · simp
    · exact Nat.toDigits_ne_nil
  · split
    · have h := number_append ['0'] (Nat.toDigits 10 e.natAbs)
      rw [number_toDigits] at h
      exact h.trans (by simp [number, value])
    · exact number_toDigits _

theorem exponentPart_exponentText (e : Int) :
    exponentPart? (Binary64.exponentText e) = some (e, (Binary64.exponentText e).length) := by
  obtain ⟨ds, hds, hdigits, hne, hnumber⟩ := exists_exponentText e
  have htake : ds.takeWhile isDigit = ds := List.takeWhile_eq_self_iff.mpr hdigits
  rw [hds]
  by_cases he : e < 0
  · simp [exponentPart?, exponentSign, he, htake, hne, hnumber, abs_of_neg]
    omega
  · simp [exponentPart?, exponentSign, he, htake, hne, hnumber, abs_of_nonneg (not_lt.mp he)]
    omega

/-- A literal that is not a whole number: digits, and a fraction or an exponent behind them. -/
structure Literal where
  whole : List Char
  fraction : List Char
  power : Option Int
  isWhole : Whole whole
  isFraction : ∀ d ∈ fraction, isDigit d = true
  notInteger : fraction ≠ [] ∨ power ≠ none

namespace Literal

variable (l : Literal)

def text : List Char := l.whole ++ (pointText l.fraction ++ powerText l.power)

/-- The number that a literal stands for. -/
def value : ℚ := number (l.whole ++ l.fraction) * 10 ^ (l.power.getD 0 - l.fraction.length)

/-- What a literal is read as. -/
def float (negative : Bool) : Binary64 := Binary64.ofParts negative l.whole l.fraction (l.power.getD 0)

theorem head_powerText {power : Option Int} : ∀ c ∈ (powerText power).head?, isDigit c = false ∧ c ≠ '.' := by
  cases power with
  | none => simp [powerText]
  | some e =>
    intro c hc
    obtain rfl := Option.some.inj hc
    decide

theorem fractionDigits_text :
    fractionDigits (pointText l.fraction ++ powerText l.power) = l.fraction := by
  unfold pointText
  split
  · rename_i hnil
    rw [List.nil_append, hnil]
    cases h : powerText l.power with
    | nil => rfl
    | cons c rest =>
      rw [fractionDigits]
      rintro _ hc
      exact (head_powerText c (by rw [h]; rfl)).2 (List.cons.inj hc).1
  · exact takeWhile_append_digits l.isFraction fun c hc => (head_powerText c hc).1

theorem exponentPart_powerText (power : Option Int) :
    exponentPart? (powerText power) = power.map fun e => (e, (powerText power).length) := by
  cases power with
  | none => rfl
  | some e => exact exponentPart_exponentText e

theorem numberValue_parts (negative : Bool) (n : Nat) :
    numberValue negative l.whole l.fraction (l.power.map fun e => (e, n)) = .ok (.float (l.float negative)) := by
  unfold float
  rcases l.notInteger with hf | hp
  · cases hpower : l.power <;> simp [numberValue, hf]
  · obtain ⟨e, he⟩ := Option.ne_none_iff_exists'.mp hp
    simp [numberValue, he]

/-- A literal is scanned in its parts. -/
theorem scanUnsigned_text (negative : Bool) :
    scanUnsigned negative l.text = some (.ok (.float (l.float negative)), l.text.length) := by
  have hhead : ∀ c ∈ (pointText l.fraction ++ powerText l.power).head?, isDigit c = false := by
    intro c hc
    unfold pointText at hc
    split at hc
    · exact (head_powerText c hc).1
    · obtain rfl := Option.some.inj hc
      decide
  have hsize : fractionSize (pointText l.fraction ++ powerText l.power) = (pointText l.fraction).length := by
    simp only [fractionSize, l.fractionDigits_text, List.isEmpty_iff]
    unfold pointText
    split <;> simp
  have hlength : ((l.power.map fun e => (e, (powerText l.power).length)).map (·.2)).getD 0 =
      (powerText l.power).length := by
    cases l.power <;> rfl
  rw [scanUnsigned, text]
  simp only [wholeDigits_append l.isWhole hhead, List.drop_left, l.fractionDigits_text, hsize, exponentPart_powerText,
    l.numberValue_parts, hlength]
  simp [l.isWhole.ne_nil, Nat.add_assoc]

theorem isDigit_head_text : ∃ d ∈ l.text.head?, isDigit d = true := by
  obtain ⟨c, cs, hcs⟩ := List.exists_cons_of_ne_nil l.isWhole.ne_nil
  exact ⟨c, by rw [text, hcs]; rfl, l.isWhole.digits c (by simp [hcs])⟩

theorem scanScalar_text (negative : Bool) :
    scanScalar (if negative then '-' :: l.text else l.text) =
      some (.ok (.float (l.float negative)), (if negative then '-' :: l.text else l.text).length) :=
  scanScalar_signed negative l.isDigit_head_text (l.scanUnsigned_text negative)

theorem number_lt : number (l.whole ++ l.fraction) < 10 ^ (l.whole ++ l.fraction).length := by
  refine Json.number_lt fun c hc => ?_
  rcases List.mem_append.mp hc with hc | hc
  · exact l.isWhole.digits c hc
  · exact l.isFraction c hc

end Literal

end Json

/-! ## Layouts -/

namespace Binary64

open Json (Literal pointText powerText)

/-- One digit, the others as a fraction, and an exponent. -/
theorem exists_scientific {d : Char} {rest : List Char} (hd : Whole [d]) (hrest : ∀ c ∈ rest, isDigit c = true)
    (e : Int) : ∃ l : Literal, l.text = d :: (pointText rest ++ exponentText e) ∧
      l.value = number (d :: rest) * 10 ^ (e - rest.length) :=
  ⟨⟨[d], rest, some e, hd, hrest, Or.inr (by simp)⟩, rfl, rfl⟩

/-- A zero, and a fraction that begins with zeros. -/
theorem exists_small {ds : List Char} (hne : ds ≠ []) (hd : ∀ c ∈ ds, isDigit c = true) (k : Nat) :
    ∃ l : Literal, l.text = '0' :: '.' :: List.replicate k '0' ++ ds ∧
      l.value = number ds * 10 ^ (-(k : ℤ) - ds.length) := by
  refine ⟨⟨['0'], List.replicate k '0' ++ ds, none, whole_zero, fun c hc => ?_, Or.inl (by simp [hne])⟩, ?_, ?_⟩
  · rcases List.mem_append.mp hc with hc | hc
    · rw [(List.mem_replicate.mp hc).2]
      decide
    · exact hd c hc
  · simp [Literal.text, pointText, powerText, hne]
  · have hnumber : number (['0'] ++ (List.replicate k '0' ++ ds)) = number ds := by
      rw [number_append, number_append, number_replicate_zero]
      simp [number, value]
    rw [Literal.value, hnumber]
    simp only [Option.getD_none, List.length_append, List.length_replicate]
    congr 2
    push_cast
    ring

/-- The digits and zeros behind them, and a zero as the fraction. -/
theorem exists_large {ds : List Char} (h : Whole ds) (hz : ds.head? ≠ some '0') (k : Nat) :
    ∃ l : Literal, l.text = ds ++ List.replicate k '0' ++ ['.', '0'] ∧ l.value = number ds * 10 ^ k := by
  have hwhole : Whole (ds ++ List.replicate k '0') := by
    refine ⟨by simp [h.ne_nil], fun c hc => ?_, Or.inr ?_⟩
    · rcases List.mem_append.mp hc with hc | hc
      · exact h.digits c hc
      · rw [(List.mem_replicate.mp hc).2]
        decide
    · rwa [List.head?_append_of_ne_nil _ h.ne_nil]
  refine ⟨⟨_, ['0'], none, hwhole, whole_zero.digits, Or.inl (by simp)⟩, ?_, ?_⟩
  · simp [Literal.text, pointText, powerText]
  · rw [Literal.value, number_append, number_append, number_replicate_zero]
    simp [number, value]

/-- The point between two digits. -/
theorem exists_inner {ds : List Char} (h : Whole ds) (hz : ds.head? ≠ some '0') {p : Nat} (hp : p ≠ 0)
    (hlt : p < ds.length) : ∃ l : Literal, l.text = ds.take p ++ '.' :: ds.drop p ∧
      l.value = number ds * 10 ^ ((p : ℤ) - ds.length) := by
  have hdrop : ds.drop p ≠ [] := by simpa using hlt
  have hwhole : Whole (ds.take p) := by
    refine ⟨by simp [hp, h.ne_nil], fun c hc => h.digits c (List.mem_of_mem_take hc), Or.inr ?_⟩
    rwa [List.head?_take, if_neg hp]
  refine ⟨⟨_, ds.drop p, none, hwhole, fun c hc => h.digits c (List.mem_of_mem_drop hc), Or.inl hdrop⟩, ?_, ?_⟩
  · simp [Literal.text, pointText, powerText, hdrop]
  · rw [Literal.value, List.take_append_drop]
    simp only [Option.getD_none, List.length_drop]
    congr 2
    omega

/-- Every layout is a literal that stands for the digits times a power of ten. -/
theorem digitsText_eq {ds : List Char} (h : Whole ds) (hz : ds.head? ≠ some '0') (point : Int) :
    ∃ l : Literal, digitsText ds point = l.text ∧ l.value = number ds * 10 ^ (point - ds.length) := by
  unfold digitsText
  by_cases hsci : point - 1 < positional.1 ∨ positional.2 < point - 1
  · obtain ⟨d, rest, rfl⟩ := List.exists_cons_of_ne_nil h.ne_nil
    have hd : Whole [d] :=
      ⟨by simp, fun c hc => h.digits c (by rw [List.mem_singleton.mp hc]; simp), Or.inr (by simpa using hz)⟩
    have hrest : ∀ c ∈ rest, isDigit c = true := fun c hc => h.digits c (List.mem_cons_of_mem d hc)
    obtain ⟨l, htext, hvalue⟩ := exists_scientific hd hrest (point - 1)
    refine ⟨l, ?_, ?_⟩
    · rw [htext, if_pos hsci]
      cases rest <;> simp [pointText]
    · rw [hvalue, List.length_cons]
      congr 2
      push_cast
      ring
  rw [if_neg hsci]
  by_cases hsmall : point ≤ 0
  · obtain ⟨l, htext, hvalue⟩ := exists_small h.ne_nil h.digits (-point).toNat
    refine ⟨l, by rw [htext, if_pos hsmall], ?_⟩
    rw [hvalue, Int.toNat_of_nonneg (by omega), neg_neg]
  rw [if_neg hsmall]
  obtain ⟨p, rfl⟩ := Int.eq_ofNat_of_zero_le (show 0 ≤ point by omega)
  by_cases hlarge : ds.length ≤ p
  · obtain ⟨l, htext, hvalue⟩ := exists_large h hz (p - ds.length)
    refine ⟨l, by rw [htext, Int.toNat_natCast, if_pos hlarge], ?_⟩
    rw [hvalue, ← zpow_natCast, Nat.cast_sub hlarge]
  · obtain ⟨l, htext, hvalue⟩ := exists_inner h hz (p := p) (by omega) (by omega)
    exact ⟨l, by rw [htext, Int.toNat_natCast, if_neg hlarge], hvalue⟩

/-- Zeros at the end of digits count as powers of ten. -/
theorem dropTrailingZeros_eq (ds : List Char) :
    ∃ k, ds = dropTrailingZeros ds ++ List.replicate k '0' := by
  refine ⟨(ds.reverse.takeWhile (· == '0')).length, ?_⟩
  have hzeros : List.replicate (ds.reverse.takeWhile (· == '0')).length '0' =
      (ds.reverse.takeWhile (· == '0')).reverse := by
    symm
    rw [List.eq_replicate_iff]
    refine ⟨by simp, fun c hc => ?_⟩
    simpa using List.mem_takeWhile_imp (List.mem_reverse.mp hc)
  rw [hzeros, dropTrailingZeros, ← List.reverse_append, List.takeWhile_append_dropWhile, List.reverse_reverse]

/-- A decimal near enough to a number is read as that number. -/
theorem ofDecimal_of_near (negative : Bool) {c digits m : Nat} {e q : Int} (hc : Canonical m q)
    (hdigits : c < 10 ^ digits) (h : Near m q (c * 10 ^ e)) :
    ofDecimal negative c digits e = ofSignificand negative m q :=
  (ofDecimal_eq negative hdigits).trans (nearest_of_near negative (by positivity) hc h)

/-- A literal near enough to a number is read as that number. -/
theorem float_of_near (l : Literal) (negative : Bool) {m : Nat} {q : Int} (hc : Canonical m q)
    (h : Near m q l.value) : l.float negative = ofSignificand negative m q :=
  ofDecimal_of_near negative hc l.number_lt h

/-- Without the zeros at their end, the digits of a positive number still do not begin with a zero. -/
theorem whole_dropTrailingZeros {n : Nat} (hn : 0 < n) :
    Whole (dropTrailingZeros (digitsOf n)) ∧ (dropTrailingZeros (digitsOf n)).head? ≠ some '0' ∧
      ∃ k, (digitsOf n).length = (dropTrailingZeros (digitsOf n)).length + k ∧
        n = number (dropTrailingZeros (digitsOf n)) * 10 ^ k := by
  obtain ⟨k, hk⟩ := dropTrailingZeros_eq (digitsOf n)
  have hnumber : number (dropTrailingZeros (digitsOf n)) * 10 ^ k = n := by
    have h := number_toDigits n
    rw [← digitsOf, hk, number_append, number_replicate_zero] at h
    simpa using h
  have hne : dropTrailingZeros (digitsOf n) ≠ [] := by
    intro hnil
    rw [hnil] at hnumber
    simp [number] at hnumber
    omega
  have hz : (dropTrailingZeros (digitsOf n)).head? ≠ some '0' := by
    have hhead : (digitsOf n).head? ≠ some '0' := head_toDigits hn
    rwa [hk, List.head?_append_of_ne_nil _ hne] at hhead
  have hd : ∀ c ∈ dropTrailingZeros (digitsOf n), isDigit c = true := by
    intro c hc
    exact (whole_toDigits n).digits c (by rw [← digitsOf, hk]; exact List.mem_append_left _ hc)
  refine ⟨⟨hne, hd, Or.inr hz⟩, hz, k, ?_, hnumber.symm⟩
  have := congrArg List.length hk
  rwa [List.length_append, List.length_replicate] at this

/-- The digits of a positive finite number are laid out as a literal near enough to it. -/
theorem exists_literal {m : Nat} {q : Int} (hc : Canonical m q) :
    ∃ l : Literal, Near m q l.value ∧ l.text = digitsText (dropTrailingZeros (digitsOf (shortest m q).digits))
      ((digitsOf (shortest m q).digits).length + (shortest m q).exponent) := by
  have hnear := near_shortest hc
  generalize shortest m q = d at hnear ⊢
  have hpos : 0 < d.digits := by
    refine Nat.pos_of_ne_zero fun h0 => ?_
    have := hnear.pos hc.pos
    rw [h0] at this
    simp at this
  obtain ⟨hwhole, hz, k, hlength, hnumber⟩ := whole_dropTrailingZeros hpos
  obtain ⟨l, htext, hvalue⟩ := digitsText_eq hwhole hz ((digitsOf d.digits).length + d.exponent)
  refine ⟨l, ?_, htext.symm⟩
  -- The literal stands for the digits that were found, without the zeros at their end.
  have hsame : l.value = d.digits * 10 ^ d.exponent := by
    have hcast : (d.digits : ℚ) = number (dropTrailingZeros (digitsOf d.digits)) * 10 ^ k := by
      exact_mod_cast hnumber
    rw [hvalue, hlength, hcast, mul_assoc, ← zpow_natCast (10 : ℚ) k, ← zpow_add₀ (by norm_num)]
    congr 2
    push_cast
    ring
  rwa [hsame]

/-- A zero as it is written. -/
def zeroLiteral : Literal := ⟨['0'], ['0'], none, whole_zero, whole_zero.digits, Or.inl (by simp)⟩

theorem eq_zero_of_significand {e : Fin 2047} {f : Fin hiddenBit} (negative : Bool) (h : significand e f = 0) :
    Binary64.finite negative e f = zero negative := by
  unfold significand at h
  split at h
  · rename_i he
    obtain rfl : e = 0 := Fin.ext he
    obtain rfl : f = ⟨0, by decide⟩ := Fin.ext h
    rfl
  · simp [hiddenBit] at h

/-- The text of a finite number is a literal that is read as the number. -/
theorem finiteText_eq (negative : Bool) (e : Fin 2047) (f : Fin hiddenBit) :
    ∃ l : Literal, finiteText negative e f = (if negative then '-' :: l.text else l.text) ∧
      l.float negative = .finite negative e f := by
  by_cases hm : significand e f = 0
  · refine ⟨zeroLiteral, ?_, ?_⟩
    · rw [finiteText, if_pos hm]
      rfl
    · rw [eq_zero_of_significand negative hm]
      rfl
  · have hc := canonical_significand hm
    obtain ⟨l, hnear, htext⟩ := exists_literal hc
    refine ⟨l, ?_, ?_⟩
    · rw [finiteText, if_neg hm, htext]
    · rw [float_of_near l negative hc hnear, ofSignificand_significand]

/-- The text of a number, with the words of JSON for what is not finite, is read as the number. -/
theorem scanScalar_text (x : Binary64) :
    Json.scanScalar (x.text "NaN" "Infinity") = some (.ok (.float x), (x.text "NaN" "Infinity").length) := by
  cases x with
  | nan => rfl
  | infinite negative => cases negative <;> rfl
  | finite negative e f =>
    obtain ⟨l, htext, hfloat⟩ := finiteText_eq negative e f
    rw [text, htext, ← hfloat]
    exact l.scanScalar_text negative

end Binary64
end AgentBridge
