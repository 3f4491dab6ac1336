import AgentBridge.Proofs.Lexemes
import AgentBridge.Proofs.Readable
import Mathlib.Tactic.IntervalCases

/-
  AgentBridge.Proofs.Numerals — whole numbers are read back as they were written.

  The digits of a whole number have no zero in front, so the scanner takes them all
  (`wholeDigits_append`), and they stand for the number they were written for.
-/

namespace AgentBridge

/-! ## Digits -/

namespace Digit

theorem number_eq_ofDigitChars (ds : List Char) : number ds = Nat.ofDigitChars 10 ds 0 := rfl

theorem number_toDigits (n : Nat) : number (Nat.toDigits 10 n) = n := Nat.ofDigitChars_ten_toDigits

theorem number_append (a b : List Char) : number (a ++ b) = number a * 10 ^ b.length + number b := by
  simp only [number_eq_ofDigitChars, Nat.ofDigitChars_append]
  rw [Nat.ofDigitChars_eq_ofDigitChars_zero, Nat.mul_comm]

theorem number_cons (d : Char) (ds : List Char) : number (d :: ds) = value d * 10 ^ ds.length + number ds := by
  have h := number_append [d] ds
  rw [List.singleton_append] at h
  simpa [number] using h

theorem number_replicate_zero (n : Nat) : number (List.replicate n '0') = 0 := by
  simp [number_eq_ofDigitChars]

theorem isDigit_of_mem_toDigits {n : Nat} {c : Char} (h : c ∈ Nat.toDigits 10 n) : isDigit c = true :=
  Nat.isDigit_of_mem_toDigits (by decide) (by decide) h

/-- The digits of a positive number do not begin with a zero. -/
theorem head_toDigits {n : Nat} (hn : 0 < n) : (Nat.toDigits 10 n).head? ≠ some '0' := by
  induction n using Nat.strongRecOn with
  | ind n ih =>
    rw [Nat.toDigits_eq_if (by decide)]
    split
    · interval_cases n <;> decide
    · have hq := ih (n / 10) (by omega) (Nat.div_pos (by omega) (by decide))
      obtain ⟨d, ds, hds⟩ := List.exists_cons_of_ne_nil (Nat.toDigits_ne_nil (n := n / 10) (b := 10))
      rwa [hds] at hq ⊢

/-- Digits as they are written in front of a point: at least one, and no zero in front of another. -/
structure Whole (ds : List Char) : Prop where
  ne_nil : ds ≠ []
  digits : ∀ d ∈ ds, isDigit d = true
  head : ds = ['0'] ∨ ds.head? ≠ some '0'

theorem whole_zero : Whole ['0'] := ⟨by simp, List.forall_mem_singleton.mpr rfl, Or.inl rfl⟩

theorem whole_toDigits (n : Nat) : Whole (Nat.toDigits 10 n) where
  ne_nil := Nat.toDigits_ne_nil
  digits _ := isDigit_of_mem_toDigits
  head := by
    rcases Nat.eq_zero_or_pos n with rfl | hn
    · exact Or.inl (Nat.toDigits_zero 10)
    · exact Or.inr (head_toDigits hn)

theorem whole_ones {n : Nat} (hn : n ≠ 0) : Whole (List.replicate n '1') where
  ne_nil := by simpa using hn
  digits d hd := by
    rw [(List.mem_replicate.mp hd).2]
    rfl
  head := Or.inr (by simp [List.head?_replicate, hn])

end Digit

namespace Json

open Digit

/-! ## Scanning -/

theorem takeWhile_append_digits {ds r : List Char} (hd : ∀ d ∈ ds, isDigit d = true)
    (hr : ∀ c ∈ r.head?, isDigit c = false) : (ds ++ r).takeWhile isDigit = ds := by
  rw [List.takeWhile_append_of_pos hd]
  cases r with
  | nil => simp
  | cons c r => simp [hr c rfl]

theorem dropWhile_append_digits {ds r : List Char} (hd : ∀ d ∈ ds, isDigit d = true)
    (hr : ∀ c ∈ r.head?, isDigit c = false) : (ds ++ r).dropWhile isDigit = r := by
  have hwhole := List.takeWhile_append_dropWhile (p := isDigit) (l := ds ++ r)
  rw [takeWhile_append_digits hd hr] at hwhole
  exact List.append_cancel_left hwhole

/-- The digits before the point end where another character comes. -/
theorem wholeDigits_append {ds r : List Char} (h : Whole ds) (hr : ∀ c ∈ r.head?, isDigit c = false) :
    wholeDigits (ds ++ r) = ds := by
  rcases h.head with rfl | hz
  · rfl
  · obtain ⟨d, ds, rfl⟩ := List.exists_cons_of_ne_nil h.ne_nil
    have := takeWhile_append_digits h.digits hr
    rw [List.cons_append] at this ⊢
    rwa [wholeDigits]
    rintro _ hc
    exact hz (by rw [(List.cons.inj hc).1]; rfl)

/-- A text that begins with a digit is no word. -/
theorem find_words_of_digit (cs : List Char) {d : Char} (hd : isDigit d = true) :
    words.find? (fun w => w.1.isPrefixOf (d :: cs)) = none ∧
      words.find? (fun w => w.1.isPrefixOf ('-' :: d :: cs)) = none := by
  have hall : ∀ c ∈ ['n', 't', 'f', 'N', 'I', '-'], isDigit c = false := by simp [isDigit]
  have hne : ∀ c ∈ ['n', 't', 'f', 'N', 'I', '-'], (c == d) = false := by
    intro c hc
    rw [beq_eq_false_iff_ne]
    rintro rfl
    rw [hall c hc] at hd
    cases hd
  simp only [List.mem_cons, List.not_mem_nil, or_false, forall_eq_or_imp, forall_eq] at hne
  simp [words, List.isPrefixOf, hne]

/-- A number with its sign is scanned as the number without it. -/
theorem scanScalar_signed (negative : Bool) {cs : List Char} {v : Except Limit Json}
    (hd : ∃ d ∈ cs.head?, isDigit d = true) (h : scanUnsigned negative cs = some (v, cs.length)) :
    scanScalar (if negative then '-' :: cs else cs) =
      some (v, (if negative then '-' :: cs else cs).length) := by
  obtain ⟨d, hd, hdigit⟩ := hd
  cases cs with
  | nil => cases hd
  | cons c cs =>
    obtain rfl := Option.some.inj hd
    have hdash : c ≠ '-' := by
      rintro rfl
      revert hdigit
      decide
    obtain ⟨hword, hword'⟩ := find_words_of_digit cs hdigit
    cases negative with
    | true => simp [scanScalar, hword', scanNumber, h]
    | false =>
      simp only [scanScalar, hword, Bool.false_eq_true, if_false]
      rw [scanNumber, h]
      rintro _ hc
      exact hdash (List.cons.inj hc).1

/-- A word or number in front of a delimiter is one lexeme. -/
theorem lexemesFrom_scalar {pos : Nat} {t rest : List Char} {v : Except Limit Json}
    (h : scanScalar t = some (v, t.length)) (hr : Ends rest) :
    lexemesFrom 0 pos (t ++ rest) = ⟨.scalar v, pos⟩ :: lexemesFrom 0 (pos + t.length) rest := by
  cases t with
  | nil => exact absurd (scanScalar_size h).1 (by simp)
  | cons c t =>
    have hc : isDelimiter c = false := by
      by_contra hc
      have := scanScalar_append_ends [] (show Ends (c :: t) by simpa [Ends] using hc)
      rw [List.nil_append, h] at this
      cases this
    simp only [isDelimiter, Bool.or_eq_false_iff, Option.isSome_eq_false_iff, Option.isNone_iff_eq_none] at hc
    obtain ⟨⟨hspace, hmark⟩, hquote⟩ := hc
    have hscan := scanScalar_append_ends (c :: t) hr
    rw [List.cons_append] at hscan ⊢
    rw [lexemesFrom, hspace, hmark, hscan, h, if_neg (by simp)]
    simp only [show ¬ c = '"' by simpa using hquote, if_false]
    rw [lexemesFrom_skip t rest (by simp)]
    simp [Nat.add_comm, Nat.add_left_comm]

/-! ## Whole numbers -/

theorem scanUnsigned_whole {negative : Bool} {ds : List Char} (h : Whole ds) :
    scanUnsigned negative ds = some (numberValue negative ds [] none, ds.length) := by
  have hw := wholeDigits_append (r := []) h (by simp)
  rw [List.append_nil] at hw
  simp [scanUnsigned, hw, h.ne_nil, fractionSize, fractionDigits, exponentPart?]

/-- Digits are scanned alike with and without a sign. -/
theorem scanScalar_whole (negative : Bool) {ds : List Char} (h : Whole ds) :
    scanScalar (if negative then '-' :: ds else ds) =
      some (numberValue negative ds [] none, (if negative then '-' :: ds else ds).length) := by
  obtain ⟨d, tail, hds⟩ := List.exists_cons_of_ne_nil h.ne_nil
  exact scanScalar_signed negative ⟨d, by simp [hds], h.digits d (by simp [hds])⟩ (scanUnsigned_whole h)

/-- A whole number with too many digits exceeds the limit of digits. -/
theorem scanScalar_tooLong {ds : List Char} (h : Whole ds) (hn : digitLimit < ds.length) :
    scanScalar ds = some (.error (.digits ds.length), ds.length) := by
  have := scanScalar_whole false h
  simpa [numberValue, hn] using this

theorem scanScalar_integerText {n : Int} (hn : n.natAbs < 10 ^ digitLimit) :
    scanScalar (integerText n) = some (.ok (.int n), (integerText n).length) := by
  have hw := whole_toDigits n.natAbs
  have hlen : (Nat.toDigits 10 n.natAbs).length ≤ digitLimit :=
    (Nat.length_toDigits_le_iff (by decide) (by decide)).mpr hn
  have hvalue : numberValue (decide (n < 0)) (Nat.toDigits 10 n.natAbs) [] none = .ok (.int n) := by
    simp only [numberValue, List.isEmpty_nil, Option.isNone_none, Bool.and_self, if_true, number_toDigits,
      if_neg (Nat.not_lt.mpr hlen), decide_eq_true_eq]
    congr 2
    split <;> omega
  have := scanScalar_whole (decide (n < 0)) hw
  rw [hvalue] at this
  simpa [integerText] using this

end Json
end AgentBridge
