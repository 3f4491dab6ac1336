import AgentBridge.Proofs.Grammar

/-
  AgentBridge.Proofs.Tokens — words, numbers and strings with what they stand for.

  The rules are those of the standard grammar, each with a value: a number stands for what its
  sign, digits, fraction and exponent say (`Number`), a string for the code points of its pieces
  (`Inside`). To the words the reader adds three for numbers that are not finite. The scanner
  takes exactly such parts off a text, with the values that the rules give them. So a lexeme that
  the reader can use is spelled by the rules (`lexemesFrom_spelled`), and what is spelled by the
  rules is a lexeme in front of a delimiter (`Spelled.lexemesFrom`).
-/

namespace AgentBridge.Json

open Digit (isDigit Whole)

/-! ## Numbers -/

/-- The power of ten that an exponent stands for; there may be no exponent. -/
def power? : List Char → Option Int
  | [] => none
  | _ :: '-' :: ds => some (-Digit.number ds)
  | _ :: '+' :: ds => some (Digit.number ds)
  | _ :: ds => some (Digit.number ds)

/-- What a number with these parts stands for. It is whole unless it has a fraction or an exponent. -/
def amount (negative : Bool) (whole fraction : List Char) (power : Option Int) : Json :=
  if fraction.isEmpty && power.isNone then
    .int (if negative then -Digit.number whole else Digit.number whole)
  else .float (Binary64.ofParts negative whole fraction (power.getD 0))

/-- The digits of a fraction stand behind its point. -/
inductive Number : Json → List Char → Prop
  | plain {whole fraction exponent : List Char} : Whole whole → Fraction fraction → Exponent exponent →
    Number (amount false whole (fraction.drop 1) (power? exponent)) (whole ++ (fraction ++ exponent))
  | minus {whole fraction exponent : List Char} : Whole whole → Fraction fraction → Exponent exponent →
    Number (amount true whole (fraction.drop 1) (power? exponent)) ('-' :: (whole ++ (fraction ++ exponent)))

/-- A word or a number. -/
def Scalar (v : Json) (cs : List Char) : Prop := (cs, v) ∈ words ∨ Number v cs

/-! ### Its parts are scanned -/

theorem Fraction.head {fraction : List Char} (h : Fraction fraction) : ∀ c ∈ fraction.head?, isDigit c = false := by
  cases h with
  | none => simp
  | digits =>
    intro c hc
    obtain rfl := Option.some.inj hc
    decide

theorem Exponent.head {exponent : List Char} (h : Exponent exponent) :
    ∀ c ∈ exponent.head?, isDigit c = false ∧ c ≠ '.' := by
  have hletter : ∀ e ∈ ['e', 'E'], isDigit e = false ∧ e ≠ '.' :=
    List.forall_mem_cons.mpr ⟨by decide, List.forall_mem_singleton.mpr (by decide)⟩
  cases h with
  | none => simp
  | digits he =>
    intro c hc
    obtain rfl := Option.some.inj hc
    exact hletter _ he

theorem fractionDigits_append {fraction exponent : List Char} (hf : Fraction fraction) (he : Exponent exponent) :
    fractionDigits (fraction ++ exponent) = fraction.drop 1 := by
  cases hf with
  | none =>
    cases hexp : exponent with
    | nil => rfl
    | cons c rest =>
      rw [List.nil_append, fractionDigits, List.drop_nil]
      rintro _ hc
      exact (he.head c (by rw [hexp]; rfl)).2 (List.cons.inj hc).1
  | digits _ hd => exact takeWhile_append_digits hd fun c hc => (he.head c hc).1

theorem fractionSize_append {fraction exponent : List Char} (hf : Fraction fraction) (he : Exponent exponent) :
    fractionSize (fraction ++ exponent) = fraction.length := by
  simp only [fractionSize, fractionDigits_append hf he, List.isEmpty_iff]
  cases hf with
  | none => rfl
  | digits hne _ => simp [hne]

/-- Digits begin with no sign. -/
theorem not_sign_of_digits {d : Char} {ds : List Char} (h : ∀ c ∈ d :: ds, isDigit c = true) : d ≠ '-' ∧ d ≠ '+' := by
  have hd := h d List.mem_cons_self
  constructor
  all_goals
    rintro rfl
    revert hd
    decide

theorem exists_power (e : Char) (cs : List Char) : ∃ n, power? (e :: cs) = some n := by
  cases h : power? (e :: cs) with
  | some n => exact ⟨n, rfl⟩
  | none =>
    unfold power? at h
    split at h
    all_goals cases h
    rename_i hcons
    cases hcons

/-- An exponent is scanned up to where no digit follows. -/
theorem exponentPart_append {e : Char} {sign ds rest : List Char} (he : e ∈ ['e', 'E'])
    (hs : sign ∈ [[], ['+'], ['-']]) (hne : ds ≠ []) (hd : ∀ d ∈ ds, isDigit d = true)
    (hr : ∀ c ∈ rest.head?, isDigit c = false) : exponentPart? (e :: sign ++ ds ++ rest) =
      (power? (e :: sign ++ ds)).map fun n => (n, (e :: sign ++ ds).length) := by
  have hletter : e = 'e' ∨ e = 'E' := by simpa using he
  have htake : (ds ++ rest).takeWhile isDigit = ds := takeWhile_append_digits hd hr
  simp only [List.mem_cons, List.not_mem_nil, or_false] at hs
  rcases hs with rfl | rfl | rfl
  · obtain ⟨d, tail, rfl⟩ := List.exists_cons_of_ne_nil hne
    obtain ⟨hminus, hplus⟩ := not_sign_of_digits hd
    have hsign : exponentSign (d :: (tail ++ rest)) = [] := by simp [exponentSign, hminus, hplus]
    have hpower : power? (e :: d :: tail) = some (Digit.number (d :: tail) : Int) := by simp [power?, hminus, hplus]
    rw [List.cons_append] at htake
    simp [exponentPart?, hletter, hsign, hpower, htake]
    omega
  · simp [exponentPart?, hletter, exponentSign, power?, htake, hne]
    omega
  · simp [exponentPart?, hletter, exponentSign, power?, htake, hne]
    omega

theorem exponentPart_of_exponent {exponent : List Char} (h : Exponent exponent) :
    exponentPart? exponent = (power? exponent).map fun n => (n, exponent.length) := by
  cases h with
  | none => rfl
  | digits he hs hne hd =>
    have hend : ∀ c ∈ ([] : List Char).head?, isDigit c = false := fun c hc => nomatch hc
    have := exponentPart_append he hs hne hd hend
    rwa [List.append_nil] at this

/-- A number is scanned as what it stands for, unless it has too many digits. -/
theorem numberValue_eq (negative : Bool) (whole fraction : List Char) (power : Option Int) (n : Nat) :
    numberValue negative whole fraction (power.map fun e => (e, n)) = .ok (amount negative whole fraction power) ∨
      ∃ l, numberValue negative whole fraction (power.map fun e => (e, n)) = .error l := by
  unfold numberValue amount
  cases power with
  | none =>
    by_cases hf : fraction.isEmpty = true
    · by_cases hd : digitLimit < whole.length
      · simp [hf, hd]
      · simp [hf, hd]
    · simp [hf]
  | some e => simp

theorem size_of_exponent {exponent : List Char} (h : Exponent exponent) :
    (((power? exponent).map fun n => (n, exponent.length)).map (·.2)).getD 0 = exponent.length := by
  cases h with
  | none => rfl
  | @digits e sign ds =>
    obtain ⟨n, hn⟩ := exists_power e (sign ++ ds)
    simp [hn]

theorem scanUnsigned_parts (negative : Bool) {whole fraction exponent : List Char} (hw : Whole whole)
    (hf : Fraction fraction) (he : Exponent exponent) :
    scanUnsigned negative (whole ++ (fraction ++ exponent)) =
      some (numberValue negative whole (fraction.drop 1) ((power? exponent).map fun e => (e, exponent.length)),
        (whole ++ (fraction ++ exponent)).length) := by
  have hhead : ∀ c ∈ (fraction ++ exponent).head?, isDigit c = false := by
    cases hfraction : fraction with
    | nil => exact fun c hc => (he.head c hc).1
    | cons c rest =>
      rw [hfraction] at hf
      exact hf.head
  have hempty : whole.isEmpty = false := by simpa using hw.ne_nil
  simp only [scanUnsigned, wholeDigits_append hw hhead, hempty, List.drop_left, fractionDigits_append hf he,
    fractionSize_append hf he, exponentPart_of_exponent he, size_of_exponent he, List.length_append, Nat.add_assoc]
  rfl

theorem head_whole {whole rest : List Char} (h : Whole whole) : ∃ d ∈ (whole ++ rest).head?, isDigit d = true := by
  obtain ⟨d, tail, rfl⟩ := List.exists_cons_of_ne_nil h.ne_nil
  exact ⟨d, rfl, h.digits d List.mem_cons_self⟩

theorem Number.scanScalar {v : Json} {cs : List Char} (h : Number v cs) :
    ∃ r, Json.scanScalar cs = some (r, cs.length) ∧ (r = .ok v ∨ ∃ l, r = .error l) := by
  cases h with
  | plain hw hf he =>
    exact ⟨_, scanScalar_signed false (head_whole hw) (scanUnsigned_parts false hw hf he), numberValue_eq _ _ _ _ _⟩
  | minus hw hf he =>
    exact ⟨_, scanScalar_signed true (head_whole hw) (scanUnsigned_parts true hw hf he), numberValue_eq _ _ _ _ _⟩

theorem Scalar.scanScalar {v : Json} {cs : List Char} (h : Scalar v cs) :
    ∃ r, Json.scanScalar cs = some (r, cs.length) ∧ (r = .ok v ∨ ∃ l, r = .error l) := by
  rcases h with hword | hnumber
  · refine ⟨.ok v, ?_, Or.inl rfl⟩
    simp only [words, List.mem_cons, List.not_mem_nil, or_false, Prod.mk.injEq] at hword
    rcases hword with ⟨rfl, rfl⟩ | ⟨rfl, rfl⟩ | ⟨rfl, rfl⟩ | ⟨rfl, rfl⟩ | ⟨rfl, rfl⟩ | ⟨rfl, rfl⟩
    all_goals rfl
  · exact hnumber.scanScalar

/-! ### What is scanned is made of parts -/

theorem digits_of_takeWhile {cs : List Char} : ∀ d ∈ cs.takeWhile isDigit, isDigit d = true :=
  fun _ hd => List.mem_takeWhile_imp hd

theorem whole_wholeDigits {cs : List Char} (h : wholeDigits cs ≠ []) : Whole (wholeDigits cs) := by
  cases cs with
  | nil => exact absurd rfl h
  | cons c cs =>
    by_cases hc : c = '0'
    · subst hc
      exact Digit.whole_zero
    · have htake : wholeDigits (c :: cs) = (c :: cs).takeWhile isDigit := by simp [wholeDigits, hc]
      rw [htake] at h ⊢
      refine ⟨h, digits_of_takeWhile, Or.inr ?_⟩
      rw [List.head?_takeWhile, List.head?_cons]
      intro hhead
      exact hc (Option.some.inj (Option.mem_filter_iff.mp hhead).1)

theorem wholeDigits_append_drop (cs : List Char) : wholeDigits cs ++ cs.drop (wholeDigits cs).length = cs := by
  rw [← List.prefix_iff_eq_append]
  unfold wholeDigits
  split
  · exact ⟨_, rfl⟩
  · exact List.takeWhile_prefix isDigit

theorem exists_fraction (cs : List Char) : ∃ fraction rest, cs = fraction ++ rest ∧ Fraction fraction ∧
    fractionDigits cs = fraction.drop 1 ∧ fractionSize cs = fraction.length := by
  by_cases h : fractionDigits cs = []
  · exact ⟨[], cs, rfl, .none, h, by simp [fractionSize, h]⟩
  · unfold fractionSize
    revert h
    unfold fractionDigits
    split
    · rename_i tail
      intro h
      refine ⟨'.' :: tail.takeWhile isDigit, tail.dropWhile isDigit, ?_, .digits h digits_of_takeWhile, rfl, ?_⟩
      · rw [List.cons_append, List.takeWhile_append_dropWhile]
      · simp [h]
    · exact fun h => absurd rfl h

theorem mem_exponentSign (cs : List Char) : exponentSign cs ∈ [[], ['+'], ['-']] := by
  unfold exponentSign
  split
  all_goals decide

theorem exponentSign_append_drop (cs : List Char) : exponentSign cs ++ cs.drop (exponentSign cs).length = cs := by
  rw [← List.prefix_iff_eq_append]
  unfold exponentSign
  split
  · exact ⟨_, rfl⟩
  · exact ⟨_, rfl⟩
  · exact List.nil_prefix

theorem exists_exponent (cs : List Char) : ∃ exponent rest, cs = exponent ++ rest ∧ Exponent exponent ∧
    exponentPart? cs = (power? exponent).map fun n => (n, exponent.length) := by
  cases h : exponentPart? cs with
  | none => exact ⟨[], cs, rfl, .none, rfl⟩
  | some r =>
    cases cs with
    | nil => cases h
    | cons e cs =>
      have hletter : e = 'e' ∨ e = 'E' := by
        by_contra hne
        simp [exponentPart?, hne] at h
      have hcs := exponentSign_append_drop cs
      generalize hsign : exponentSign cs = sign at hcs
      generalize htail : cs.drop sign.length = tail at hcs
      have hmem : sign ∈ [[], ['+'], ['-']] := by
        rw [← hsign]
        exact mem_exponentSign cs
      have hne : tail.takeWhile isDigit ≠ [] := by
        intro hnil
        simp [exponentPart?, hletter, hsign, htail, hnil] at h
      have hbehind : ∀ c ∈ (tail.dropWhile isDigit).head?, isDigit c = false := by
        intro c hc
        have := List.head?_dropWhile_not isDigit tail
        rw [hc] at this
        exact this
      have hletter : e ∈ ['e', 'E'] := by simpa using hletter
      have htext : e :: cs = e :: sign ++ tail.takeWhile isDigit ++ tail.dropWhile isDigit := by
        rw [List.append_assoc, List.takeWhile_append_dropWhile, List.cons_append, hcs]
      refine ⟨_, _, htext, .digits hletter hmem hne digits_of_takeWhile, ?_⟩
      rw [← h, htext]
      exact exponentPart_append hletter hmem hne digits_of_takeWhile hbehind

/-- What is scanned is made of the parts of a number. -/
theorem parts_of_scanUnsigned {negative : Bool} {cs : List Char} {v : Except Limit Json} {n : Nat}
    (h : scanUnsigned negative cs = some (v, n)) : ∃ whole fraction exponent rest, Whole whole ∧ Fraction fraction ∧
      Exponent exponent ∧ cs = whole ++ (fraction ++ exponent) ++ rest ∧ n = (whole ++ (fraction ++ exponent)).length ∧
      v = numberValue negative whole (fraction.drop 1) ((power? exponent).map fun e => (e, exponent.length)) := by
  have hcs := wholeDigits_append_drop cs
  unfold scanUnsigned at h
  generalize hwhole : wholeDigits cs = whole at h hcs
  dsimp only at h
  generalize cs.drop whole.length = tail at h hcs
  obtain ⟨fraction, rest, rfl, hf, hdigits, hsize⟩ := exists_fraction tail
  rw [hdigits, hsize, List.drop_left] at h
  obtain ⟨exponent, rest, rfl, he, hpart⟩ := exists_exponent rest
  split at h
  · cases h
  rename_i hne
  obtain ⟨rfl, rfl⟩ := Prod.mk.inj (Option.some.inj h)
  have hw : Whole whole := by
    rw [← hwhole]
    refine whole_wholeDigits fun hnil => hne ?_
    rw [← hwhole, hnil]
    rfl
  refine ⟨whole, fraction, exponent, rest, hw, hf, he, ?_, ?_, by rw [hpart]⟩
  · rw [← hcs]
    simp only [List.append_assoc]
  · rw [hpart, size_of_exponent he]
    simp only [List.length_append, Nat.add_assoc]

theorem amount_of_numberValue {negative : Bool} {whole fraction : List Char} {power : Option Int} {n : Nat} {v : Json}
    (h : numberValue negative whole fraction (power.map fun e => (e, n)) = .ok v) :
    v = amount negative whole fraction power := by
  rcases numberValue_eq negative whole fraction power n with hok | ⟨l, herror⟩
  · rw [hok] at h
    exact (Except.ok.inj h).symm
  · rw [herror] at h
    cases h

theorem scalar_of_scanScalar {cs : List Char} {v : Json} {n : Nat} (h : scanScalar cs = some (.ok v, n)) :
    ∃ text rest, cs = text ++ rest ∧ n = text.length ∧ Scalar v text := by
  unfold scanScalar at h
  split at h
  · rename_i w _ hw
    obtain ⟨hv, rfl⟩ := Prod.mk.inj (Option.some.inj h)
    cases hv
    have hprefix := List.find?_some hw
    obtain ⟨rest, hrest⟩ := List.isPrefixOf_iff_prefix.mp hprefix
    exact ⟨w, rest, hrest.symm, rfl, Or.inl (List.mem_of_find?_eq_some hw)⟩
  · unfold scanNumber at h
    split at h
    · obtain ⟨r, hr, hsize⟩ := Option.map_eq_some_iff.mp h
      obtain ⟨whole, fraction, exponent, rest, hw, hf, he, rfl, hn, hv⟩ := parts_of_scanUnsigned hr
      obtain ⟨hok, rfl⟩ := Prod.mk.inj hsize
      obtain rfl := amount_of_numberValue (hv.symm.trans hok)
      exact ⟨_, rest, rfl, by rw [hn, List.length_cons], Or.inr (.minus hw hf he)⟩
    · obtain ⟨whole, fraction, exponent, rest, hw, hf, he, rfl, hn, hv⟩ := parts_of_scanUnsigned h
      obtain rfl := amount_of_numberValue hv.symm
      exact ⟨_, rest, rfl, hn, Or.inr (.plain hw hf he)⟩

/-! ## Strings -/

/-- The pieces of a string, and the code points that they stand for one by one. -/
inductive Inside : Text → List Char → Prop
  | nil : Inside [] []
  | char {c : Char} {t : Text} {rest : List Char} : ' ' ≤ c → c ≠ '"' → c ≠ '\\' → Inside t rest →
    Inside (.char c :: t) (c :: rest)
  | letter {c x : Char} {t : Text} {rest : List Char} : unescape? c = some x → Inside t rest →
    Inside (.char x :: t) ('\\' :: c :: rest)
  | unit {a b c d : Char} {n : Nat} {t : Text} {rest : List Char} : Hex.four? a b c d = some n → Inside t rest →
    Inside (CodePoint.ofUnit n :: t) ('\\' :: 'u' :: a :: b :: c :: d :: rest)

/-- A string between its quotes, and its text: surrogates that meet are one character. -/
inductive Quotes : Text → List Char → Prop
  | intro {t : Text} {inner : List Char} : Inside t inner → Quotes t.pair ('"' :: inner ++ ['"'])

theorem Inside.scanText {t : Text} {inner : List Char} (h : Inside t inner) (start pos : Nat) (rest : List Char) :
    Json.scanText start pos (inner ++ '"' :: rest) = .ok (t, inner.length + 1) := by
  induction h generalizing pos with
  | nil => rfl
  | char hc hq hb _ ih =>
    rw [List.cons_append, scanText_plain hq hb (Char.not_lt.mpr hc), ih]
    rfl
  | letter hx _ ih =>
    rw [List.cons_append, List.cons_append, scanText_escape hx, ih]
    rfl
  | unit hn _ ih =>
    simp only [List.cons_append]
    rw [scanText_unicode hn (by simp), ih]
    rfl

theorem inside_of_scanText {start pos : Nat} {cs : List Char} {t : Text} {n : Nat}
    (h : scanText start pos cs = .ok (t, n)) :
    ∃ inner rest, cs = inner ++ '"' :: rest ∧ n = inner.length + 1 ∧ Inside t inner := by
  fun_induction scanText start pos cs generalizing t n with
  | case2 pos rest =>
    obtain ⟨rfl, rfl⟩ := Prod.mk.inj (Except.ok.inj h)
    exact ⟨[], rest, rfl, rfl, .nil⟩
  | case4 pos a b c d e rest k hk ih =>
    obtain ⟨⟨t, n⟩, hr, hp⟩ := map_eq_ok.mp h
    obtain ⟨rfl, rfl⟩ := Prod.mk.inj hp
    obtain ⟨inner, tail, htail, rfl, hi⟩ := ih hr
    exact ⟨'\\' :: 'u' :: a :: b :: c :: d :: inner, tail, by rw [htail]; rfl, rfl, .unit hk hi⟩
  | case7 pos c rest _ _ x hx ih =>
    obtain ⟨⟨t, n⟩, hr, hp⟩ := map_eq_ok.mp h
    obtain ⟨rfl, rfl⟩ := Prod.mk.inj hp
    obtain ⟨inner, tail, rfl, rfl, hi⟩ := ih hr
    exact ⟨'\\' :: c :: inner, tail, rfl, rfl, .letter hx hi⟩
  | case10 pos c rest hq _ _ _ hb hc ih =>
    obtain ⟨⟨t, n⟩, hr, hp⟩ := map_eq_ok.mp h
    obtain ⟨rfl, rfl⟩ := Prod.mk.inj hp
    obtain ⟨inner, tail, rfl, rfl, hi⟩ := ih hr
    have hbackslash : c ≠ '\\' := by
      rintro rfl
      cases inner <;> simp_all
    exact ⟨c :: inner, tail, rfl, rfl, .char (Char.not_lt.mp hc) hq hbackslash hi⟩
  | _ => cases h

/-! ## Lexemes -/

/-- The characters of a token that the reader can use. -/
inductive Spelled : Token → List Char → Prop
  | openArray : Spelled (.opening .array) ['[']
  | closeArray : Spelled (.closing .array) [']']
  | openObject : Spelled (.opening .object) ['\x7b']
  | closeObject : Spelled (.closing .object) ['\x7d']
  | comma : Spelled .comma [',']
  | colon : Spelled .colon [':']
  | text {t : Text} {cs : List Char} : Quotes t cs → Spelled (.text (.ok t)) cs
  | scalar {v : Json} {cs : List Char} : Scalar v cs → Spelled (.scalar (.ok v)) cs

theorem spelled_of_punctuation {c : Char} {t : Token} (h : punctuation? c = some t) : Spelled t [c] := by
  unfold punctuation? at h
  split at h
  all_goals cases h
  all_goals constructor

/-- A string is one lexeme. -/
theorem Quotes.lexemesFrom {t : Text} {cs : List Char} (h : Quotes t cs) (pos : Nat) (rest : List Char) :
    Json.lexemesFrom 0 pos (cs ++ rest) = ⟨.text (.ok t), pos⟩ :: Json.lexemesFrom 0 (pos + cs.length) rest := by
  obtain @⟨t, inner, hi⟩ := h
  have hquote : isSpace '"' = false := by decide
  have hmark : punctuation? '"' = none := rfl
  have htail : '"' :: inner ++ ['"'] ++ rest = '"' :: (inner ++ '"' :: rest) := by simp
  rw [htail, Json.lexemesFrom, hquote, hmark, if_neg (by decide)]
  simp only [if_true, hi.scanText]
  rw [List.append_cons, lexemesFrom_skip _ _ (by simp)]
  simp [Nat.add_comm, Nat.add_left_comm]

/-- What is spelled by the rules is one lexeme. Behind a word or number there has to be a delimiter, and a number
may have too many digits. -/
theorem Spelled.lexemesFrom {t : Token} {cs rest : List Char} (h : Spelled t cs) (pos : Nat)
    (hr : ∀ v, t = .scalar (.ok v) → Ends rest) :
    ∃ t', Json.lexemesFrom 0 pos (cs ++ rest) = ⟨t', pos⟩ :: Json.lexemesFrom 0 (pos + cs.length) rest ∧
      (t' = t ∨ ∃ v l, t = .scalar (.ok v) ∧ t' = .scalar (.error l)) := by
  cases h with
  | openArray | closeArray | openObject | closeObject | comma | colon => exact ⟨_, rfl, Or.inl rfl⟩
  | text hq => exact ⟨_, hq.lexemesFrom pos rest, Or.inl rfl⟩
  | scalar hv =>
    obtain ⟨r, hscan, hok⟩ := hv.scanScalar
    refine ⟨.scalar r, lexemesFrom_scalar hscan (hr _ rfl), ?_⟩
    rcases hok with rfl | ⟨l, rfl⟩
    · exact Or.inl rfl
    · exact Or.inr ⟨_, l, rfl, rfl⟩

/-- A lexeme is no use to the reader, or it is spelled by the rules. -/
theorem lexemesFrom_spelled {c : Char} (pos : Nat) (cs : List Char) (hc : isSpace c = false) :
    ∃ t ls, lexemesFrom 0 pos (c :: cs) = ⟨t, pos⟩ :: ls ∧ ((∀ s s', ¬ State.Step s t s') ∨
      ∃ text rest, c :: cs = text ++ rest ∧ text ≠ [] ∧ Spelled t text ∧
        ls = lexemesFrom 0 (pos + text.length) rest) := by
  simp only [lexemesFrom, hc, Bool.false_eq_true, if_false]
  cases hp : punctuation? c with
  | some t => exact ⟨t, _, rfl, Or.inr ⟨[c], cs, rfl, by simp, spelled_of_punctuation hp, rfl⟩⟩
  | none =>
    by_cases hq : c = '"'
    · simp only [hq, if_true]
      cases ht : scanText pos (pos + 1) cs with
      | error e =>
        refine ⟨_, _, rfl, Or.inl fun s s' h => ?_⟩
        cases h
      | ok r =>
        obtain ⟨inner, rest, rfl, hn, hi⟩ := inside_of_scanText ht
        refine ⟨_, _, rfl, Or.inr ⟨'"' :: inner ++ ['"'], rest, by simp, by simp, .text (.intro hi), ?_⟩⟩
        rw [List.append_cons, lexemesFrom_skip _ _ (by simp [hn])]
        simp [hn, Nat.add_comm, Nat.add_left_comm]
    · simp only [hq, if_false]
      cases hs : scanScalar (c :: cs) with
      | none =>
        refine ⟨_, _, rfl, Or.inl fun s s' h => ?_⟩
        cases h
      | some r =>
        obtain ⟨v, n⟩ := r
        cases v with
        | error l =>
          refine ⟨_, _, rfl, Or.inl fun s s' h => ?_⟩
          cases h
        | ok v =>
          obtain ⟨text, rest, hcs, rfl, hv⟩ := scalar_of_scanScalar hs
          have hpos := (scanScalar_size hs).1
          obtain ⟨d, tail, rfl⟩ := List.exists_cons_of_length_pos hpos
          rw [List.cons_append] at hcs
          obtain ⟨rfl, rfl⟩ := List.cons.inj hcs
          refine ⟨_, _, rfl, Or.inr ⟨c :: tail, rest, rfl, by simp, .scalar hv, ?_⟩⟩
          rw [lexemesFrom_skip _ _ (by simp)]
          simp [Nat.add_comm, Nat.add_left_comm]

end AgentBridge.Json
