import AgentBridge.Proofs.Rounding

/-
  AgentBridge.Proofs.Decimals — decimal numbers are rounded as the quotients they are.

  What a quotient is rounded to depends on its value only (`ofRatio_congr`), so `nearest` can
  be said of a rational number. A decimal is rounded as the number that it stands for, also
  where its exponent is so far out that the power of ten is not computed (`ofDecimal_eq`). What
  is half of the least positive number or less is rounded to zero, and nothing else is
  (`isPositive_nearest_iff`).
-/

namespace AgentBridge.Binary64

/-! ## Whole numbers -/

theorem roundHalfEven_mul_right (a b : Nat) {k : Nat} (hk : 0 < k) :
    roundHalfEven (a * k) (b * k) = roundHalfEven a b := by
  have htie : ∀ r, (b * k < 2 * (r * k) ↔ b < 2 * r) ∧ (2 * (r * k) = b * k ↔ 2 * r = b) := by
    intro r
    rw [← Nat.mul_assoc]
    exact ⟨Nat.mul_lt_mul_right hk, Nat.mul_left_inj (Nat.ne_of_gt hk)⟩
  simp only [roundHalfEven, Nat.mul_div_mul_right a b hk, Nat.mul_mod_mul_right, (htie _).1, (htie _).2]

/-- Quotients of the same value are rounded to the same whole number. -/
theorem roundHalfEven_congr {a b a' b' : Nat} (hb : 0 < b) (hb' : 0 < b') (h : (a : ℚ) / b = a' / b') :
    roundHalfEven a b = roundHalfEven a' b' := by
  have hcross : a * b' = a' * b := by
    rw [div_eq_div_iff (by positivity) (by positivity)] at h
    exact_mod_cast h
  calc roundHalfEven a b = roundHalfEven (a * b') (b * b') := (roundHalfEven_mul_right a b hb').symm
    _ = roundHalfEven (a' * b) (b' * b) := by rw [hcross, Nat.mul_comm b b']
    _ = roundHalfEven a' b' := roundHalfEven_mul_right a' b' hb

/-- A whole number that is not above a quotient is not above what it is rounded to. -/
theorem le_roundHalfEven {a b m : Nat} (hb : 0 < b) (h : (m : ℚ) ≤ a / b) : m ≤ roundHalfEven a b := by
  have hdiv : m ≤ a / b := by
    rw [Nat.le_div_iff_mul_le hb]
    rw [le_div_iff₀ (by positivity)] at h
    exact_mod_cast h
  refine hdiv.trans ?_
  simp only [roundHalfEven]
  split
  · exact Nat.le_succ _
  · exact Nat.le_refl _

/-- A quotient is rounded to zero up to one half. -/
theorem roundHalfEven_eq_zero_iff {a b : Nat} (hb : 0 < b) : roundHalfEven a b = 0 ↔ (a : ℚ) / b ≤ 1 / 2 := by
  have hhalf : (a : ℚ) / b ≤ 1 / 2 ↔ 2 * a ≤ b := by
    rw [div_le_iff₀ (by positivity), ← Nat.cast_le (α := ℚ)]
    push_cast
    constructor
    · intro h
      linarith
    · intro h
      linarith
  rw [hhalf]
  by_cases hlt : a < b
  · have hdiv : a / b = 0 := Nat.div_eq_of_lt hlt
    have hmod : a % b = a := Nat.mod_eq_of_lt hlt
    simp only [roundHalfEven, hdiv, hmod]
    split
    · omega
    · omega
  · have hone : 1 ≤ roundHalfEven a b := by
      refine le_roundHalfEven hb ?_
      rw [Nat.cast_one, one_le_div (by positivity)]
      exact_mod_cast Nat.le_of_not_lt hlt
    omega

/-! ## Quotients -/

section

variable {n d n' d' : Nat} (negative : Bool)

theorem magnitude_congr (hn : 0 < n) (hd : 0 < d) (hn' : 0 < n') (hd' : 0 < d') (h : (n : ℚ) / d = n' / d') :
    magnitude n d = magnitude n' d' := by
  obtain ⟨hlow, hhigh⟩ := magnitude_spec hn hd
  obtain ⟨hlow', hhigh'⟩ := magnitude_spec hn' hd'
  rw [h] at hlow hhigh
  exact le_antisymm (le_of_zpow_le_of_lt hlow hhigh') (le_of_zpow_le_of_lt hlow' hhigh)

/-- Quotients of the same value are rounded to the same number. -/
theorem ofRatio_congr (hd : 0 < d) (hd' : 0 < d') (h : (n : ℚ) / d = n' / d') :
    ofRatio negative n d = ofRatio negative n' d' := by
  have hd₀ : (d : ℚ) ≠ 0 := by positivity
  have hd₀' : (d' : ℚ) ≠ 0 := by positivity
  rcases Nat.eq_zero_or_pos n with rfl | hn
  · have hn' : n' = 0 := by
      rw [Nat.cast_zero, zero_div, eq_comm, div_eq_zero_iff, or_iff_left hd₀'] at h
      exact_mod_cast h
    rw [hn']
    rfl
  · have hn' : 0 < n' := by
      refine Nat.pos_of_ne_zero fun hzero => Nat.ne_of_gt hn ?_
      rw [hzero, Nat.cast_zero, zero_div, div_eq_zero_iff, or_iff_left hd₀] at h
      exact_mod_cast h
    have hround : ∀ q : Int, roundHalfEven (shiftRatio n d (-q)).1 (shiftRatio n d (-q)).2 =
        roundHalfEven (shiftRatio n' d' (-q)).1 (shiftRatio n' d' (-q)).2 := by
      intro q
      refine roundHalfEven_congr (shiftRatio_pos _ hd) (shiftRatio_pos _ hd') ?_
      rw [shiftRatio_value, shiftRatio_value, h]
    rw [ofRatio_eq negative hn rfl, ofRatio_eq negative hn' rfl, magnitude_congr hn hd hn' hd' h, hround]

end

/-! ## Positive numbers -/

/-- The value of a number among the rational numbers and the two infinities. -/
def value? : Binary64 → Option (WithBot (WithTop ℚ))
  | .nan => none
  | .infinite negative => some (if negative then ⊥ else ⊤)
  | .finite negative e f =>
    some (WithBot.some (WithTop.some ((if negative then -1 else 1) * (significand e f * 2 ^ scale e))))

/-- Positive numbers are the ones whose value is greater than zero. -/
theorem isPositive_iff {x : Binary64} : x.isPositive = true ↔ ∃ v, x.value? = some v ∧ 0 < v := by
  cases x with
  | nan => simp [isPositive, value?]
  | infinite negative =>
    cases negative with
    | false =>
      have hpos : (0 : WithBot (WithTop ℚ)) < ⊤ := by decide
      simp [isPositive, value?, hpos]
    | true => simp [isPositive, value?]
  | finite negative e f =>
    have hpow : (0 : ℚ) < 2 ^ scale e := by positivity
    have hvalue : (∃ v, value? (.finite negative e f) = some v ∧ 0 < v) ↔
        0 < (if negative then -1 else 1) * ((significand e f : ℚ) * 2 ^ scale e) := by
      simp only [value?, Option.some.injEq, exists_eq_left']
      rw [WithBot.coe_pos, WithTop.coe_pos]
    rw [hvalue]
    cases negative with
    | false => simp [isPositive, hpow, Nat.pos_iff_ne_zero]
    | true =>
      have hnot : ¬ 0 < (-1 : ℚ) * (significand e f * 2 ^ scale e) := by
        rw [neg_one_mul, neg_pos, not_lt]
        positivity
      simpa [isPositive] using hnot

/-- Half of the least positive number. -/
def halfLeast : ℚ := 2 ^ (-1075 : Int)

/-- A significand makes a number greater than zero if it is not zero and there is no sign. -/
theorem isPositive_ofSignificand (negative : Bool) {m : Nat} {q : Int} (hq : -1074 ≤ q) :
    (ofSignificand negative m q).isPositive = true ↔ negative = false ∧ m ≠ 0 := by
  unfold ofSignificand
  by_cases hm : m < hiddenBit
  · simp [hm, isPositive, significand, Nat.mod_eq_of_lt hm]
  · have hm₀ : m ≠ 0 := by
      rintro rfl
      exact hm (by decide)
    have hfield : (q + 1075).toNat ≠ 0 := by omega
    simp only [hm, if_false]
    split
    · simp [isPositive, significand, hfield, hm₀, hiddenBit]
    · simp [isPositive, hm₀]

section

variable {n d : Nat} (negative : Bool)

/-- Where the scale is above the least one, the significand has its highest bit. -/
theorem hiddenBit_le_of_scale (hn : 0 < n) (hd : 0 < d) {q : Int} (hq : q = magnitude n d - 52) :
    hiddenBit ≤ roundHalfEven (shiftRatio n d (-q)).1 (shiftRatio n d (-q)).2 := by
  obtain ⟨hlow, -⟩ := magnitude_spec hn hd
  refine le_roundHalfEven (shiftRatio_pos _ hd) ?_
  have hpow : (0 : ℚ) < 2 ^ q := by positivity
  rw [← mul_le_mul_iff_left₀ hpow, zpow_hiddenBit, shiftRatio_mul_zpow, hq, sub_add_cancel]
  exact hlow

/-- At the least scale, one half of a step is half of the least positive number. -/
theorem shiftRatio_le_half_iff :
    ((shiftRatio n d (- -1074)).1 : ℚ) / (shiftRatio n d (- -1074)).2 ≤ 1 / 2 ↔ (n : ℚ) / d ≤ halfLeast := by
  have hpow : (0 : ℚ) < 2 ^ (-1074 : Int) := by positivity
  have hhalf : (1 : ℚ) / 2 * 2 ^ (-1074 : Int) = halfLeast := by
    rw [halfLeast, show (-1075 : Int) = -1 + -1074 by norm_num, zpow_add₀ two_ne_zero]
    norm_num
  rw [← mul_le_mul_iff_left₀ hpow, shiftRatio_mul_zpow, hhalf]

/-- A quotient is rounded to zero up to half of the least positive number. -/
theorem ofRatio_of_le_halfLeast (hd : 0 < d) (h : (n : ℚ) / d ≤ halfLeast) : ofRatio negative n d = zero negative := by
  rcases Nat.eq_zero_or_pos n with rfl | hn
  · rfl
  · obtain ⟨hlow, -⟩ := magnitude_spec hn hd
    have hmagnitude : magnitude n d ≤ -1075 :=
      (zpow_le_zpow_iff_right₀ (one_lt_two (α := ℚ))).mp (hlow.trans h)
    have hq : (-1074 : Int) = max (magnitude n d - 52) (-1074) := by omega
    have hround : roundHalfEven (shiftRatio n d (- -1074)).1 (shiftRatio n d (- -1074)).2 = 0 :=
      (roundHalfEven_eq_zero_iff (shiftRatio_pos _ hd)).mpr (shiftRatio_le_half_iff.mpr h)
    rw [ofRatio_eq negative hn hq, hround]
    rfl

/-- A quotient above that is rounded to a number greater than zero, if there is no sign. -/
theorem isPositive_ofRatio_iff (hd : 0 < d) :
    (ofRatio negative n d).isPositive = true ↔ negative = false ∧ halfLeast < n / d := by
  rcases le_or_gt ((n : ℚ) / d) halfLeast with hle | hlt
  · rw [ofRatio_of_le_halfLeast negative hd hle]
    simp [zero, isPositive, significand, not_lt.mpr hle]
  · have hn : 0 < n := by
      refine Nat.pos_of_ne_zero ?_
      rintro rfl
      rw [Nat.cast_zero, zero_div] at hlt
      exact absurd hlt (not_lt.mpr (by unfold halfLeast; positivity))
    obtain ⟨q, hq⟩ : ∃ q, q = max (magnitude n d - 52) (-1074) := ⟨_, rfl⟩
    have hleast : -1074 ≤ q := hq ▸ le_max_right _ _
    have hm : roundHalfEven (shiftRatio n d (-q)).1 (shiftRatio n d (-q)).2 ≠ 0 := by
      intro hzero
      rcases le_total (magnitude n d - 52) (-1074) with h | h
      · rw [hq, max_eq_right h, roundHalfEven_eq_zero_iff (shiftRatio_pos _ hd), shiftRatio_le_half_iff] at hzero
        exact absurd hlt (not_lt.mpr hzero)
      · have hbit := hiddenBit_le_of_scale hn hd (hq.trans (max_eq_left h))
        rw [hzero] at hbit
        exact absurd hbit (by decide)
    rw [ofRatio_eq negative hn hq]
    split
    · rw [isPositive_ofSignificand negative (by omega)]
      simp [hlt, hiddenBit]
    · rw [isPositive_ofSignificand negative hleast]
      simp [hlt, hm]

/-- A quotient above all finite numbers is rounded to infinity. -/
theorem ofRatio_of_large (hd : 0 < d) (h : (2 : ℚ) ^ (1024 : Int) ≤ n / d) :
    ofRatio negative n d = .infinite negative := by
  have hn : 0 < n := by
    refine Nat.pos_of_ne_zero ?_
    rintro rfl
    rw [Nat.cast_zero, zero_div] at h
    exact absurd h (not_le.mpr (by positivity))
  obtain ⟨-, hhigh⟩ := magnitude_spec hn hd
  have hmagnitude : 1024 ≤ magnitude n d := le_of_zpow_le_of_lt h hhigh
  have hq : magnitude n d - 52 = max (magnitude n d - 52) (-1074) := by omega
  have hbit := hiddenBit_le_of_scale hn hd rfl
  have hinfinite : ∀ {m : Nat} {q : Int}, hiddenBit ≤ m → 972 ≤ q →
      ofSignificand negative m q = .infinite negative := by
    intro m q hm hq
    have hfield : ¬ (q + 1075).toNat < 2047 := by omega
    simp [ofSignificand, not_lt.mpr hm, hfield]
  rw [ofRatio_eq negative hn hq]
  split
  · exact hinfinite (Nat.le_refl _) (by omega)
  · exact hinfinite hbit (by omega)

end

/-! ## Decimals -/

/-- The number nearest to a rational number, with the sign given apart. -/
def nearest (negative : Bool) (x : ℚ) : Binary64 := ofRatio negative x.num.natAbs x.den

theorem num_div_den {x : ℚ} (hx : 0 ≤ x) : (x.num.natAbs : ℚ) / x.den = x := by
  rw [Nat.cast_natAbs, abs_of_nonneg (Rat.num_nonneg.mpr hx)]
  exact Rat.num_div_den x

theorem ofRatio_eq_nearest (negative : Bool) {n d : Nat} (hd : 0 < d) {x : ℚ} (h : (n : ℚ) / d = x) :
    ofRatio negative n d = nearest negative x := by
  have hx : 0 ≤ x := by
    rw [← h]
    positivity
  exact ofRatio_congr negative hd x.den_pos (h.trans (num_div_den hx).symm)

section

variable (negative : Bool) {x : ℚ} (hx : 0 ≤ x)

include hx

/-- A number is greater than zero if it is nearest to one above half of the least positive number. -/
theorem isPositive_nearest_iff : (nearest negative x).isPositive = true ↔ negative = false ∧ halfLeast < x := by
  rw [nearest, isPositive_ofRatio_iff negative x.den_pos, num_div_den hx]

theorem nearest_of_le_halfLeast (h : x ≤ halfLeast) : nearest negative x = zero negative :=
  ofRatio_of_le_halfLeast negative x.den_pos (by rwa [num_div_den hx])

theorem nearest_of_large (h : (2 : ℚ) ^ (1024 : Int) ≤ x) : nearest negative x = .infinite negative :=
  ofRatio_of_large negative x.den_pos (by rwa [num_div_den hx])

theorem nearest_of_near {m : Nat} {q : Int} (hc : Canonical m q) (h : Near m q x) :
    nearest negative x = ofSignificand negative m q :=
  ofRatio_of_near negative x.den_pos hc (by rwa [num_div_den hx])

end

theorem two_pow_le (n : Nat) : (2 : ℚ) ^ (3 * n) ≤ 10 ^ n := by
  rw [pow_mul]
  exact pow_le_pow_left₀ (by norm_num) (by norm_num) n

theorem ten_pow_le_halfLeast : (10 : ℚ) ^ (-400 : Int) ≤ halfLeast := by
  have hten : (2 : ℚ) ^ (1200 : Int) ≤ 10 ^ (400 : Int) := two_pow_le 400
  calc (10 : ℚ) ^ (-400 : Int) = (10 ^ (400 : Int))⁻¹ := zpow_neg _ _
    _ ≤ (2 ^ (1200 : Int))⁻¹ := inv_anti₀ (by positivity) hten
    _ = 2 ^ (-1200 : Int) := (zpow_neg _ _).symm
    _ ≤ halfLeast := zpow_le_zpow_right₀ one_le_two (by norm_num)

theorem two_pow_le_ten_pow : (2 : ℚ) ^ (1024 : Int) ≤ 10 ^ (400 : Int) := by
  have hten : (2 : ℚ) ^ (1200 : Int) ≤ 10 ^ (400 : Int) := two_pow_le 400
  exact (zpow_le_zpow_right₀ one_le_two (by norm_num)).trans hten

/-- A decimal is rounded as the number that it stands for. -/
theorem ofDecimal_eq (negative : Bool) {c digits : Nat} {e : Int} (h : c < 10 ^ digits) :
    ofDecimal negative c digits e = nearest negative (c * 10 ^ e) := by
  have hx : (0 : ℚ) ≤ c * 10 ^ e := by positivity
  unfold ofDecimal
  by_cases hc : c = 0
  · rw [if_pos hc, hc, Nat.cast_zero, zero_mul]
    rfl
  rw [if_neg hc]
  by_cases hsmall : e + digits < -400
  · rw [if_pos hsmall, nearest_of_le_halfLeast negative hx]
    have hc' : (c : ℚ) ≤ 10 ^ (digits : Int) := by
      rw [zpow_natCast]
      exact_mod_cast le_of_lt h
    calc (c : ℚ) * 10 ^ e ≤ 10 ^ (digits : Int) * 10 ^ e := by gcongr
      _ = 10 ^ (digits + e) := (zpow_add₀ (by norm_num) _ _).symm
      _ ≤ 10 ^ (-400 : Int) := zpow_le_zpow_right₀ (by norm_num) (by omega)
      _ ≤ halfLeast := ten_pow_le_halfLeast
  rw [if_neg hsmall]
  by_cases hlarge : 400 < e
  · rw [if_pos hlarge, nearest_of_large negative hx]
    have hc' : (1 : ℚ) ≤ c := by exact_mod_cast Nat.pos_of_ne_zero hc
    calc (2 : ℚ) ^ (1024 : Int) ≤ 10 ^ (400 : Int) := two_pow_le_ten_pow
      _ ≤ 10 ^ e := zpow_le_zpow_right₀ (by norm_num) (by omega)
      _ ≤ c * 10 ^ e := le_mul_of_one_le_left (by positivity) hc'
  rw [if_neg hlarge]
  by_cases he : 0 ≤ e
  · rw [if_pos he]
    obtain ⟨j, rfl⟩ := Int.eq_ofNat_of_zero_le he
    refine ofRatio_eq_nearest negative Nat.one_pos ?_
    simp
  · rw [if_neg he]
    obtain ⟨j, hj⟩ := Int.eq_ofNat_of_zero_le (show 0 ≤ -e by omega)
    obtain rfl : e = -(j : Int) := by omega
    refine ofRatio_eq_nearest negative (Nat.pow_pos (by decide)) ?_
    simp [div_eq_mul_inv]

end AgentBridge.Binary64
