import AgentBridge.Number.Binary64
import Mathlib.Algebra.Order.Field.Power
import Mathlib.Data.Rat.Cast.Order
import Mathlib.Tactic.FieldSimp
import Mathlib.Tactic.Linarith
import Mathlib.Tactic.Positivity
import Mathlib.Tactic.Ring

/-
  AgentBridge.Proofs.Rounding — which quotients are rounded to a number.

  A positive finite number `m · 2 ^ q` is what every quotient near enough to it is rounded to
  (`ofRatio_of_near`). Near enough is half the gap to the next number on either side, the ends
  included when `m` is even; below a power of two the gap is half as wide.
-/

namespace AgentBridge.Binary64

/-! ## Quotients -/

theorem zpow_log2_le {n : Nat} (hn : 0 < n) : (2 : ℚ) ^ (Nat.log2 n : ℤ) ≤ n := by
  rw [zpow_natCast]
  exact_mod_cast Nat.log2_self_le (Nat.ne_of_gt hn)

theorem lt_zpow_log2 (n : Nat) : (n : ℚ) < 2 ^ ((Nat.log2 n : ℤ) + 1) := by
  rw [← Nat.cast_succ, zpow_natCast]
  exact_mod_cast Nat.lt_log2_self

theorem shiftRatio_pos {n d : Nat} (k : Int) (hd : 0 < d) : 0 < (shiftRatio n d k).2 := by
  unfold shiftRatio
  split
  · exact hd
  · exact Nat.mul_pos hd (Nat.pow_pos (by decide))

/-- Shifting a quotient multiplies it by a power of two. -/
theorem shiftRatio_value {n d : Nat} (k : Int) :
    ((shiftRatio n d k).1 : ℚ) / (shiftRatio n d k).2 = n / d * 2 ^ k := by
  unfold shiftRatio
  split
  · rename_i hk
    obtain ⟨j, rfl⟩ := Int.eq_ofNat_of_zero_le hk
    simp only [Int.toNat_natCast, zpow_natCast]
    push_cast [Nat.pow_eq]
    ring
  · rename_i hk
    obtain ⟨j, hj⟩ := Int.eq_ofNat_of_zero_le (show 0 ≤ -k by omega)
    obtain rfl : k = -(j : ℤ) := by omega
    simp only [neg_neg, Int.toNat_natCast, zpow_neg, zpow_natCast]
    push_cast [Nat.pow_eq]
    field_simp

/-- A quotient is rounded to a whole number that is less than one half away, or one half if it is even. -/
theorem roundHalfEven_eq {a b m : Nat} (hb : 0 < b) (hlow : (m : ℚ) - 1 / 2 ≤ a / b)
    (hhigh : (a : ℚ) / b ≤ m + 1 / 2)
    (htie : m % 2 = 0 ∨ ((m : ℚ) - 1 / 2 ≠ a / b ∧ (a : ℚ) / b ≠ m + 1 / 2)) : roundHalfEven a b = m := by
  have hb' : (0 : ℚ) < b := by exact_mod_cast hb
  have h1 : 2 * (m * b) ≤ 2 * a + b := by
    rw [le_div_iff₀ hb'] at hlow
    have : (2 : ℚ) * (m * b) ≤ 2 * a + b := by linarith
    exact_mod_cast this
  have h2 : 2 * a ≤ 2 * (m * b) + b := by
    rw [div_le_iff₀ hb'] at hhigh
    have : (2 : ℚ) * a ≤ 2 * (m * b) + b := by linarith
    exact_mod_cast this
  have h3 : m % 2 = 0 ∨ (2 * (m * b) ≠ 2 * a + b ∧ 2 * a ≠ 2 * (m * b) + b) := by
    rcases htie with h | ⟨hl, hh⟩
    · exact Or.inl h
    · refine Or.inr ⟨fun h => hl ?_, fun h => hh ?_⟩
      · rw [eq_div_iff (ne_of_gt hb')]
        have : (2 : ℚ) * (m * b) = 2 * a + b := by exact_mod_cast h
        linarith
      · rw [div_eq_iff (ne_of_gt hb')]
        have : (2 : ℚ) * a = 2 * (m * b) + b := by exact_mod_cast h
        linarith
  have hdiv := Nat.div_add_mod a b
  have hmod := Nat.mod_lt a hb
  rw [Nat.mul_comm] at hdiv
  simp only [roundHalfEven]
  generalize a / b = k at hdiv ⊢
  generalize a % b = r at hdiv hmod ⊢
  -- The quotient is half a step away at most, so its whole part is `m` or one less.
  have hk : m = k ∨ m = k + 1 := by
    rcases Nat.lt_trichotomy m k with h | h | h
    · have := Nat.mul_le_mul_right b (Nat.succ_le_of_lt h)
      rw [Nat.succ_mul] at this
      omega
    · exact Or.inl h
    · rcases Nat.lt_or_ge (k + 1) m with h' | h'
      · have := Nat.mul_le_mul_right b (Nat.succ_le_of_lt h')
        rw [Nat.succ_mul, Nat.succ_mul] at this
        omega
      · exact Or.inr (by omega)
  rcases hk with rfl | rfl
  · rw [if_neg]
    omega
  · have hs : (k + 1) * b = k * b + b := Nat.succ_mul k b
    rw [hs] at h1 h2 h3
    rw [if_pos]
    omega

/-! ## Numbers -/

/-- A significand and a scale as the fields of a positive number have them. -/
structure Canonical (m : Nat) (q : Int) : Prop where
  pos : 0 < m
  lt : m < 2 * hiddenBit
  least : -1074 ≤ q
  greatest : q ≤ 971
  normal : q = -1074 ∨ hiddenBit ≤ m

/-- The part of a gap that is rounded up to a number from below: half of it, and below a power of two a
quarter of the gap above. -/
def gapBelow (m : Nat) (q : Int) : ℚ := if m = hiddenBit ∧ q ≠ -1074 then 1 / 4 else 1 / 2

/-- A number is near enough to `m · 2 ^ q` to be rounded to it. -/
structure Near (m : Nat) (q : Int) (x : ℚ) : Prop where
  low : (m - gapBelow m q) * 2 ^ q ≤ x
  high : x ≤ (m + 1 / 2) * 2 ^ q
  tie : m % 2 = 0 ∨ ((m - gapBelow m q) * 2 ^ q ≠ x ∧ x ≠ (m + 1 / 2) * 2 ^ q)

theorem gapBelow_le (m : Nat) (q : Int) : gapBelow m q ≤ 1 / 2 := by
  unfold gapBelow
  split <;> norm_num

/-- The power of two of the highest bit of a quotient, as it is computed. -/
def magnitude (n d : Nat) : Int :=
  let guess : Int := (Nat.log2 n : Int) - Nat.log2 d
  if (shiftRatio n d (-guess)).2 ≤ (shiftRatio n d (-guess)).1 then guess else guess - 1

theorem magnitude_spec {n d : Nat} (hn : 0 < n) (hd : 0 < d) :
    (2 : ℚ) ^ magnitude n d ≤ n / d ∧ (n : ℚ) / d < 2 ^ (magnitude n d + 1) := by
  have hd' : (0 : ℚ) < d := by exact_mod_cast hd
  have hb' : (0 : ℚ) < (shiftRatio n d (-((Nat.log2 n : ℤ) - Nat.log2 d))).2 := by
    exact_mod_cast shiftRatio_pos _ hd
  have hone : (shiftRatio n d (-((Nat.log2 n : ℤ) - Nat.log2 d))).2 ≤
      (shiftRatio n d (-((Nat.log2 n : ℤ) - Nat.log2 d))).1 ↔
      (2 : ℚ) ^ ((Nat.log2 n : ℤ) - Nat.log2 d) ≤ n / d := by
    have hvalue := shiftRatio_value (n := n) (d := d) (-((Nat.log2 n : ℤ) - Nat.log2 d))
    have hpow : (0 : ℚ) < 2 ^ ((Nat.log2 n : ℤ) - Nat.log2 d) := by positivity
    rw [← Nat.cast_le (α := ℚ), ← one_le_div hb', hvalue, zpow_neg, ← div_eq_mul_inv, one_le_div hpow]
  simp only [magnitude, hone]
  split
  · refine ⟨by assumption, ?_⟩
    rw [div_lt_iff₀ hd', show (Nat.log2 n : ℤ) - Nat.log2 d + 1 = (Nat.log2 n + 1) - Nat.log2 d by ring,
      zpow_sub₀ two_ne_zero]
    have h1 := lt_zpow_log2 n
    have h2 := zpow_log2_le hd
    have h3 : (0 : ℚ) < 2 ^ (Nat.log2 d : ℤ) := by positivity
    rw [div_mul_eq_mul_div, lt_div_iff₀ h3]
    calc (n : ℚ) * 2 ^ (Nat.log2 d : ℤ) ≤ n * d := by gcongr
      _ < 2 ^ ((Nat.log2 n : ℤ) + 1) * d := by gcongr
  · rename_i hlt
    rw [sub_add_cancel]
    refine ⟨?_, not_le.mp hlt⟩
    rw [le_div_iff₀ hd', show (Nat.log2 n : ℤ) - Nat.log2 d - 1 = Nat.log2 n - (Nat.log2 d + 1) by ring,
      zpow_sub₀ two_ne_zero]
    have h1 := zpow_log2_le hn
    have h2 := lt_zpow_log2 d
    have h3 : (0 : ℚ) < 2 ^ ((Nat.log2 d : ℤ) + 1) := by positivity
    rw [div_mul_eq_mul_div, div_le_iff₀ h3]
    calc (2 : ℚ) ^ (Nat.log2 n : ℤ) * d ≤ n * d := by gcongr
      _ ≤ n * 2 ^ ((Nat.log2 d : ℤ) + 1) := by gcongr

/-- Rounding goes by the magnitude of a quotient. -/
theorem ofRatio_eq (negative : Bool) {n d : Nat} (hn : 0 < n) {q : Int} (hq : q = max (magnitude n d - 52) (-1074)) :
    ofRatio negative n d =
      if roundHalfEven (shiftRatio n d (-q)).1 (shiftRatio n d (-q)).2 = 2 * hiddenBit then
        ofSignificand negative hiddenBit (q + 1)
      else ofSignificand negative (roundHalfEven (shiftRatio n d (-q)).1 (shiftRatio n d (-q)).2) q := by
  subst hq
  rw [ofRatio, if_neg (Nat.ne_of_gt hn)]
  rfl

theorem Near.pos {m : Nat} {q : Int} {x : ℚ} (hm : 0 < m) (h : Near m q x) : 0 < x := by
  have h1 : (1 : ℚ) ≤ m := by exact_mod_cast hm
  have h2 := gapBelow_le m q
  have h3 : (0 : ℚ) < (m - gapBelow m q) * 2 ^ q := mul_pos (by linarith) (by positivity)
  linarith [h.low]

/-- Between two powers of two there is no room for another one. -/
theorem le_of_zpow_le_of_lt {a b : Int} {x : ℚ} (h1 : (2 : ℚ) ^ a ≤ x) (h2 : x < 2 ^ (b + 1)) : a ≤ b := by
  have := (zpow_lt_zpow_iff_right₀ (one_lt_two (α := ℚ))).mp (lt_of_le_of_lt h1 h2)
  omega

theorem zpow_hiddenBit (q : Int) : (hiddenBit : ℚ) * 2 ^ q = 2 ^ (q + 52) := by
  have h : (hiddenBit : ℚ) = 2 ^ (52 : ℤ) := by norm_num [hiddenBit]
  rw [h, zpow_add₀ two_ne_zero, mul_comm]

theorem shiftRatio_mul_zpow (n d : Nat) (q : Int) :
    ((shiftRatio n d (-q)).1 : ℚ) / (shiftRatio n d (-q)).2 * 2 ^ q = n / d := by
  rw [shiftRatio_value, mul_assoc, ← zpow_add₀ two_ne_zero, neg_add_cancel, zpow_zero, mul_one]

section

variable {n d m : Nat} {q : Int}

/-- Where a quotient is no less than the power of two at its scale, it is rounded at that scale. -/
theorem ofRatio_of_near_scale (negative : Bool) (hn : 0 < n) (hd : 0 < d) (hc : Canonical m q)
    (h : Near m q ((n : ℚ) / d)) (hx : (2 : ℚ) ^ (q + 52) ≤ n / d ∨ q = -1074) :
    ofRatio negative n d = ofSignificand negative m q := by
  obtain ⟨hmag, hmag'⟩ := magnitude_spec hn hd
  have hq : q = max (magnitude n d - 52) (-1074) := by
    have htop : (n : ℚ) / d < 2 ^ (q + 52 + 1) := by
      have hm : (m : ℚ) + 1 ≤ 2 * hiddenBit := by exact_mod_cast hc.lt
      calc (n : ℚ) / d ≤ (m + 1 / 2) * 2 ^ q := h.high
        _ < 2 * hiddenBit * 2 ^ q := by gcongr; linarith
        _ = 2 ^ (q + 52 + 1) := by rw [mul_assoc, zpow_hiddenBit, zpow_add_one₀ two_ne_zero, mul_comm]
    have hle := le_of_zpow_le_of_lt hmag htop
    rcases hx with hx | hx
    · have hge := le_of_zpow_le_of_lt hx hmag'
      have := hc.least
      omega
    · omega
  have hround : roundHalfEven (shiftRatio n d (-q)).1 (shiftRatio n d (-q)).2 = m := by
    have hpow : (0 : ℚ) < 2 ^ q := by positivity
    have hgap := gapBelow_le m q
    have hlow := h.low
    have hhigh := h.high
    have htie := h.tie
    rw [← shiftRatio_mul_zpow n d q] at hlow hhigh htie
    have hlow' := le_of_mul_le_mul_right hlow hpow
    refine roundHalfEven_eq (shiftRatio_pos _ hd) (by linarith) (le_of_mul_le_mul_right hhigh hpow) ?_
    rcases htie with he | ⟨hl, hh⟩
    · exact Or.inl he
    · refine Or.inr ⟨fun he => hl ?_, fun he => hh (by rw [he])⟩
      have : gapBelow m q = 1 / 2 := by linarith
      rw [this, he]
  rw [ofRatio_eq negative hn hq, hround, if_neg (Nat.ne_of_lt hc.lt)]

/-- Just below a power of two a quotient is rounded at the scale below, and rounding carries. -/
theorem ofRatio_of_near_carry (negative : Bool) (hn : 0 < n) (hd : 0 < d) (hc : Canonical m q)
    (h : Near m q ((n : ℚ) / d)) (hx : (n : ℚ) / d < 2 ^ (q + 52)) (hq : q ≠ -1074) :
    ofRatio negative n d = ofSignificand negative m q := by
  obtain ⟨hmag, hmag'⟩ := magnitude_spec hn hd
  have hm : m = hiddenBit := by
    refine le_antisymm (not_lt.mp fun hm => absurd hx (not_lt.mpr ?_)) (hc.normal.resolve_left hq)
    have hm' : (hiddenBit : ℚ) + 1 ≤ m := by exact_mod_cast hm
    have hgap := gapBelow_le m q
    rw [← zpow_hiddenBit]
    refine le_trans ?_ h.low
    gcongr
    linarith
  subst hm
  have hgap : gapBelow hiddenBit q = 1 / 4 := if_pos ⟨rfl, hq⟩
  have hlow := h.low
  rw [hgap] at hlow
  -- A quarter of the gap is not enough to reach the scale below that one.
  have hq' : q - 1 = max (magnitude n d - 52) (-1074) := by
    have hhalf : (2 : ℚ) ^ (q + 51) ≤ n / d := by
      refine le_trans ?_ hlow
      rw [show q + 51 = (q - 1) + 52 by ring, ← zpow_hiddenBit, zpow_sub_one₀ two_ne_zero]
      have : (2 : ℚ) ^ q * (2⁻¹ * hiddenBit) ≤ 2 ^ q * (hiddenBit - 1 / 4) := by
        gcongr
        norm_num [hiddenBit]
      linarith
    have h1 := le_of_zpow_le_of_lt hhalf hmag'
    have h2 := le_of_zpow_le_of_lt hmag (show (n : ℚ) / d < 2 ^ (q + 51 + 1) by rwa [add_assoc])
    have := hc.least
    omega
  have hround : roundHalfEven (shiftRatio n d (-(q - 1))).1 (shiftRatio n d (-(q - 1))).2 = 2 * hiddenBit := by
    have hpow : (0 : ℚ) < 2 ^ (q - 1) := by positivity
    have htwo : (2 : ℚ) ^ q = 2 * 2 ^ (q - 1) := by rw [zpow_sub_one₀ two_ne_zero]; ring
    have htop : (2 : ℚ) ^ (q + 52) = 2 * hiddenBit * 2 ^ (q - 1) := by rw [← zpow_hiddenBit, htwo]; ring
    rw [← shiftRatio_mul_zpow n d (q - 1), htwo, ← mul_assoc] at hlow
    rw [← shiftRatio_mul_zpow n d (q - 1), htop] at hx
    have hlow' := le_of_mul_le_mul_right hlow hpow
    have hx' := lt_of_mul_lt_mul_right hx (le_of_lt hpow)
    refine roundHalfEven_eq (shiftRatio_pos _ hd) ?_ ?_ (Or.inl (by decide))
    · push_cast; linarith
    · push_cast; linarith
  rw [ofRatio_eq negative hn hq', hround, if_pos rfl, sub_add_cancel]

/-- A quotient near enough to a number is rounded to it. -/
theorem ofRatio_of_near (negative : Bool) (hd : 0 < d) (hc : Canonical m q) (h : Near m q ((n : ℚ) / d)) :
    ofRatio negative n d = ofSignificand negative m q := by
  have hn : 0 < n := by
    have hd' : (0 : ℚ) < d := by exact_mod_cast hd
    have := h.pos hc.pos
    rw [div_pos_iff_of_pos_right hd'] at this
    exact_mod_cast this
  by_cases hx : (2 : ℚ) ^ (q + 52) ≤ n / d
  · exact ofRatio_of_near_scale negative hn hd hc h (Or.inl hx)
  · by_cases hq : q = -1074
    · exact ofRatio_of_near_scale negative hn hd hc h (Or.inr hq)
    · exact ofRatio_of_near_carry negative hn hd hc h (not_le.mp hx) hq

end

/-- The fields of a number are those of its significand and scale. -/
theorem ofSignificand_significand (negative : Bool) (e : Fin 2047) (f : Fin hiddenBit) :
    ofSignificand negative (significand e f) (scale e) = .finite negative e f := by
  have hf := f.isLt
  have he := e.isLt
  by_cases h0 : e.val = 0
  · obtain rfl : e = 0 := Fin.ext h0
    simp [ofSignificand, significand, Nat.mod_eq_of_lt hf]
  · have hfield : (scale e + 1075).toNat = e.val := by
      simp only [scale]
      omega
    have hmod : (hiddenBit + f.val) % hiddenBit = f.val := by rw [Nat.add_mod_left, Nat.mod_eq_of_lt hf]
    simp [ofSignificand, significand, h0, hfield, he, hmod]

theorem canonical_significand {e : Fin 2047} {f : Fin hiddenBit} (h : significand e f ≠ 0) :
    Canonical (significand e f) (scale e) := by
  have hf := f.isLt
  have he := e.isLt
  unfold significand scale at *
  refine ⟨Nat.pos_of_ne_zero h, ?_, by omega, by omega, ?_⟩
  · split <;> omega
  · split <;> omega

end AgentBridge.Binary64
