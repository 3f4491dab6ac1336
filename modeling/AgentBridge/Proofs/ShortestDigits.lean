import AgentBridge.Number.Shortest
import AgentBridge.Proofs.Rounding

/-
  AgentBridge.Proofs.ShortestDigits — the shortest digits stand for the number.

  The search for digits ends with a decimal inside the neighbourhood of the number
  (`near_shortest`), since it goes as far as seventeen digits: on that grid the step is so
  small that the nearest decimal is always inside.
-/

namespace AgentBridge.Binary64

/-! ## The neighbourhood -/

theorem denominator_pos (m : Nat) (q : Int) : 0 < (neighbourhood m q).denominator := by
  simp only [neighbourhood]
  split
  · decide
  · exact Nat.mul_pos (by decide) (Nat.pow_pos (by decide))

/-- What is scaled to be whole, scaled back. -/
theorem scaled_div_denominator (a m : Nat) (q : Int) :
    ((a * (if 0 ≤ q then Nat.pow 2 q.toNat else 1) : Nat) : ℚ) / (neighbourhood m q).denominator = a / 4 * 2 ^ q := by
  simp only [neighbourhood]
  by_cases hq : 0 ≤ q
  · obtain ⟨j, rfl⟩ := Int.eq_ofNat_of_zero_le hq
    simp only [hq, if_true, Int.toNat_natCast, zpow_natCast]
    push_cast [Nat.pow_eq]
    ring
  · obtain ⟨j, hj⟩ := Int.eq_ofNat_of_zero_le (show 0 ≤ -q by omega)
    obtain rfl : q = -(j : ℤ) := by omega
    simp only [hq, if_false, neg_neg, Int.toNat_natCast, zpow_neg, zpow_natCast, Nat.mul_one]
    push_cast [Nat.pow_eq]
    field_simp

theorem value_neighbourhood (m : Nat) (q : Int) :
    ((neighbourhood m q).value : ℚ) / (neighbourhood m q).denominator = m * 2 ^ q := by
  refine (scaled_div_denominator (4 * m) m q).trans ?_
  push_cast
  ring

theorem high_neighbourhood (m : Nat) (q : Int) :
    ((neighbourhood m q).high : ℚ) / (neighbourhood m q).denominator = (m + 1 / 2) * 2 ^ q := by
  refine (scaled_div_denominator (4 * m + 2) m q).trans ?_
  push_cast
  ring

theorem low_neighbourhood {m : Nat} (hm : 0 < m) (q : Int) :
    ((neighbourhood m q).low : ℚ) / (neighbourhood m q).denominator = (m - gapBelow m q) * 2 ^ q := by
  refine (scaled_div_denominator (if m = hiddenBit ∧ q ≠ -1074 then 4 * m - 1 else 4 * m - 2) m q).trans ?_
  have h4 : (((if m = hiddenBit ∧ q ≠ -1074 then 4 * m - 1 else 4 * m - 2 : Nat) : ℚ)) / 4 = m - gapBelow m q := by
    unfold gapBelow
    split
    · rw [Nat.cast_sub (by omega)]
      push_cast
      ring
    · rw [Nat.cast_sub (by omega)]
      push_cast
      ring
  rw [h4]

theorem pow_ten_pos (e : Int) : 0 < if 0 ≤ e then 1 else Nat.pow 10 (-e).toNat := by
  split
  · decide
  · exact Nat.pow_pos (by decide)

/-- A decimal over the same denominator as a neighbourhood. -/
theorem decimal_scaled (k d : Nat) (e : Int) :
    ((if 0 ≤ e then k * Nat.pow 10 e.toNat * d else k * d : Nat) : ℚ) =
      k * 10 ^ e * (d * (if 0 ≤ e then 1 else Nat.pow 10 (-e).toNat : Nat)) := by
  by_cases he : 0 ≤ e
  · obtain ⟨j, rfl⟩ := Int.eq_ofNat_of_zero_le he
    simp only [he, if_true, Int.toNat_natCast, zpow_natCast]
    push_cast [Nat.pow_eq]
    ring
  · obtain ⟨j, hj⟩ := Int.eq_ofNat_of_zero_le (show 0 ≤ -e by omega)
    obtain rfl : e = -(j : ℤ) := by omega
    simp only [he, if_false, neg_neg, Int.toNat_natCast, zpow_neg, zpow_natCast]
    push_cast [Nat.pow_eq]
    field_simp

/-- A decimal lies in the neighbourhood of a number exactly when it is near enough to be rounded to it. -/
theorem holds_iff {m : Nat} (hm : 0 < m) {q : Int} {k : Nat} {e : Int} :
    (neighbourhood m q).holds k e = true ↔ Near m q (k * 10 ^ e) := by
  have hden : (0 : ℚ) < (neighbourhood m q).denominator := by exact_mod_cast denominator_pos m q
  have hup : (0 : ℚ) < ((if 0 ≤ e then 1 else Nat.pow 10 (-e).toNat : Nat) : ℚ) := by exact_mod_cast pow_ten_pos e
  have hscaled := decimal_scaled k (neighbourhood m q).denominator e
  have hlow := low_neighbourhood hm q
  have hhigh := high_neighbourhood m q
  rw [div_eq_iff (ne_of_gt hden)] at hlow hhigh
  have hclosed : (neighbourhood m q).closed = decide (m % 2 = 0) := rfl
  simp only [Neighbourhood.holds, hclosed]
  generalize (if 0 ≤ e then k * Nat.pow 10 e.toNat * (neighbourhood m q).denominator
    else k * (neighbourhood m q).denominator : Nat) = scaled at hscaled ⊢
  generalize (if 0 ≤ e then 1 else Nat.pow 10 (-e).toNat : Nat) = up at hscaled hup ⊢
  have hpos := mul_pos hden hup
  have hle : (neighbourhood m q).low * up ≤ scaled ↔ (m - gapBelow m q) * 2 ^ q ≤ k * 10 ^ e := by
    rw [← Nat.cast_le (α := ℚ), Nat.cast_mul, hlow, hscaled, mul_assoc, mul_le_mul_iff_of_pos_right hpos]
  have hlt : (neighbourhood m q).low * up < scaled ↔ (m - gapBelow m q) * 2 ^ q < k * 10 ^ e := by
    rw [← Nat.cast_lt (α := ℚ), Nat.cast_mul, hlow, hscaled, mul_assoc, mul_lt_mul_iff_of_pos_right hpos]
  have hge : scaled ≤ (neighbourhood m q).high * up ↔ (k : ℚ) * 10 ^ e ≤ (m + 1 / 2) * 2 ^ q := by
    rw [← Nat.cast_le (α := ℚ), Nat.cast_mul, hhigh, hscaled, mul_assoc _ _ (up : ℚ),
      mul_le_mul_iff_of_pos_right hpos]
  have hgt : scaled < (neighbourhood m q).high * up ↔ (k : ℚ) * 10 ^ e < (m + 1 / 2) * 2 ^ q := by
    rw [← Nat.cast_lt (α := ℚ), Nat.cast_mul, hhigh, hscaled, mul_assoc _ _ (up : ℚ),
      mul_lt_mul_iff_of_pos_right hpos]
  by_cases heven : m % 2 = 0
  · simp only [heven, decide_true, if_true, Bool.and_eq_true, decide_eq_true_eq, hle, hge]
    exact ⟨fun h => ⟨h.1, h.2, Or.inl heven⟩, fun h => ⟨h.low, h.high⟩⟩
  · simp only [heven, decide_false, Bool.false_eq_true, if_false, Bool.and_eq_true, decide_eq_true_eq, hlt, hgt]
    constructor
    · intro h
      exact ⟨le_of_lt h.1, le_of_lt h.2, Or.inr ⟨ne_of_lt h.1, ne_of_lt h.2⟩⟩
    · intro h
      obtain ⟨hl, hh⟩ := h.tie.resolve_left heven
      exact ⟨lt_of_le_of_ne h.low hl, lt_of_le_of_ne h.high hh⟩

/-! ## The search -/

/-- The step of a grid, over the denominator of a neighbourhood. -/
def Neighbourhood.unit (v : Neighbourhood) (e : Int) : Nat :=
  if 0 ≤ e then Nat.pow 10 e.toNat * v.denominator else v.denominator

/-- The number of a neighbourhood, in the same measure as the step of a grid. -/
def Neighbourhood.measure (v : Neighbourhood) (e : Int) : Nat :=
  if 0 ≤ e then v.value else v.value * Nat.pow 10 (-e).toNat

/-- The number of steps that comes nearest to a value. -/
def nearestStep (value unit : Nat) : Nat :=
  if 2 * (value % unit) < unit ∨ (2 * (value % unit) = unit ∧ value / unit % 2 = 0) then value / unit
  else value / unit + 1

theorem onGrid_eq (v : Neighbourhood) (e : Int) :
    ∃ other, v.onGrid? e =
      if v.holds (nearestStep (v.measure e) (v.unit e)) e then some ⟨nearestStep (v.measure e) (v.unit e), e⟩
      else if v.holds other e then some ⟨other, e⟩
      else none :=
  ⟨_, rfl⟩

theorem holds_of_onGrid {v : Neighbourhood} {e : Int} {d : Decimal} (h : v.onGrid? e = some d) :
    v.holds d.digits d.exponent = true := by
  obtain ⟨other, ho⟩ := onGrid_eq v e
  rw [ho] at h
  split at h
  · obtain rfl := Option.some.inj h
    assumption
  · split at h
    · obtain rfl := Option.some.inj h
      assumption
    · cases h

/-- A search ends inside the neighbourhood if one of the grids that it tries reaches there. -/
theorem holds_search {v : Neighbourhood} {tries : Nat} {e : Int} {last : Nat} (hlast : last < tries)
    (h : v.onGrid? (e - last) ≠ none) : v.holds (v.search tries e).digits (v.search tries e).exponent = true := by
  induction tries generalizing e last with
  | zero => omega
  | succ tries ih =>
    rw [Neighbourhood.search]
    cases hg : v.onGrid? e with
    | some d => exact holds_of_onGrid hg
    | none =>
      rw [Option.getD_none]
      cases last with
      | zero => exact absurd hg (by simpa using h)
      | succ last =>
        refine ih (by omega : last < tries) ?_
        rwa [show e - 1 - (last : ℤ) = e - ((last + 1 : Nat) : ℤ) by push_cast; ring]

/-- The nearest number of steps is at most half a step away. -/
theorem nearestStep_spec (value : Nat) {unit : Nat} (hu : 0 < unit) :
    2 * (nearestStep value unit * unit) ≤ 2 * value + unit ∧
      2 * value ≤ 2 * (nearestStep value unit * unit) + unit := by
  have hdiv := Nat.div_add_mod value unit
  have hmod := Nat.mod_lt value hu
  have hs : (value / unit + 1) * unit = value / unit * unit + unit := Nat.succ_mul _ _
  rw [Nat.mul_comm] at hdiv
  unfold nearestStep
  split <;> omega

theorem unit_pos (m : Nat) (q e : Int) : 0 < (neighbourhood m q).unit e := by
  unfold Neighbourhood.unit
  split
  · exact Nat.mul_pos (Nat.pow_pos (by decide)) (denominator_pos m q)
  · exact denominator_pos m q

theorem measure_div_unit (m : Nat) (q e : Int) :
    ((neighbourhood m q).measure e : ℚ) / (neighbourhood m q).unit e * 10 ^ e = m * 2 ^ q := by
  have hden : ((neighbourhood m q).denominator : ℚ) ≠ 0 := by exact_mod_cast Nat.ne_of_gt (denominator_pos m q)
  rw [← value_neighbourhood]
  unfold Neighbourhood.unit Neighbourhood.measure
  by_cases he : 0 ≤ e
  · obtain ⟨j, rfl⟩ := Int.eq_ofNat_of_zero_le he
    simp only [he, if_true, Int.toNat_natCast, zpow_natCast]
    push_cast [Nat.pow_eq]
    field_simp
  · obtain ⟨j, hj⟩ := Int.eq_ofNat_of_zero_le (show 0 ≤ -e by omega)
    obtain rfl : e = -(j : ℤ) := by omega
    simp only [he, if_false, neg_neg, Int.toNat_natCast, zpow_neg, zpow_natCast]
    push_cast [Nat.pow_eq]
    field_simp

/-- A grid whose steps are at most 10^-16 of the number reaches into the neighbourhood. -/
theorem near_nearestStep {m : Nat} {q e : Int} (hc : Canonical m q) (he : (10 : ℚ) ^ (e + 16) ≤ m * 2 ^ q) :
    Near m q (nearestStep ((neighbourhood m q).measure e) ((neighbourhood m q).unit e) * 10 ^ e) := by
  have hu : (0 : ℚ) < (neighbourhood m q).unit e := by exact_mod_cast unit_pos m q e
  obtain ⟨h1, h2⟩ := nearestStep_spec ((neighbourhood m q).measure e) (unit_pos m q e)
  have hvalue := measure_div_unit m q e
  generalize nearestStep _ _ = k at h1 h2 ⊢
  have hten : (0 : ℚ) < 10 ^ e := by positivity
  have hstep : (10 : ℚ) ^ e * 10 ^ 16 ≤ m * 2 ^ q := by
    rw [← zpow_natCast, ← zpow_add₀ (by norm_num)]
    exact he
  have hpow : (0 : ℚ) < 2 ^ q := by positivity
  -- Half a step is less than what is rounded to the number on either side.
  have hbelow : (10 : ℚ) ^ e / 2 < gapBelow m q * 2 ^ q := by
    unfold gapBelow
    split
    · rename_i hn
      have hm : (m : ℚ) = 2 ^ 52 := by rw [hn.1]; norm_num [hiddenBit]
      rw [hm] at hstep
      linarith
    · have hm : (m : ℚ) ≤ 2 ^ 53 - 1 := by
        have : (m : ℚ) + 1 ≤ 2 ^ 53 := by exact_mod_cast (show m + 1 ≤ 2 ^ 53 from hc.lt)
        linarith
      have : (10 : ℚ) ^ e * 10 ^ 16 ≤ (2 ^ 53 - 1) * 2 ^ q := le_trans hstep (by gcongr)
      linarith
  have habove : (10 : ℚ) ^ e / 2 < 1 / 2 * 2 ^ q :=
    lt_of_lt_of_le hbelow (mul_le_mul_of_nonneg_right (gapBelow_le m q) (le_of_lt hpow))
  have hnear : (m : ℚ) * 2 ^ q - 10 ^ e / 2 ≤ k * 10 ^ e ∧ (k : ℚ) * 10 ^ e ≤ m * 2 ^ q + 10 ^ e / 2 := by
    rw [div_mul_eq_mul_div, div_eq_iff (ne_of_gt hu)] at hvalue
    have h1' : (2 : ℚ) * (k * (neighbourhood m q).unit e) ≤
        2 * (neighbourhood m q).measure e + (neighbourhood m q).unit e := by exact_mod_cast h1
    have h2' : (2 : ℚ) * (neighbourhood m q).measure e ≤
        2 * (k * (neighbourhood m q).unit e) + (neighbourhood m q).unit e := by exact_mod_cast h2
    generalize ((neighbourhood m q).unit e : ℚ) = u at hu hvalue h1' h2'
    generalize ((neighbourhood m q).measure e : ℚ) = w at hvalue h1' h2'
    constructor
    · refine le_of_mul_le_mul_right ?_ hu
      have := mul_le_mul_of_nonneg_right h2' (le_of_lt hten)
      linarith
    · refine le_of_mul_le_mul_right ?_ hu
      have := mul_le_mul_of_nonneg_right h1' (le_of_lt hten)
      linarith
  refine ⟨?_, ?_, Or.inr ⟨ne_of_lt ?_, ne_of_lt ?_⟩⟩
  all_goals first | rw [sub_mul] | rw [add_mul]
  all_goals linarith [hnear.1, hnear.2]

theorem digitCount_spec {n : Nat} (hn : 0 < n) : 10 ^ (digitCount n - 1) ≤ n ∧ n < 10 ^ digitCount n := by
  have hcount : digitCount n = (Nat.toDigits 10 n).length := if_neg (Nat.ne_of_gt hn)
  have hpos : 0 < (Nat.toDigits 10 n).length := Nat.length_toDigits_pos
  have hiff := fun {k} hk => Nat.length_toDigits_le_iff (b := 10) (n := n) (k := k) (by decide) hk
  rw [hcount]
  constructor
  · rcases Nat.eq_or_lt_of_le (Nat.succ_le_of_lt hpos) with h | h
    · rw [← h]
      exact hn
    · have := hiff (k := (Nat.toDigits 10 n).length - 1) (by omega)
      omega
  · exact (hiff hpos).mp (Nat.le_refl _)

/-- A quotient is at least the power of ten of its first digit. -/
theorem zpow_pointPlace_le {n d : Nat} (hn : 0 < n) (hd : 0 < d) : (10 : ℚ) ^ (pointPlace n d - 1) ≤ n / d := by
  have hd' : (0 : ℚ) < d := by exact_mod_cast hd
  unfold pointPlace
  split
  · rename_i hle
    have hq : 0 < n / d := Nat.div_pos hle hd
    have hcount := (digitCount_spec hq).1
    have hpos : 0 < digitCount (n / d) := by
      by_contra h0
      have := (digitCount_spec hq).2
      rw [show digitCount (n / d) = 0 by omega] at this
      omega
    rw [show (digitCount (n / d) : ℤ) - 1 = ((digitCount (n / d) - 1 : Nat) : ℤ) by omega, zpow_natCast,
      le_div_iff₀ hd']
    have : 10 ^ (digitCount (n / d) - 1) * d ≤ n :=
      le_trans (Nat.mul_le_mul_right d hcount) (Nat.div_mul_le_self n d)
    exact_mod_cast this
  · rename_i hlt
    have hceil : d ≤ (d + n - 1) / n * n := by
      have hdiv := Nat.div_add_mod (d + n - 1) n
      have hmod := Nat.mod_lt (d + n - 1) hn
      rw [Nat.mul_comm] at hdiv
      omega
    have hmore : 0 < (d + n - 1) / n - 1 := by
      have : 2 ≤ (d + n - 1) / n := by
        rw [Nat.le_div_iff_mul_le hn]
        omega
      omega
    have hcount := (digitCount_spec hmore).2
    generalize digitCount ((d + n - 1) / n - 1) = count at hcount ⊢
    have hd10 : d ≤ 10 ^ count * n := le_trans hceil (Nat.mul_le_mul_right n (by omega))
    rw [show (1 : ℤ) - (count : ℤ) - 1 = -(count : ℤ) by ring, zpow_neg, zpow_natCast, le_div_iff₀ hd',
      inv_mul_le_iff₀ (by positivity)]
    exact_mod_cast hd10

/-- The shortest digits of a number are near enough to be rounded to it. -/
theorem near_shortest {m : Nat} {q : Int} (hc : Canonical m q) :
    Near m q ((shortest m q).digits * 10 ^ (shortest m q).exponent) := by
  have hvalue : 0 < (neighbourhood m q).value := by
    refine Nat.mul_pos (Nat.mul_pos (by decide) hc.pos) ?_
    split
    · exact Nat.pow_pos (by decide)
    · decide
  have hplace := zpow_pointPlace_le hvalue (denominator_pos m q)
  rw [value_neighbourhood] at hplace
  rw [← holds_iff hc.pos]
  refine holds_search (by decide : 16 < 17) ?_
  obtain ⟨other, ho⟩ := onGrid_eq (neighbourhood m q)
    (pointPlace (neighbourhood m q).value (neighbourhood m q).denominator - 1 - (16 : Nat))
  rw [ho, if_pos ((holds_iff hc.pos).mpr (near_nearestStep hc ?_))]
  · simp
  · rwa [Nat.cast_ofNat, sub_add_cancel]

end AgentBridge.Binary64
