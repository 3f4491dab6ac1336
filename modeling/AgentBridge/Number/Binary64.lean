/-
  AgentBridge.Number.Binary64 — floating-point numbers of 64 bits.

  A finite number is a sign, an exponent field and a fraction field; it stands for
  `significand · 2 ^ scale`. Every pair of fields is a number and there is one not-a-number,
  so the type has no junk and equality is the equality of what is written.

  `ofRatio` rounds an exact quotient to the nearest number, a tie to the even significand:
  `roundHalfEven_mul` says that a quotient that is whole is not changed by rounding.
-/

namespace AgentBridge

/-- The bit in front of the fraction of a normal number: two to the power of 52. -/
def hiddenBit : Nat := 0x10000000000000

/-- A number of the binary interchange format of 64 bits. -/
inductive Binary64 where
  | nan
  | infinite (negative : Bool)
  | finite (negative : Bool) (exponent : Fin 2047) (fraction : Fin hiddenBit)
  deriving DecidableEq, Repr

namespace Binary64

/-- The whole number that the fields of a finite number scale by a power of two. -/
def significand (exponent : Fin 2047) (fraction : Fin hiddenBit) : Nat :=
  if exponent.val = 0 then fraction.val else hiddenBit + fraction.val

/-- The power of two by which the significand is scaled. -/
def scale (exponent : Fin 2047) : Int := max exponent.val 1 - 1075

def zero (negative : Bool) : Binary64 := .finite negative 0 ⟨0, by decide⟩

/-- The finite number `m · 2 ^ q`, for a significand that has the hidden bit as its highest
unless `q` is the least scale; infinite where the scale is above the greatest. -/
def ofSignificand (negative : Bool) (m : Nat) (q : Int) : Binary64 :=
  let field := if m < hiddenBit then 0 else (q + 1075).toNat
  if h : field < 2047 then
    .finite negative ⟨field, h⟩ ⟨m % hiddenBit, Nat.mod_lt _ (by decide)⟩
  else .infinite negative

/-- The whole number nearest to `n / d`; a tie goes to the even neighbour. -/
def roundHalfEven (n d : Nat) : Nat :=
  let q := n / d
  let r := n % d
  if d < 2 * r ∨ (2 * r = d ∧ q % 2 = 1) then q + 1 else q

/-- `n / d` multiplied by `2 ^ k`, as a numerator and a denominator. -/
def shiftRatio (n d : Nat) (k : Int) : Nat × Nat :=
  if 0 ≤ k then (n * Nat.pow 2 k.toNat, d) else (n, d * Nat.pow 2 (-k).toNat)

/-- The number nearest to `n / d`, for positive `d`. -/
def ofRatio (negative : Bool) (n d : Nat) : Binary64 :=
  if n = 0 then zero negative
  else
    let guess : Int := (Nat.log2 n : Int) - Nat.log2 d
    let (a, b) := shiftRatio n d (-guess)
    let magnitude := if b ≤ a then guess else guess - 1
    let q := max (magnitude - 52) (-1074)
    let (a, b) := shiftRatio n d (-q)
    let m := roundHalfEven a b
    if m = 2 * hiddenBit then ofSignificand negative hiddenBit (q + 1)
    else ofSignificand negative m q

/-- The number nearest to `coefficient · 10 ^ exponent`, where the coefficient has at most
`digits` digits. Exponents far outside the range are settled without computing the power. -/
def ofDecimal (negative : Bool) (coefficient digits : Nat) (exponent : Int) : Binary64 :=
  if coefficient = 0 then zero negative
  else if exponent + digits < -400 then zero negative
  else if 400 < exponent then .infinite negative
  else if 0 ≤ exponent then ofRatio negative (coefficient * Nat.pow 10 exponent.toNat) 1
  else ofRatio negative coefficient (Nat.pow 10 (-exponent).toNat)

def ofInt (n : Int) : Binary64 := ofRatio (n < 0) n.natAbs 1

/-- Neither infinite nor not-a-number. -/
def isFinite : Binary64 → Bool
  | .finite .. => true
  | _ => false

/-- Equal to zero, whatever its sign. -/
def isZero : Binary64 → Bool
  | .finite _ e f => significand e f == 0
  | _ => false

def isPositive : Binary64 → Bool
  | .finite negative e f => !negative && significand e f != 0
  | .infinite negative => !negative
  | .nan => false

/-- A whole quotient is its own nearest whole number. -/
theorem roundHalfEven_mul (m d : Nat) (h : 0 < d) : roundHalfEven (m * d) d = m := by
  simp [roundHalfEven, Nat.mul_div_cancel m h]
  omega

end Binary64

end AgentBridge
