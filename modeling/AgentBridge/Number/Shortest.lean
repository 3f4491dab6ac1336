import AgentBridge.Number.Binary64

/-
  AgentBridge.Number.Shortest — the fewest decimal digits that read back.

  The reals that round to a finite number form an interval around it, with its ends
  included when the significand is even. For one digit, two digits and so on, the two
  neighbours of the number on the grid of decimals with that many digits are tried; the
  first grid with a neighbour inside the interval gives the digits. Of two neighbours
  inside, the nearer is taken, and of two equally near ones the even one. Seventeen digits
  always reach into the interval.

  All quantities are kept four times as large and over one denominator, so that the ends of
  the interval are whole.
-/

namespace AgentBridge.Binary64

/-- A positive number with the ends of the interval that rounds to it, over one denominator. -/
structure Neighbourhood where
  low : Nat
  value : Nat
  high : Nat
  closed : Bool
  denominator : Nat

/-- The neighbourhood of `m · 2 ^ q`; below a power of two the gap is half as wide. -/
def neighbourhood (m : Nat) (q : Int) : Neighbourhood :=
  let narrow := m = hiddenBit ∧ q ≠ -1074
  let low := if narrow then 4 * m - 1 else 4 * m - 2
  let up := if 0 ≤ q then Nat.pow 2 q.toNat else 1
  let denominator := if 0 ≤ q then 4 else 4 * Nat.pow 2 (-q).toNat
  ⟨low * up, 4 * m * up, (4 * m + 2) * up, m % 2 = 0, denominator⟩

/-- The number of decimal digits of a whole number; none for zero. -/
def digitCount (n : Nat) : Nat := if n = 0 then 0 else (Nat.toDigits 10 n).length

/-- The place of the decimal point: the least `p` with `n / d < 10 ^ p`. -/
def pointPlace (n d : Nat) : Int :=
  if d ≤ n then digitCount (n / d)
  else 1 - digitCount ((d + n - 1) / n - 1)

/-- A decimal number: whole digits and a power of ten. -/
structure Decimal where
  digits : Nat
  exponent : Int
  deriving DecidableEq, Repr

/-- Whether `k · 10 ^ e` lies in a neighbourhood. -/
def Neighbourhood.holds (v : Neighbourhood) (k : Nat) (e : Int) : Bool :=
  let scaled := if 0 ≤ e then k * Nat.pow 10 e.toNat * v.denominator else k * v.denominator
  let up := if 0 ≤ e then 1 else Nat.pow 10 (-e).toNat
  if v.closed then v.low * up ≤ scaled && scaled ≤ v.high * up
  else v.low * up < scaled && scaled < v.high * up

/-- The decimal with grid step `10 ^ e` that reads back and is nearest, if the grid has one. -/
def Neighbourhood.onGrid? (v : Neighbourhood) (e : Int) : Option Decimal :=
  let unit := if 0 ≤ e then Nat.pow 10 e.toNat * v.denominator else v.denominator
  let value := if 0 ≤ e then v.value else v.value * Nat.pow 10 (-e).toNat
  let below := value / unit
  let rest := value % unit
  let nearest := if 2 * rest < unit ∨ (2 * rest = unit ∧ below % 2 = 0) then below else below + 1
  let other := if nearest = below then below + 1 else below
  if v.holds nearest e then some ⟨nearest, e⟩
  else if v.holds other e then some ⟨other, e⟩
  else none

/-- Try grids with one more digit each time, `tries` times at most. -/
def Neighbourhood.search (v : Neighbourhood) : (tries : Nat) → (e : Int) → Decimal
  | 0, e => ⟨v.value / v.denominator, e⟩
  | tries + 1, e => (v.onGrid? e).getD (v.search tries (e - 1))

/-- The shortest decimal that reads back as `m · 2 ^ q`, for positive `m`. -/
def shortest (m : Nat) (q : Int) : Decimal :=
  let v := neighbourhood m q
  v.search 17 (pointPlace v.value v.denominator - 1)

end AgentBridge.Binary64
