import AgentBridge.Number.Shortest
import AgentBridge.Text.Blank
import AgentBridge.Text.Digit

/-
  AgentBridge.Number.Decimal — floating-point numbers as decimal text.

  Writing takes the shortest digits that read back. The point stands among them while the
  first digit's power of ten is between 10^-4 and 10^15, and there is always a digit behind
  it; otherwise the power follows after `e`, with a sign and at least two digits.

  Reading has one grammar of decimal literals, `literal?`, and two dialects in front of it:
  the environment allows blanks around the number, decimal digits of any script, and single
  underscores between digits; a configuration field allows white space around a plain
  literal, or single underscores inside one that stands alone.
-/

namespace AgentBridge.Binary64

/-! ## Writing -/

/-- The least and the greatest power of ten of a first digit that is written with a point
among the digits. -/
def positional : Int × Int := (-4, 15)

def digitsOf (n : Nat) : List Char := Nat.toDigits 10 n

def dropTrailingZeros (ds : List Char) : List Char :=
  (ds.reverse.dropWhile (· == '0')).reverse

/-- An exponent with its sign and at least two digits. -/
def exponentText (e : Int) : List Char :=
  let ds := digitsOf e.natAbs
  'e' :: (if e < 0 then '-' else '+') :: (if ds.length < 2 then '0' :: ds else ds)

/-- Digits `ds` with the point after the first `point` of them. -/
def digitsText (ds : List Char) (point : Int) : List Char :=
  let power := point - 1
  if power < positional.1 ∨ positional.2 < power then
    match ds with
    | [d] => d :: exponentText power
    | d :: rest => d :: '.' :: rest ++ exponentText power
    | [] => []
  else if point ≤ 0 then
    '0' :: '.' :: List.replicate (-point).toNat '0' ++ ds
  else if ds.length ≤ point.toNat then
    ds ++ List.replicate (point.toNat - ds.length) '0' ++ ['.', '0']
  else
    ds.take point.toNat ++ '.' :: ds.drop point.toNat

/-- The text of the finite number with the given fields. -/
def finiteText (negative : Bool) (exponent : Fin 2047) (fraction : Fin hiddenBit) : List Char :=
  let m := significand exponent fraction
  let body :=
    if m = 0 then ['0', '.', '0']
    else
      let d := shortest m (scale exponent)
      let all := digitsOf d.digits
      digitsText (dropTrailingZeros all) (all.length + d.exponent)
  if negative then '-' :: body else body

/-- The text of a number, with the given words for what is not finite. -/
def text (nanWord infinityWord : String) : Binary64 → List Char
  | .nan => nanWord.toList
  | .infinite negative => if negative then '-' :: infinityWord.toList else infinityWord.toList
  | .finite negative e f => finiteText negative e f

def display : Binary64 → List Char := text "nan" "inf"

/-! ## Reading -/

/-- The parts of a decimal literal: the digits before and after the point, and the exponent. -/
def ofParts (negative : Bool) (whole fraction : List Char) (exponent : Int) : Binary64 :=
  let ds := whole ++ fraction
  ofDecimal negative (Digit.number ds) ds.length (exponent - fraction.length)

/-- A whole number with an optional sign, and nothing else. -/
def signedDigits? : List Char → Option Int
  | '-' :: ds => if !ds.isEmpty && ds.all Digit.isDigit then some (-(Digit.number ds : Int)) else none
  | '+' :: ds => if !ds.isEmpty && ds.all Digit.isDigit then some (Digit.number ds) else none
  | ds => if !ds.isEmpty && ds.all Digit.isDigit then some (Digit.number ds) else none

/-- The exponent part of a literal, from its `e` to its end; nothing there stands for zero. -/
def exponent? : List Char → Option Int
  | [] => some 0
  | 'e' :: rest => signedDigits? rest
  | 'E' :: rest => signedDigits? rest
  | _ => none

/-- A literal after its sign: digits with a point somewhere, then an exponent; or one of the
words for infinity and not-a-number in any case. -/
def unsigned? (negative : Bool) (cs : List Char) : Option Binary64 :=
  let word := cs.map Char.toLower
  if word = "inf".toList ∨ word = "infinity".toList then some (.infinite negative)
  else if word = "nan".toList then some .nan
  else
    let whole := cs.takeWhile Digit.isDigit
    let (fraction, rest) := match cs.dropWhile Digit.isDigit with
      | '.' :: rest => (rest.takeWhile Digit.isDigit, rest.dropWhile Digit.isDigit)
      | rest => ([], rest)
    if whole.isEmpty && fraction.isEmpty then none
    else (exponent? rest).map (ofParts negative whole fraction)

def literal? : List Char → Option Binary64
  | '-' :: cs => unsigned? true cs
  | '+' :: cs => unsigned? false cs
  | cs => unsigned? false cs

/-- Take out underscores, each of which has to stand between two digits; `before` is whether
a digit stands in front. -/
def ungroup? : (before : Bool) → List Char → Option (List Char)
  | _, [] => some []
  | before, '_' :: c :: rest =>
    if before && Digit.isDigit c then (ungroup? true rest).map (c :: ·) else none
  | _, ['_'] => none
  | _, c :: rest => (ungroup? (Digit.isDigit c) rest).map (c :: ·)

/-- The number that an environment variable spells. -/
def ofEnvironment? (cs : List Char) : Option Binary64 :=
  (ungroup? false ((Blank.trim cs).map Digit.toAscii)).bind literal?

/-- Whether underscores stand alone and inside. -/
def innerUnderscores (cs : List Char) : Bool :=
  cs.contains '_' && cs.head? != some '_' && cs.getLast? != some '_' &&
    !(cs.zip (cs.drop 1)).contains ('_', '_')

/-- The number that a configuration field spells. -/
def ofField? (cs : List Char) : Option Binary64 :=
  match literal? (Blank.trimBy Blank.isWhiteSpace cs) with
  | some x => some x
  | none => if innerUnderscores cs then literal? (cs.filter (· != '_')) else none

end AgentBridge.Binary64
