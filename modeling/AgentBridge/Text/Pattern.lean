/-
  AgentBridge.Text.Pattern — patterns that texts are matched against.

  A pattern is matched at the front of a text. Where it fits it takes something, or nothing,
  and leaves the rest. It may fit in several ways that leave different rests; `rests` tries
  them one after the other, and what follows a pattern is tried on each of its rests. A
  repetition takes as much as it can first and then gives back. Behind the rounds that have to
  be, only rounds that take something are tried, so there are at most as many as characters.

  Looking ahead takes nothing. The end of a text is also in front of a line feed that ends it.
-/

namespace AgentBridge

/-- How many times something is repeated: at least so many times and, if there is a bound, at most. -/
structure Times where
  least : Nat
  most : Option Nat
  ordered : ∀ m ∈ most, least ≤ m

/-- Once or more. -/
def Times.onceOrMore : Times := ⟨1, none, nofun⟩

inductive Pattern where
  /-- One character of a class. -/
  | one (isIn : Char → Bool)
  /-- One pattern, and another one behind it. -/
  | next (first second : Pattern)
  | repeated (times : Times) (p : Pattern)
  /-- The pattern fits here. -/
  | ahead (p : Pattern)
  /-- The pattern does not fit here. -/
  | notAhead (p : Pattern)
  /-- Nothing follows but a line feed at most. -/
  | finish

namespace Pattern

variable (step : List Char → List (List Char))

/-- What is left after so many rounds. -/
def exactly : Nat → List Char → List (List Char)
  | 0, cs => [cs]
  | n + 1, cs => (step cs).flatMap (exactly n)

/-- What is left after any number of rounds that take something, up to a bound if there is one. -/
def upTo : (fuel : Nat) → (most : Option Nat) → List Char → List (List Char)
  | 0, _, cs => [cs]
  | fuel + 1, most, cs =>
    if most = some 0 then [cs]
    else ((step cs).filter (·.length < cs.length)).flatMap (upTo fuel (most.map (· - 1))) ++ [cs]

/-- What is left of a text behind a pattern that fits its front, for each way it fits. -/
def rests : Pattern → List Char → List (List Char)
  | .one _, [] => []
  | .one isIn, c :: cs => if isIn c then [cs] else []
  | .next first second, cs => (rests first cs).flatMap (rests second)
  | .repeated times p, cs =>
    (exactly (rests p) times.least cs).flatMap fun rest =>
      upTo (rests p) rest.length (times.most.map (· - times.least)) rest
  | .ahead p, cs => if (rests p cs).isEmpty then [] else [cs]
  | .notAhead p, cs => if (rests p cs).isEmpty then [cs] else []
  | .finish, cs => if cs = [] ∨ cs = ['\n'] then [cs] else []

/-- Whether a pattern fits the front of a text. -/
def accepts (p : Pattern) (cs : List Char) : Bool := !(p.rests cs).isEmpty

end Pattern

end AgentBridge
