/-
  AgentBridge.Text.Similar — how similar two words are, for suggestions.

  The common part of two words is found by their longest common run, the earliest in the
  first word and then in the second, and then in the same way on either side of it. The
  similarity is twice the size of the common part over the size of both words. A suggestion
  is a candidate with a similarity of at least 3/5.
-/

namespace AgentBridge.Similar

variable {α : Type} [DecidableEq α]

/-- The length of the common start of two lists. -/
def commonStart : List α → List α → Nat
  | a :: as, b :: bs => if a = b then commonStart as bs + 1 else 0
  | _, _ => 0

/-- A run that two lists have in common. -/
structure Match where
  first : Nat
  second : Nat
  size : Nat
  deriving DecidableEq, Repr

/-- The longer of two runs; the first one, if they are equally long. -/
def Match.longer (m n : Match) : Match := if m.size < n.size then n else m

/-- The longest run that starts at place `i` of the first list. -/
def longestAt (as bs : List α) (i : Nat) : Match :=
  (List.range bs.length).foldl
    (fun m j => m.longer ⟨i, j, commonStart (as.drop i) (bs.drop j)⟩) ⟨i, 0, 0⟩

def longest (as bs : List α) : Match :=
  (List.range as.length).foldl (fun m i => m.longer (longestAt as bs i)) ⟨0, 0, 0⟩

/-- The size of the common part of two lists, within a depth. -/
def commonWithin : (depth : Nat) → List α → List α → Nat
  | 0, _, _ => 0
  | depth + 1, as, bs =>
    let m := longest as bs
    if m.size = 0 then 0
    else
      commonWithin depth (as.take m.first) (bs.take m.second) + m.size +
        commonWithin depth (as.drop (m.first + m.size)) (bs.drop (m.second + m.size))

/-- The size of the common part of two lists. Every step leaves a shorter first list. -/
def common (as bs : List α) : Nat := commonWithin (as.length + 1) as bs

/-- The similarity of a candidate to a word, as a fraction. -/
structure Score where
  shared : Nat
  total : Nat

def score (candidate word : List α) : Score :=
  ⟨2 * common candidate word, candidate.length + word.length⟩

def Score.isClose (s : Score) : Bool := 3 * s.total ≤ 5 * s.shared

def Score.isLess (s t : Score) : Bool := s.shared * t.total < t.shared * s.total

def suggestionLimit : Nat := 3

/-- Whether a candidate comes before another: the more similar one does, and of equally
similar ones the later in the order of names. -/
def isBetter (word : List Char) (a b : String) : Bool :=
  let s := score a.toList word
  let t := score b.toList word
  t.isLess s || (!s.isLess t && b < a)

/-- The best of the candidates that are similar to a word, in the order of names. -/
def suggestions (word : List Char) (candidates : List String) : List String :=
  let close := candidates.filter fun c => (score c.toList word).isClose
  let best := (close.mergeSort (isBetter word · ·)).take suggestionLimit
  best.mergeSort (· ≤ ·)

end AgentBridge.Similar
