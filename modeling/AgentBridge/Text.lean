/-
  AgentBridge.Text — text as a list of code points.

  A string read from JSON can hold a surrogate that has no partner, which no Unicode
  scalar value stands for. A code point is therefore a character, a high surrogate or a
  low surrogate, and a text is a list of these. Everything that starts as ordinary text
  (messages, options, addresses) enters through `Text.ofString` and holds characters only.

  `units` writes a code point in units of sixteen bits, a character above U+FFFF as two
  surrogates. `pair` joins each high surrogate with the low one right after it, so it undoes
  `units` on every text that is `Paired`.
-/

namespace AgentBridge

/-- A Unicode code point: a character, or one half of a surrogate pair. -/
inductive CodePoint where
  | char (c : Char)
  | high (i : Fin 0x400)
  | low (i : Fin 0x400)
  deriving DecidableEq, Repr

namespace CodePoint

def val : CodePoint → Nat
  | .char c => c.toNat
  | .high i => 0xD800 + i
  | .low i => 0xDC00 + i

/-- The code point with a given number of at most sixteen bits. -/
def ofUnit (n : Nat) : CodePoint :=
  if n < 0xD800 then .char (Char.ofNat n)
  else if h : n - 0xD800 < 0x400 then .high ⟨n - 0xD800, h⟩
  else if h : n - 0xDC00 < 0x400 then .low ⟨n - 0xDC00, h⟩
  else .char (Char.ofNat n)

/-- The units of sixteen bits that write a code point. -/
def units : CodePoint → List Nat
  | .char c =>
    if c.toNat < 0x10000 then [c.toNat]
    else [0xD800 + (c.toNat - 0x10000) / 0x400, 0xDC00 + (c.toNat - 0x10000) % 0x400]
  | p => [p.val]

/-- The character that a high and a low surrogate stand for together. -/
def join (i j : Fin 0x400) : Char := Char.ofNat (0x10000 + 0x400 * i + j)

end CodePoint

/-- Text is a list of code points. -/
abbrev Text := List CodePoint

namespace Text

def ofChars (cs : List Char) : Text := cs.map .char

def ofString (s : String) : Text := ofChars s.toList

instance : Coe String Text := ⟨ofString⟩

/-- The characters of a text, or nothing where a surrogate stands alone. -/
def toChars? : Text → Option (List Char)
  | [] => some []
  | .char c :: rest => (toChars? rest).map (c :: ·)
  | _ :: _ => none

/-- The characters of a text, with U+FFFD in place of a surrogate. -/
def toCharsLossy (t : Text) : List Char :=
  t.map fun
    | .char c => c
    | _ => '\uFFFD'

/-- Join every high surrogate with a low one that follows it at once. -/
def pair : Text → Text
  | .high i :: .low j :: rest => .char (CodePoint.join i j) :: pair rest
  | c :: rest => c :: pair rest
  | [] => []

/-- Whether no high surrogate is followed at once by a low one. -/
def Paired : Text → Prop
  | .high _ :: .low _ :: _ => False
  | _ :: rest => Paired rest
  | [] => True

@[simp] theorem ofChars_nil : ofChars [] = [] := rfl

@[simp] theorem ofChars_cons (c : Char) (cs : List Char) :
    ofChars (c :: cs) = .char c :: ofChars cs := rfl

@[simp] theorem ofChars_append (a b : List Char) : ofChars (a ++ b) = ofChars a ++ ofChars b :=
  List.map_append

@[simp] theorem toChars?_ofChars (cs : List Char) : toChars? (ofChars cs) = some cs := by
  induction cs with
  | nil => rfl
  | cons c cs ih => simp [toChars?, ih]

@[simp] theorem toCharsLossy_ofChars (cs : List Char) : toCharsLossy (ofChars cs) = cs := by
  simp [toCharsLossy, ofChars, Function.comp_def]

@[simp] theorem pair_ofChars (cs : List Char) : pair (ofChars cs) = ofChars cs := by
  induction cs with
  | nil => rfl
  | cons c cs ih => simp [pair, ih]

end Text

end AgentBridge
