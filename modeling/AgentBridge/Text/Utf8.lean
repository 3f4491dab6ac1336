import AgentBridge.Text
import AgentBridge.Text.Digit
import AgentBridge.Text.Quoted

/-
  AgentBridge.Text.Utf8 — reading bytes as UTF-8, strictly and leniently, and what can be
  written as such.

  `front` looks at the front of a byte string and finds either a character, or the longest
  run of bytes that could begin one but does not go on as one, with the reason. The strict
  reader stops at the first such flaw and names it; the lenient one puts one U+FFFD in its
  place and goes on behind it. Both step through the bytes with the same `front`, so they
  agree on every well-formed string.

  The table of first bytes leaves out the overlong forms, the surrogates and everything
  above U+10FFFF by narrowing the range of the second byte.

  A text can be written if it consists of characters; `characters` gives them, or the first
  surrogates that have no bytes.
-/

namespace AgentBridge.Utf8

inductive Flaw where
  | badStart
  | badContinuation
  | cutShort
  deriving DecidableEq, Repr

/-- What stands at the front of a byte string, and how many bytes it takes. -/
structure Front where
  found : Except Flaw Char
  size : Nat

/-- What a first byte above 0x7F promises: how many bytes follow, the least and the greatest
second byte, and the bits that the first byte holds. -/
structure Lead where
  more : Nat
  least : Nat
  greatest : Nat
  bits : Nat

/-- The first bytes of characters of two, three and four bytes. -/
def lead? (b : Nat) : Option Lead :=
  if 0xC2 ≤ b ∧ b ≤ 0xDF then some ⟨1, 0x80, 0xBF, b - 0xC0⟩
  else if b = 0xE0 then some ⟨2, 0xA0, 0xBF, 0⟩
  else if b = 0xED then some ⟨2, 0x80, 0x9F, 0xD⟩
  else if 0xE1 ≤ b ∧ b ≤ 0xEF then some ⟨2, 0x80, 0xBF, b - 0xE0⟩
  else if b = 0xF0 then some ⟨3, 0x90, 0xBF, 0⟩
  else if 0xF1 ≤ b ∧ b ≤ 0xF3 then some ⟨3, 0x80, 0xBF, b - 0xF0⟩
  else if b = 0xF4 then some ⟨3, 0x80, 0x8F, 4⟩
  else none

/-- Take `more` following bytes into `bits`. Only the first of them has a range of its own. -/
def following : (more least greatest bits taken : Nat) → List UInt8 → Front
  | 0, _, _, bits, taken, _ => ⟨.ok (Char.ofNat bits), taken⟩
  | _ + 1, _, _, _, taken, [] => ⟨.error .cutShort, taken⟩
  | more + 1, least, greatest, bits, taken, b :: rest =>
    if least ≤ b.toNat ∧ b.toNat ≤ greatest then
      following more 0x80 0xBF (bits * 0x40 + (b.toNat - 0x80)) (taken + 1) rest
    else ⟨.error .badContinuation, taken⟩

/-- The front of a byte string that begins with `b`. -/
def front (b : UInt8) (rest : List UInt8) : Front :=
  if b.toNat < 0x80 then ⟨.ok (Char.ofNat b.toNat), 1⟩
  else match lead? b.toNat with
    | some l => following l.more l.least l.greatest l.bits 1 rest
    | none => ⟨.error .badStart, 1⟩

/-- A flaw, where it begins, how many bytes it spans, and the first of them. -/
structure Fault where
  flaw : Flaw
  start : Nat
  size : Nat
  byte : UInt8
  deriving DecidableEq, Repr

/-- Read strictly from position `pos` on, after passing over `skip` bytes that are dealt with. -/
def strictFrom : (skip pos : Nat) → List UInt8 → Except Fault (List Char)
  | _, _, [] => .ok []
  | skip + 1, pos, _ :: rest => strictFrom skip (pos + 1) rest
  | 0, pos, b :: rest =>
    let f := front b rest
    match f.found with
    | .ok c => (strictFrom (f.size - 1) (pos + 1) rest).map (c :: ·)
    | .error flaw => .error ⟨flaw, pos, f.size, b⟩

/-- Read leniently, after passing over `skip` bytes that are dealt with. -/
def lenientFrom : (skip : Nat) → List UInt8 → List Char
  | _, [] => []
  | skip + 1, _ :: rest => lenientFrom skip rest
  | 0, b :: rest =>
    let f := front b rest
    let c := match f.found with
      | .ok c => c
      | .error _ => '\uFFFD'
    c :: lenientFrom (f.size - 1) rest

/-- The characters of a well-formed byte string, or its first fault. -/
def decode? (bytes : List UInt8) : Except Fault (List Char) := strictFrom 0 0 bytes

/-- The characters of a byte string, with one U+FFFD in place of every flaw. -/
def decodeLossy (bytes : List UInt8) : List Char := lenientFrom 0 bytes

def encode (cs : List Char) : List UInt8 := cs.flatMap String.utf8EncodeChar

def Flaw.reason : Flaw → String
  | .badStart => "invalid start byte"
  | .badContinuation => "invalid continuation byte"
  | .cutShort => "unexpected end of data"

/-- The message for a fault: it names the byte when there is one, else the positions. -/
def Fault.message (f : Fault) : String :=
  let place :=
    if f.size = 1 then
      "byte 0x" ++ String.ofList (Hex.padded 2 f.byte.toNat) ++ " in position " ++ toString f.start
    else
      "bytes in position " ++ toString f.start ++ "-" ++ toString (f.start + f.size - 1)
  "'utf-8' codec can't decode " ++ place ++ ": " ++ f.flaw.reason

/-! ## Writing -/

/-- Surrogates that have no bytes: where the first run of them starts in a text, its first one,
and how many more belong to it. -/
structure Surrogates where
  start : Nat
  first : CodePoint
  more : Nat
  deriving DecidableEq, Repr

/-- The message for surrogates: it names a single one, else the positions. -/
def Surrogates.message (s : Surrogates) : String :=
  let place :=
    if s.more = 0 then
      "character " ++ String.ofList (Text.quoted [s.first]) ++ " in position " ++ toString s.start
    else
      "characters in position " ++ toString s.start ++ "-" ++ toString (s.start + s.more)
  "'utf-8' codec can't encode " ++ place ++ ": surrogates not allowed"

def isSurrogate : CodePoint → Bool
  | .char _ => false
  | _ => true

/-- The characters of the part of a text that starts at a place. -/
def charactersFrom (start : Nat) : Text → Except Surrogates (List Char)
  | [] => .ok []
  | .char c :: rest => (charactersFrom (start + 1) rest).map (c :: ·)
  | p :: rest => .error ⟨start, p, (rest.takeWhile isSurrogate).length⟩

/-- The characters of a text, or the first surrogates in it. -/
def characters (t : Text) : Except Surrogates (List Char) := charactersFrom 0 t

theorem charactersFrom_ofChars (start : Nat) (cs : List Char) :
    charactersFrom start (Text.ofChars cs) = .ok cs := by
  induction cs generalizing start with
  | nil => rfl
  | cons c rest ih =>
    show (charactersFrom (start + 1) (Text.ofChars rest)).map (c :: ·) = _
    rw [ih]
    rfl

/-- A text that is made of characters can be written. -/
@[simp] theorem characters_ofChars (cs : List Char) :
    characters (Text.ofChars cs) = .ok cs :=
  charactersFrom_ofChars 0 cs

end AgentBridge.Utf8
