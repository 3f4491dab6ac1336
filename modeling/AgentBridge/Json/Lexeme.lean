import AgentBridge.Json.Value
import AgentBridge.Json.Writer
import AgentBridge.Number.Decimal
import AgentBridge.Text.Digit

/-
  AgentBridge.Json.Lexeme — the lexemes of JSON text.

  A lexeme is a bracket, a comma, a colon, a string, or a literal or number with its value,
  together with the place where it starts. `lexemes` cuts a text into lexemes without looking
  at their order. A character that starts no lexeme becomes the lexeme `other`, and a string
  that is not well formed carries its fault; nothing after either of them is ever looked at.

  A scanner returns how many characters it takes, and `lexemes` passes over that many, so it
  recurs on the text itself.
-/

namespace AgentBridge.Json

inductive Fault where
  | expectingValue
  | expectingKey
  | expectingColon
  | expectingComma
  | extraData
  | unterminatedString
  | controlCharacter
  | badEscape
  | badUnicodeEscape
  | byteOrderMark
  deriving DecidableEq, Repr

structure Misreading where
  fault : Fault
  offset : Nat
  deriving DecidableEq, Repr

inductive Bracket where
  | array
  | object
  deriving DecidableEq, Repr

/-- A bound of the reader that a well-formed text can exceed. -/
inductive Limit where
  | digits (count : Nat)
  | nesting (within : Bracket)
  deriving DecidableEq, Repr

inductive Token where
  | opening (b : Bracket)
  | closing (b : Bracket)
  | comma
  | colon
  | text (content : Except Misreading Text)
  | scalar (value : Except Limit Json)
  | other

structure Lexeme where
  token : Token
  start : Nat

def isSpace (c : Char) : Bool := c == ' ' || c == '\t' || c == '\n' || c == '\r'

/-- The token of a character that is a token by itself. -/
def punctuation? : Char → Option Token
  | '[' => some (.opening .array)
  | ']' => some (.closing .array)
  | '\x7b' => some (.opening .object)
  | '\x7d' => some (.closing .object)
  | ',' => some .comma
  | ':' => some .colon
  | _ => none

/-! ## Strings -/

/-- What the letter after a backslash stands for. -/
def unescape? : Char → Option Char
  | '"' => some '"'
  | '\\' => some '\\'
  | '/' => some '/'
  | 'b' => some '\x08'
  | 'f' => some '\x0c'
  | 'n' => some '\n'
  | 'r' => some '\r'
  | 't' => some '\t'
  | _ => none

/-- Put a code point that took `taken` characters in front of what was scanned behind it. -/
def prepend (p : CodePoint) (taken : Nat) (r : Text × Nat) : Text × Nat :=
  (p :: r.1, r.2 + taken)

/-- The code points of a string from position `pos` to its closing quote, and how many
characters they take with the quote; the string starts at `start`. An escape of four digits
has to have a character behind it. Surrogates are not joined yet. -/
def scanText (start : Nat) : (pos : Nat) → List Char → Except Misreading (Text × Nat)
  | _, [] => .error ⟨.unterminatedString, start⟩
  | _, '"' :: _ => .ok ([], 1)
  | _, ['\\'] => .error ⟨.unterminatedString, start⟩
  | pos, '\\' :: 'u' :: a :: b :: c :: d :: e :: rest =>
    match Hex.four? a b c d with
    | some n => (scanText start (pos + 6) (e :: rest)).map (prepend (CodePoint.ofUnit n) 6)
    | none => .error ⟨.badUnicodeEscape, pos + 1⟩
  | pos, '\\' :: 'u' :: _ => .error ⟨.badUnicodeEscape, pos + 1⟩
  | pos, '\\' :: c :: rest =>
    match unescape? c with
    | some x => (scanText start (pos + 2) rest).map (prepend (.char x) 2)
    | none => .error ⟨.badEscape, pos⟩
  | pos, c :: rest =>
    if c < ' ' then .error ⟨.controlCharacter, pos⟩
    else (scanText start (pos + 1) rest).map (prepend (.char c) 1)

/-! ## Literals and numbers -/

/-- The words that stand for values. -/
def words : List (List Char × Json) :=
  [("null".toList, .null), ("true".toList, .bool true), ("false".toList, .bool false),
   ("NaN".toList, .float .nan), ("Infinity".toList, .float (.infinite false)),
   ("-Infinity".toList, .float (.infinite true))]

/-- The digits before the point: a zero by itself, or as many digits as there are. -/
def wholeDigits : List Char → List Char
  | '0' :: _ => ['0']
  | cs => cs.takeWhile Digit.isDigit

/-- The digits of a fraction, where there are any behind the point. -/
def fractionDigits : List Char → List Char
  | '.' :: cs => cs.takeWhile Digit.isDigit
  | _ => []

/-- The sign of an exponent, where one is written. -/
def exponentSign : List Char → List Char
  | '-' :: _ => ['-']
  | '+' :: _ => ['+']
  | _ => []

/-- An exponent and how many characters it takes, where there are digits behind the letter. -/
def exponentPart? : List Char → Option (Int × Nat)
  | e :: cs =>
    if e = 'e' ∨ e = 'E' then
      let sign := exponentSign cs
      let ds := (cs.drop sign.length).takeWhile Digit.isDigit
      let n : Int := Digit.number ds
      if ds.isEmpty then none
      else some (if sign = ['-'] then -n else n, 1 + sign.length + ds.length)
    else none
  | [] => none

/-- How many characters a fraction takes with its point. -/
def fractionSize (cs : List Char) : Nat :=
  let ds := fractionDigits cs
  if ds.isEmpty then 0 else ds.length + 1

/-- The value of a number. It is whole unless it has a fraction or an exponent. -/
def numberValue (negative : Bool) (whole fraction : List Char) (exponent : Option (Int × Nat)) :
    Except Limit Json :=
  if fraction.isEmpty && exponent.isNone then
    let n : Int := Digit.number whole
    if digitLimit < whole.length then .error (.digits whole.length)
    else .ok (.int (if negative then -n else n))
  else .ok (.float (Binary64.ofParts negative whole fraction ((exponent.map (·.1)).getD 0)))

/-- A number behind its sign and how many characters it takes. -/
def scanUnsigned (negative : Bool) (cs : List Char) : Option (Except Limit Json × Nat) :=
  let whole := wholeDigits cs
  if whole.isEmpty then none
  else
    let tail := cs.drop whole.length
    let exponent := exponentPart? (tail.drop (fractionSize tail))
    some (numberValue negative whole (fractionDigits tail) exponent,
      whole.length + fractionSize tail + (exponent.map (·.2)).getD 0)

def scanNumber : List Char → Option (Except Limit Json × Nat)
  | '-' :: cs => (scanUnsigned true cs).map fun r => (r.1, r.2 + 1)
  | cs => scanUnsigned false cs

/-- A word or number and how many characters it takes. -/
def scanScalar (cs : List Char) : Option (Except Limit Json × Nat) :=
  match words.find? fun w => w.1.isPrefixOf cs with
  | some (w, v) => some (.ok v, w.length)
  | none => scanNumber cs

/-! ## The text -/

/-- The lexemes from position `pos` on, after passing over `skip` characters. -/
def lexemesFrom : (skip pos : Nat) → List Char → List Lexeme
  | _, _, [] => []
  | skip + 1, pos, _ :: rest => lexemesFrom skip (pos + 1) rest
  | 0, pos, c :: rest =>
    if isSpace c then lexemesFrom 0 (pos + 1) rest
    else match punctuation? c with
      | some t => ⟨t, pos⟩ :: lexemesFrom 0 (pos + 1) rest
      | none =>
        if c = '"' then
          match scanText pos (pos + 1) rest with
          | .ok (t, size) => ⟨.text (.ok t.pair), pos⟩ :: lexemesFrom size (pos + 1) rest
          | .error e => [⟨.text (.error e), pos⟩]
        else match scanScalar (c :: rest) with
          | some (v, size) => ⟨.scalar v, pos⟩ :: lexemesFrom (size - 1) (pos + 1) rest
          | none => [⟨.other, pos⟩]

def lexemes (cs : List Char) : List Lexeme := lexemesFrom 0 0 cs

end AgentBridge.Json
