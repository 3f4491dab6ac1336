import AgentBridge.Text.Lowercase
import AgentBridge.Text.Utf8
import AgentBridge.Url.Authority

/-
  AgentBridge.Url — the parts of an address, and the parameters in its query.

  An address has a scheme, an authority, a path, a query and a fragment. It is cut at the
  delimiters and nothing is decoded. Control characters and blanks in front of an address are
  dropped, and so are tabs and line breaks anywhere in it.

  The scheme starts with a letter and holds letters, digits, `+`, `-` and `.` only; a text
  without such a scheme in front of a colon is an address without a scheme. The authority
  stands between two slashes and the next `/`, `?` or `#`.

  Parameters stand between `&` signs, and a key is separated from its value by the first `=`.
  A piece without an `=`, or with nothing behind it, is no parameter. A plus sign stands for
  a blank, and the rest is percent-encoded: a character is written as its UTF-8 bytes, each as
  a percent sign and two hexadecimal digits, unless it is one of the unreserved ASCII
  characters, which stand for themselves. Decoding is lenient: a percent sign without two
  digits behind it stands for itself, so do characters that need not be encoded, and bytes
  that are not UTF-8 become U+FFFD. Keys may repeat; `Query.first` takes the first.
-/

namespace AgentBridge

/-- The parts of an address. A part that is not there is empty. -/
structure Url where
  scheme : List Char
  authority : List Char
  path : List Char
  query : List Char
  fragment : List Char
  deriving DecidableEq, Repr

namespace Url

/-- Whether a character is a control character or a blank. -/
def isControlOrBlank (c : Char) : Bool := c ≤ ' '

/-- Whether a character is left out wherever it stands. -/
def isBreak (c : Char) : Bool := c == '\t' || c == '\r' || c == '\n'

/-- An address without what is dropped from it. -/
def clean (cs : List Char) : List Char := (cs.dropWhile isControlOrBlank).filter (!isBreak ·)

def isSchemeChar (c : Char) : Bool := c.isAlphanum || c == '+' || c == '-' || c == '.'

def isScheme (cs : List Char) : Bool :=
  match cs with
  | c :: rest => c.isAlpha && rest.all isSchemeChar
  | [] => false

/-- The scheme, in small letters, and what stands behind its colon. -/
def cutScheme (cs : List Char) : List Char × List Char :=
  match cutAt? ':' cs with
  | some (scheme, rest) => if isScheme scheme then (Lowercase.lower scheme, rest) else ([], cs)
  | none => ([], cs)

/-- Whether an authority ends before a character. -/
def endsAuthority (c : Char) : Bool := c == '/' || c == '?' || c == '#'

/-- The authority, and what stands behind it. -/
def cutAuthority : List Char → List Char × List Char
  | '/' :: '/' :: rest => (rest.takeWhile (!endsAuthority ·), rest.dropWhile (!endsAuthority ·))
  | cs => ([], cs)

/-- The parts of an address, unless its authority is refused. -/
def split (cs : List Char) : Except AuthorityFault Url :=
  let (scheme, rest) := cutScheme (clean cs)
  let (authority, rest) := cutAuthority rest
  let (rest, fragment) := cutAt '#' rest
  let (path, query) := cutAt '?' rest
  match Authority.check authority with
  | .ok () => .ok ⟨scheme, authority, path, query, fragment⟩
  | .error f => .error f

def host (u : Url) : List Char := Authority.host u.authority

end Url

/-! ## Percent-encoding -/

namespace Percent

/-- Whether a character is written as it is: a letter, a digit, or one of `-`, `_`, `.`, `~`. -/
def isUnreserved (c : Char) : Bool :=
  c.isAlphanum || c == '-' || c == '_' || c == '.' || c == '~'

def encodeByte (b : UInt8) : List Char := '%' :: Hex.padded 2 b.toNat

/-- A character, encoded unless it is unreserved. -/
def encodeChar (c : Char) : List Char :=
  if isUnreserved c then [c] else (String.utf8EncodeChar c).flatMap encodeByte

def encode (cs : List Char) : List Char := cs.flatMap encodeChar

def byte? (a b : Char) : Option UInt8 := do
  let high ← Hex.value? a
  let low ← Hex.value? b
  return UInt8.ofNat (16 * high + low)

def bytes : List Char → List UInt8
  | '%' :: a :: b :: rest =>
    match byte? a b with
    | some x => x :: bytes rest
    | none => 0x25 :: bytes (a :: b :: rest)
  | c :: rest => String.utf8EncodeChar c ++ bytes rest
  | [] => []

def decode (cs : List Char) : List Char := Utf8.decodeLossy (bytes cs)

end Percent

/-! ## Queries -/

/-- The parameters of a query, in order. -/
abbrev Query := List (List Char × List Char)

namespace Query

/-- A plus sign stands for a blank. -/
def plusToBlank (c : Char) : Char := if c = '+' then ' ' else c

def decodePart (cs : List Char) : List Char := Percent.decode (cs.map plusToBlank)

/-- The parameter in a piece of a query, if there is one. -/
def parameter? (piece : List Char) : Option (List Char × List Char) :=
  match cutAt? '=' piece with
  | some (_, []) | none => none
  | some (key, value) => some (decodePart key, decodePart value)

def ofChars (cs : List Char) : Query := (pieces '&' cs).filterMap parameter?

/-- The value of the first parameter with a key, or nothing. -/
def first (q : Query) (key : List Char) : List Char :=
  ((q.find? (·.1 = key)).map (·.2)).getD []

end Query

end AgentBridge
