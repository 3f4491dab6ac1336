import AgentBridge.Json.Lexeme

/-
  AgentBridge.Json.Reader — JSON text as a value.

  The reader takes one lexeme at a time. Its state says what may come next and keeps, as a
  list of frames, the brackets that are open with what has been read inside each. The
  number of open brackets is bounded by `nestingLimit`; a text that needs more is refused,
  as is a whole number with too many digits. Neither is a fault of the text, so both are
  kept apart from the faults, which have a place in it.
-/

namespace AgentBridge.Json

/-- The most brackets that may be open at once. -/
def nestingLimit : Nat := 1000

/-- An open bracket around the value that is being read. -/
inductive Frame where
  /-- An array, with its items so far, the last one first. -/
  | array (items : List Json)
  /-- An object, with its members so far and the key of the value. -/
  | member (members : List (Text × Json)) (key : Text)

/-- Where the reader stands. -/
inductive State where
  /-- A value has to come. -/
  | value (around : List Frame)
  /-- An array was opened: a value or the closing bracket. -/
  | arrayStart (around : List Frame)
  /-- An item was read: a comma or the closing bracket. -/
  | arrayNext (items : List Json) (around : List Frame)
  /-- An object was opened: a key or the closing bracket. -/
  | objectStart (around : List Frame)
  /-- A comma was read in an object: a key. -/
  | objectKey (members : List (Text × Json)) (around : List Frame)
  /-- A key was read: a colon. -/
  | objectColon (members : List (Text × Json)) (key : Text) (around : List Frame)
  /-- A member was read: a comma or the closing bracket. -/
  | objectNext (members : List (Text × Json)) (around : List Frame)
  /-- The whole value was read. -/
  | done (v : Json)

/-- A place in a text: the characters before it, its line, and its column. -/
structure Position where
  offset : Nat
  line : Nat
  column : Nat
  deriving DecidableEq, Repr

inductive ReadError where
  | malformed (fault : Fault) (place : Position)
  | limit (l : Limit)
  deriving DecidableEq, Repr

/-- Why reading stopped, with places as offsets. -/
inductive Stop where
  | malformed (m : Misreading)
  | limit (l : Limit)
  deriving DecidableEq, Repr

def Stop.fault (f : Fault) (offset : Nat) : Stop := .malformed ⟨f, offset⟩

/-- The state after a value, by the bracket around it. -/
def State.afterValue (v : Json) : List Frame → State
  | [] => .done v
  | .array items :: outer => .arrayNext (v :: items) outer
  | .member members key :: outer => .objectNext (Members.set key v members) outer

/-- Take the first lexeme of a value that stands in the brackets `around`. -/
def State.begin (around : List Frame) (l : Lexeme) : Except Stop State :=
  match l.token with
  | .scalar (.ok v) => .ok (.afterValue v around)
  | .scalar (.error e) => .error (.limit e)
  | .text (.ok t) => .ok (.afterValue (.str t) around)
  | .text (.error e) => .error (.malformed e)
  | .opening .array =>
    if around.length < nestingLimit then .ok (.arrayStart around)
    else .error (.limit (.nesting .array))
  | .opening .object =>
    if around.length < nestingLimit then .ok (.objectStart around)
    else .error (.limit (.nesting .object))
  | _ => .error (.fault .expectingValue l.start)

def State.key (members : List (Text × Json)) (around : List Frame) (l : Lexeme) :
    Except Stop State :=
  match l.token with
  | .text (.ok t) => .ok (.objectColon members t around)
  | .text (.error e) => .error (.malformed e)
  | _ => .error (.fault .expectingKey l.start)

def State.take (s : State) (l : Lexeme) : Except Stop State :=
  match s with
  | .value around => State.begin around l
  | .arrayStart around =>
    match l.token with
    | .closing .array => .ok (.afterValue (.array []) around)
    | _ => State.begin (.array [] :: around) l
  | .arrayNext items around =>
    match l.token with
    | .comma => .ok (.value (.array items :: around))
    | .closing .array => .ok (.afterValue (.array items.reverse) around)
    | _ => .error (.fault .expectingComma l.start)
  | .objectStart around =>
    match l.token with
    | .closing .object => .ok (.afterValue (.object []) around)
    | _ => State.key [] around l
  | .objectKey members around => State.key members around l
  | .objectColon members key around =>
    match l.token with
    | .colon => .ok (.value (.member members key :: around))
    | _ => .error (.fault .expectingColon l.start)
  | .objectNext members around =>
    match l.token with
    | .comma => .ok (.objectKey members around)
    | .closing .object => .ok (.afterValue (.object members) around)
    | _ => .error (.fault .expectingComma l.start)
  | .done _ => .error (.fault .extraData l.start)

/-- What the reader has at the end of a text of `size` characters. -/
def State.finish (size : Nat) : State → Except Stop Json
  | .done v => .ok v
  | .value _ | .arrayStart _ => .error (.fault .expectingValue size)
  | .arrayNext .. | .objectNext .. => .error (.fault .expectingComma size)
  | .objectStart _ | .objectKey .. => .error (.fault .expectingKey size)
  | .objectColon .. => .error (.fault .expectingColon size)

def State.run (size : Nat) : State → List Lexeme → Except Stop Json
  | s, [] => s.finish size
  | s, l :: rest => do State.run size (← s.take l) rest

/-- The value of a text, with places as offsets. -/
def scan (cs : List Char) : Except Stop Json :=
  if cs.head? = some '\uFEFF' then .error (.fault .byteOrderMark 0)
  else State.run cs.length (.value []) (lexemes cs)

/-- The place of an offset in a text. Lines end with a line feed and count from one, as
columns do. -/
def position (cs : List Char) (offset : Nat) : Position :=
  let before := cs.take offset
  ⟨offset, before.count '\n' + 1, (before.reverse.takeWhile (· != '\n')).length + 1⟩

def read (cs : List Char) : Except ReadError Json :=
  match scan cs with
  | .ok v => .ok v
  | .error (.malformed m) => .error (.malformed m.fault (position cs m.offset))
  | .error (.limit l) => .error (.limit l)

/-! ## Messages -/

def Fault.message : Fault → String
  | .expectingValue => "Expecting value"
  | .expectingKey => "Expecting property name enclosed in double quotes"
  | .expectingColon => "Expecting ':' delimiter"
  | .expectingComma => "Expecting ',' delimiter"
  | .extraData => "Extra data"
  | .unterminatedString => "Unterminated string starting at"
  | .controlCharacter => "Invalid control character at"
  | .badEscape => "Invalid \\escape"
  | .badUnicodeEscape => "Invalid \\uXXXX escape"
  | .byteOrderMark => "Unexpected UTF-8 BOM (decode using utf-8-sig)"

/-- A fault with its place: line, column, and characters before it. -/
def faultMessage (f : Fault) (p : Position) : String :=
  f.message ++ ": line " ++ toString p.line ++ " column " ++ toString p.column ++
    " (char " ++ toString p.offset ++ ")"

def Limit.message : Limit → String
  | .digits count =>
    "Exceeds the limit (4300 digits) for integer string conversion: value has " ++
      toString count ++ " digits; use sys.set_int_max_str_digits() to increase the limit"
  | .nesting .array =>
    "maximum recursion depth exceeded while decoding a JSON array from a unicode string"
  | .nesting .object =>
    "maximum recursion depth exceeded while decoding a JSON object from a unicode string"

end AgentBridge.Json
