import AgentBridge.Proofs.Spelling

/-
  AgentBridge.Proofs.Grammar — the standard texts among those that are written.

  The standard grammar of JSON texts is given as rules for symbols (`Derives`). It has words
  for null, true and false, and no word for a number that is not finite. What the writer
  writes of a value is a text of this grammar if all numbers in the value are finite
  (`derives_of_writeAt`, by recursion over the value as the writer goes through it).
-/

namespace AgentBridge

/-! ## Floating-point numbers -/

mutual

/-- The floating-point numbers in a value, in order. -/
def Value.floats {F : Type} : Value F → List Binary64
  | .float x => [x]
  | .array items => Value.floatsOfItems items
  | .object members => Value.floatsOfMembers members
  | _ => []

def Value.floatsOfItems {F : Type} : List (Value F) → List Binary64
  | [] => []
  | v :: rest => v.floats ++ Value.floatsOfItems rest

def Value.floatsOfMembers {F : Type} : List (Text × Value F) → List Binary64
  | [] => []
  | (_, v) :: rest => v.floats ++ Value.floatsOfMembers rest

end

/-- Every number in a value is finite. -/
def Value.Finite {F : Type} (v : Value F) : Prop := ∀ x ∈ v.floats, x.isFinite = true

instance {F : Type} (v : Value F) : Decidable v.Finite := List.decidableBAll _ _

namespace Json

open Digit (isDigit Whole)

/-! ## The grammar -/

/-- White space. -/
def Space (w : List Char) : Prop := ∀ c ∈ w, c ∈ [' ', '\t', '\n', '\r']

/-- A piece of a string: a character as it is, a letter behind a backslash, or four digits behind one. -/
inductive Piece : List Char → Prop
  | char {c : Char} : ' ' ≤ c → c ≠ '"' → c ≠ '\\' → Piece [c]
  | letter {c : Char} : c ∈ ['"', '\\', '/', 'b', 'f', 'n', 'r', 't'] → Piece ['\\', c]
  | unit {ds : List Char} : ds.length = 4 → (∀ d ∈ ds, (Hex.value? d).isSome = true) → Piece ('\\' :: 'u' :: ds)

inductive Pieces : List Char → Prop
  | nil : Pieces []
  | cons {p rest : List Char} : Piece p → Pieces rest → Pieces (p ++ rest)

/-- A string between its quotes. -/
inductive Quoted : List Char → Prop
  | intro {inner : List Char} : Pieces inner → Quoted ('"' :: inner ++ ['"'])

/-- A fraction, or nothing. -/
inductive Fraction : List Char → Prop
  | none : Fraction []
  | digits {ds : List Char} : ds ≠ [] → (∀ d ∈ ds, isDigit d = true) → Fraction ('.' :: ds)

/-- An exponent, or nothing. -/
inductive Exponent : List Char → Prop
  | none : Exponent []
  | digits {e : Char} {sign ds : List Char} : e ∈ ['e', 'E'] → sign ∈ [[], ['+'], ['-']] → ds ≠ [] →
    (∀ d ∈ ds, isDigit d = true) → Exponent (e :: sign ++ ds)

inductive Numeral : List Char → Prop
  | intro {sign whole fraction exponent : List Char} : sign ∈ [[], ['-']] → Whole whole → Fraction fraction →
    Exponent exponent → Numeral (sign ++ whole ++ fraction ++ exponent)

/-- The words that are values. -/
def plainWords : List (List Char) := ["null".toList, "true".toList, "false".toList]

inductive Symbol where
  | value
  /-- A value with white space around it. -/
  | element
  | elements
  /-- A key with its value, and white space around both. -/
  | member
  | members

/-- The texts of each symbol. -/
inductive Derives : Symbol → List Char → Prop
  | word {t : List Char} : t ∈ plainWords → Derives .value t
  | numeral {t : List Char} : Numeral t → Derives .value t
  | quoted {t : List Char} : Quoted t → Derives .value t
  | noElements {w : List Char} : Space w → Derives .value ('[' :: w ++ [']'])
  | array {t : List Char} : Derives .elements t → Derives .value ('[' :: t ++ [']'])
  | noMembers {w : List Char} : Space w → Derives .value ('\x7b' :: w ++ ['\x7d'])
  | object {t : List Char} : Derives .members t → Derives .value ('\x7b' :: t ++ ['\x7d'])
  | element {w t w' : List Char} : Space w → Derives .value t → Space w' → Derives .element (w ++ t ++ w')
  | lastElement {t : List Char} : Derives .element t → Derives .elements t
  | moreElements {t ts : List Char} : Derives .element t → Derives .elements ts → Derives .elements (t ++ ',' :: ts)
  | member {w k w' t : List Char} : Space w → Quoted k → Space w' → Derives .element t →
    Derives .member (w ++ k ++ w' ++ ':' :: t)
  | lastMember {t : List Char} : Derives .member t → Derives .members t
  | moreMembers {t ts : List Char} : Derives .member t → Derives .members ts → Derives .members (t ++ ',' :: ts)

/-- A text of the standard grammar. -/
def Standard (cs : List Char) : Prop := Derives .element cs

/-! ## White space -/

theorem space_nil : Space [] := List.forall_mem_nil _

theorem space_blank : Space [' '] := List.forall_mem_singleton.mpr (by decide)

theorem space_append {a b : List Char} (ha : Space a) (hb : Space b) : Space (a ++ b) :=
  List.forall_mem_append.mpr ⟨ha, hb⟩

theorem space_of_isSpace {w : List Char} (h : ∀ c ∈ w, isSpace c = true) : Space w := by
  intro c hc
  have hspace := h c hc
  simp only [isSpace, Bool.or_eq_true, beq_iff_eq] at hspace
  simpa [or_assoc] using hspace

theorem space_newline (l : Layout) (level : Nat) : Space (l.newline level) := space_of_isSpace isSpace_of_newline

theorem Derives.standard {t : List Char} (h : Derives .value t) : Standard t := by
  have := Derives.element space_nil h space_nil
  rwa [List.nil_append, List.append_nil] at this

/-- White space may follow an element. -/
theorem Derives.element_append {t w : List Char} (h : Derives .element t) (hw : Space w) :
    Derives .element (t ++ w) := by
  rcases h with _ | _ | _ | _ | _ | _ | _ | ⟨hbefore, hv, hbehind⟩
  rw [List.append_assoc]
  exact .element hbefore hv (space_append hbehind hw)

theorem Derives.member_append {t w : List Char} (h : Derives .member t) (hw : Space w) :
    Derives .member (t ++ w) := by
  rcases h with _ | _ | _ | _ | _ | _ | _ | _ | _ | _ | ⟨hbefore, hk, hbehind, he⟩
  rw [List.append_assoc, List.cons_append]
  exact .member hbefore hk hbehind (he.element_append hw)

/-! ## Strings -/

theorem pieces_append {a b : List Char} (ha : Pieces a) (hb : Pieces b) : Pieces (a ++ b) := by
  induction ha with
  | nil => exact hb
  | cons hp _ ih =>
    rw [List.append_assoc]
    exact .cons hp ih

theorem pieces_of_piece {p : List Char} (h : Piece p) : Pieces p := by
  have := Pieces.cons h .nil
  rwa [List.append_nil] at this

theorem pieces_flatMap {α : Type} {f : α → List Char} (xs : List α) (h : ∀ x, Pieces (f x)) :
    Pieces (xs.flatMap f) := by
  induction xs with
  | nil => exact .nil
  | cons x xs ih =>
    rw [List.flatMap_cons]
    exact pieces_append (h x) ih

theorem piece_escapeUnit (n : Nat) : Piece (escapeUnit n) := by
  refine .unit (Hex.length_padded 4 n) fun d hd => ?_
  have hdigit : ∀ k, (Hex.value? (Hex.digit (k % 16))).isSome = true := by
    intro k
    rw [Hex.value?_digit _ (Nat.mod_lt _ (by decide))]
    rfl
  simp only [Hex.padded, List.nil_append, List.cons_append, List.mem_cons, List.not_mem_nil, or_false] at hd
  rcases hd with rfl | rfl | rfl | rfl
  all_goals exact hdigit _

theorem mem_of_unescape {x c : Char} (h : unescape? x = some c) : x ∈ ['"', '\\', '/', 'b', 'f', 'n', 'r', 't'] := by
  unfold unescape? at h
  split at h
  all_goals cases h
  all_goals decide

theorem pieces_escape (p : CodePoint) : Pieces (escape p) := by
  rcases escape_cases p with h | ⟨x, c, -, h, hx, -⟩ | ⟨c, -, h, hquote, hbackslash, hspace, -⟩
  · rw [h]
    exact pieces_flatMap _ fun n => pieces_of_piece (piece_escapeUnit n)
  · rw [h]
    exact pieces_of_piece (.letter (mem_of_unescape hx))
  · rw [h]
    exact pieces_of_piece (.char hspace hquote hbackslash)

theorem quoted_writeText (t : Text) : Quoted (writeText t) := .intro (pieces_flatMap t pieces_escape)

/-! ## Numbers -/

theorem numeral_signed {whole fraction exponent : List Char} (negative : Bool) (hw : Whole whole)
    (hf : Fraction fraction) (he : Exponent exponent) :
    Numeral (if negative then '-' :: (whole ++ (fraction ++ exponent)) else whole ++ (fraction ++ exponent)) := by
  cases negative with
  | true =>
    have hsign : ['-'] ∈ [[], ['-']] := by decide
    have := Numeral.intro hsign hw hf he
    rwa [List.append_assoc, List.append_assoc] at this
  | false =>
    have hsign : [] ∈ [[], ['-']] := by decide
    have := Numeral.intro hsign hw hf he
    rwa [List.append_assoc, List.nil_append] at this

theorem numeral_integerText (n : Int) : Numeral (integerText n) := by
  have := numeral_signed (decide (n < 0)) (Digit.whole_toDigits n.natAbs) .none .none
  simpa [integerText] using this

theorem fraction_pointText {fraction : List Char} (h : ∀ d ∈ fraction, isDigit d = true) :
    Fraction (pointText fraction) := by
  unfold pointText
  split
  · exact .none
  · rename_i hne
    exact .digits hne h

theorem exponent_exponentText (e : Int) : Exponent (Binary64.exponentText e) := by
  obtain ⟨ds, htext, hdigits, hne, -⟩ := exists_exponentText e
  have hsign : [if e < 0 then '-' else '+'] ∈ [[], ['+'], ['-']] := by split <;> decide
  rw [htext]
  exact .digits (by decide) hsign hne hdigits

theorem exponent_powerText (power : Option Int) : Exponent (powerText power) := by
  cases power with
  | none => exact .none
  | some e => exact exponent_exponentText e

theorem numeral_text {x : Binary64} (h : x.isFinite = true) : Numeral (x.text "NaN" "Infinity") := by
  cases x with
  | nan => cases h
  | infinite negative => cases h
  | finite negative e f =>
    obtain ⟨l, htext, -⟩ := Binary64.finiteText_eq negative e f
    rw [Binary64.text, htext]
    exact numeral_signed negative l.isWhole (fraction_pointText l.isFraction) (exponent_powerText l.power)

/-! ## Values -/

section

variable {F : Type} {s : Style F}

mutual

/-- What is written of a value is a value of the grammar if all its numbers are finite. -/
theorem derives_of_writeAt {level : Nat} {t : List Char} :
    (v : Value F) → v.Finite → writeAt s level v = .ok t → Derives .value t
  | .null | .bool true | .bool false => by
    intro _ h
    cases h
    exact .word (by decide)
  | .int n => by
    intro _ h
    rw [writeAt] at h
    rw [writeInteger_ok h]
    exact .numeral (numeral_integerText n)
  | .float x => by
    intro hf h
    rw [writeAt] at h
    rw [writeFloat_ok h]
    exact .numeral (numeral_text (hf x List.mem_cons_self))
  | .str t => by
    intro _ h
    cases h
    exact .quoted (quoted_writeText t)
  | .array [] => by
    intro _ h
    cases h
    exact .noElements space_nil
  | .array (v :: rest) => by
    intro hf h
    obtain ⟨first, hfirst, h⟩ := bind_eq_ok.mp h
    obtain ⟨others, hothers, h⟩ := bind_eq_ok.mp h
    cases h
    obtain ⟨hv, hrest⟩ := List.forall_mem_append.mp hf
    have helement := Derives.element (space_newline s.layout (level + 1)) (derives_of_writeAt v hv hfirst) space_nil
    rw [List.append_nil] at helement
    have helements := elements_of_writeItems rest hrest hothers helement (space_newline s.layout level)
    simpa using Derives.array helements
  | .object [] => by
    intro _ h
    cases h
    exact .noMembers space_nil
  | .object ((k, v) :: rest) => by
    intro hf h
    obtain ⟨first, hfirst, h⟩ := bind_eq_ok.mp h
    obtain ⟨others, hothers, h⟩ := bind_eq_ok.mp h
    cases h
    obtain ⟨hv, hrest⟩ := List.forall_mem_append.mp hf
    have helement := Derives.element space_blank (derives_of_writeAt v hv hfirst) space_nil
    have hmember := Derives.member (space_newline s.layout (level + 1)) (quoted_writeText k) space_nil helement
    have hmembers := members_of_writeMembers rest hrest hothers hmember (space_newline s.layout level)
    simpa using Derives.object hmembers
  | .foreign x => by
    intro _ h
    cases h

-- The writer puts a comma in front of every item but the first, the grammar behind every element but the last.
-- So what was written up to an item is carried along as an element that is still open at its end.

/-- An element, some items behind it, and white space are elements. -/
theorem elements_of_writeItems {level : Nat} {t : List Char} :
    (items : List (Value F)) → (∀ x ∈ Value.floatsOfItems items, x.isFinite = true) →
      writeItems s level items = .ok t →
      ∀ {before w : List Char}, Derives .element before → Space w → Derives .elements (before ++ t ++ w)
  | [] => by
    intro _ h before w hbefore hw
    cases h
    rw [List.append_nil]
    exact .lastElement (hbefore.element_append hw)
  | v :: rest => by
    intro hf h before w hbefore hw
    obtain ⟨first, hfirst, h⟩ := bind_eq_ok.mp h
    obtain ⟨others, hothers, h⟩ := bind_eq_ok.mp h
    cases h
    obtain ⟨hv, hrest⟩ := List.forall_mem_append.mp hf
    obtain ⟨w', hcomma, hw'⟩ := comma_eq s.layout level
    have helement := Derives.element (space_of_isSpace hw') (derives_of_writeAt v hv hfirst) space_nil
    rw [List.append_nil] at helement
    have helements := elements_of_writeItems rest hrest hothers helement hw
    rw [hcomma]
    simpa using Derives.moreElements hbefore helements

/-- A member, some members behind it, and white space are members. -/
theorem members_of_writeMembers {level : Nat} {t : List Char} :
    (members : List (Text × Value F)) → (∀ x ∈ Value.floatsOfMembers members, x.isFinite = true) →
      writeMembers s level members = .ok t →
      ∀ {before w : List Char}, Derives .member before → Space w → Derives .members (before ++ t ++ w)
  | [] => by
    intro _ h before w hbefore hw
    cases h
    rw [List.append_nil]
    exact .lastMember (hbefore.member_append hw)
  | (k, v) :: rest => by
    intro hf h before w hbefore hw
    obtain ⟨first, hfirst, h⟩ := bind_eq_ok.mp h
    obtain ⟨others, hothers, h⟩ := bind_eq_ok.mp h
    cases h
    obtain ⟨hv, hrest⟩ := List.forall_mem_append.mp hf
    obtain ⟨w', hcomma, hw'⟩ := comma_eq s.layout level
    have helement := Derives.element space_blank (derives_of_writeAt v hv hfirst) space_nil
    have hmember := Derives.member (space_of_isSpace hw') (quoted_writeText k) space_nil helement
    have hmembers := members_of_writeMembers rest hrest hothers hmember hw
    rw [hcomma]
    simpa using Derives.moreMembers hbefore hmembers

end

end

end Json

end AgentBridge
