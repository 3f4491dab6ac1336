/-
  AgentBridge.Text.Blank — blank characters, trimming, and the ends of lines.

  A blank is a character with the Unicode property White_Space, or one of the four
  information separators U+001C to U+001F. `trim` drops blanks at both ends and keeps those
  inside: `trim_append_blanks` and `trim_blanks_append` say that blanks put around a string
  do not change what it trims to, `trim_trim` that trimming once is enough.

  Text files end their lines with a line feed, a carriage return, or both in this order. They
  are read with a line feed at the end of every line (`Newline.unify`).
-/

namespace AgentBridge

namespace Blank

/-- Whether a character has the Unicode property White_Space. -/
def isWhiteSpace (c : Char) : Bool :=
  let n := c.toNat
  (0x09 ≤ n && n ≤ 0x0D) || n == 0x20 || n == 0x85 || n == 0xA0 || n == 0x1680 ||
    (0x2000 ≤ n && n ≤ 0x200A) || n == 0x2028 || n == 0x2029 || n == 0x202F || n == 0x205F ||
    n == 0x3000

def isBlank (c : Char) : Bool := isWhiteSpace c || (0x1C ≤ c.toNat && c.toNat ≤ 0x1F)

/-- Drop what satisfies `p` at both ends. -/
def trimBy (p : Char → Bool) (cs : List Char) : List Char :=
  ((cs.dropWhile p).reverse.dropWhile p).reverse

def trim (cs : List Char) : List Char := trimBy isBlank cs

theorem dropWhile_append_of_all {p : Char → Bool} {w : List Char} (h : ∀ c ∈ w, p c = true)
    (cs : List Char) : (w ++ cs).dropWhile p = cs.dropWhile p := by
  induction w with
  | nil => rfl
  | cons c w ih =>
    simp only [List.cons_append, List.dropWhile_cons, h c (by simp), if_true]
    exact ih fun x hx => h x (by simp [hx])

/-- Blanks in front of a string do not change what it trims to. -/
theorem trim_blanks_append {w : List Char} (h : ∀ c ∈ w, isBlank c = true) (cs : List Char) :
    trim (w ++ cs) = trim cs := by
  simp [trim, trimBy, dropWhile_append_of_all h]

/-- Blanks behind a string do not change what it trims to. -/
theorem trim_append_blanks {w : List Char} (h : ∀ c ∈ w, isBlank c = true) (cs : List Char) :
    trim (cs ++ w) = trim cs := by
  have hw : w.dropWhile isBlank = [] := by simpa using dropWhile_append_of_all h []
  have hr : ∀ c ∈ w.reverse, isBlank c = true := fun c hc => h c (List.mem_reverse.mp hc)
  simp only [trim, trimBy, List.dropWhile_append, List.isEmpty_iff]
  split
  · next he => simp [he, hw]
  · rw [List.reverse_append, dropWhile_append_of_all hr]

/-- What is left after dropping starts with nothing to drop. -/
theorem dropWhile_dropWhile (p : Char → Bool) (cs : List Char) :
    (cs.dropWhile p).dropWhile p = cs.dropWhile p := by
  induction cs with
  | nil => rfl
  | cons c rest ih => by_cases hc : p c = true <;> simp [hc, ih]

/-- Where nothing is to drop from a string, nothing is from what it starts with. -/
theorem dropWhile_eq_self_of_append {p : Char → Bool} {a b : List Char}
    (h : (a ++ b).dropWhile p = a ++ b) : a.dropWhile p = a := by
  cases a with
  | nil => rfl
  | cons c rest =>
    by_cases hc : p c = true
    · have hl := congrArg List.length h
      simp only [List.cons_append, List.dropWhile_cons, hc, if_true, List.length_cons] at hl
      have := (List.dropWhile_sublist p (l := rest ++ b)).length_le
      omega
    · simp [hc]

theorem trim_trim (cs : List Char) : trim (trim cs) = trim cs := by
  have hfront : (trim cs).dropWhile isBlank = trim cs := by
    have hcut : cs.dropWhile isBlank =
        trim cs ++ ((cs.dropWhile isBlank).reverse.takeWhile isBlank).reverse := by
      rw [trim, trimBy, ← List.reverse_append, List.takeWhile_append_dropWhile,
        List.reverse_reverse]
    apply dropWhile_eq_self_of_append
    rw [← hcut]
    exact dropWhile_dropWhile isBlank cs
  have hback : (trim cs).reverse.dropWhile isBlank = (trim cs).reverse := by
    simp only [trim, trimBy, List.reverse_reverse]
    exact dropWhile_dropWhile isBlank _
  show trimBy isBlank (trim cs) = trim cs
  rw [trimBy, hfront, hback, List.reverse_reverse]

end Blank

/-! ## The ends of lines -/

namespace Newline

/-- Put a line feed at the end of every line. -/
def unify : List Char → List Char
  | '\r' :: '\n' :: rest => '\n' :: unify rest
  | '\r' :: rest => '\n' :: unify rest
  | c :: rest => c :: unify rest
  | [] => []

theorem not_mem_unify (cs : List Char) : '\r' ∉ unify cs := by
  fun_induction unify cs with
  | case1 rest ih => simp [ih]
  | case2 rest _ ih => simp [ih]
  | case3 c rest _ h ih =>
    have : c ≠ '\r' := fun e => h e
    simp [ih, Ne.symm this]
  | case4 => simp

end Newline

end AgentBridge
