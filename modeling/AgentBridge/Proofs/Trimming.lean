import AgentBridge.Json.Lexeme
import AgentBridge.Text.Blank
import Mathlib.Data.List.DropRight
import Mathlib.Data.List.TakeWhile

/-
  AgentBridge.Proofs.Trimming — what trimming leaves.

  A text that neither begins nor ends with a blank is left as it is (`trim_eq_self`), and no
  trimmed text begins or ends with one (`head_trim`, `getLast_trim`). What is appended to a
  text is appended to what the text trims to (`trim_append`).
-/

namespace AgentBridge.Blank

/-- The white space of JSON is blank. -/
theorem isBlank_of_isSpace {c : Char} (h : Json.isSpace c = true) : isBlank c = true := by
  simp only [Json.isSpace, Bool.or_eq_true, beq_iff_eq] at h
  rcases h with ((rfl | rfl) | rfl) | rfl <;> decide

theorem dropWhile_eq_self {p : Char → Bool} {cs : List Char} (h : ∀ c ∈ cs.head?, p c = false) :
    cs.dropWhile p = cs := by
  cases cs with
  | nil => rfl
  | cons c rest => simp [h c rfl]

/-- Where there is no blank at either end, there is nothing to trim. -/
theorem trim_eq_self {cs : List Char} (hfront : ∀ c ∈ cs.head?, isBlank c = false)
    (hback : ∀ c ∈ cs.getLast?, isBlank c = false) : trim cs = cs := by
  rw [trim, trimBy, dropWhile_eq_self hfront, dropWhile_eq_self (by simpa using hback), List.reverse_reverse]

/-- From its first character on that is not blank, a text is what it trims to and then blanks. -/
theorem exists_dropWhile_eq (cs : List Char) : ∃ blanks, cs.dropWhile isBlank = trim cs ++ blanks := by
  refine ⟨((cs.dropWhile isBlank).reverse.takeWhile isBlank).reverse, ?_⟩
  rw [trim, trimBy, ← List.reverse_append, List.takeWhile_append_dropWhile, List.reverse_reverse]

/-- A trimmed text does not begin with a blank. -/
theorem head_trim {cs : List Char} {c : Char} (h : c ∈ (trim cs).head?) : isBlank c = false := by
  obtain ⟨blanks, hcut⟩ := exists_dropWhile_eq cs
  have hfront := List.head?_dropWhile_not isBlank cs
  rw [hcut, List.head?_append, h] at hfront
  simpa using hfront

/-- A trimmed text does not end with a blank. -/
theorem getLast_trim {cs : List Char} {c : Char} (h : c ∈ (trim cs).getLast?) : isBlank c = false := by
  have hback := List.head?_dropWhile_not isBlank (cs.dropWhile isBlank).reverse
  rw [trim, trimBy, List.getLast?_reverse] at h
  rw [h] at hback
  simpa using hback

theorem trim_enclosed {a b : Char} (ha : isBlank a = false) (hb : isBlank b = false) (inner : List Char) :
    trim (a :: inner ++ [b]) = a :: inner ++ [b] := by
  refine trim_eq_self (fun c hc => ?_) fun c hc => ?_
  · obtain rfl := Option.some.inj hc
    exact ha
  · rw [List.getLast?_concat] at hc
    obtain rfl := Option.some.inj hc
    exact hb

/-- A text with something in it does not trim to nothing. -/
theorem trim_ne_nil {cs : List Char} (h : ∃ c ∈ cs, isBlank c = false) : trim cs ≠ [] := by
  intro htrim
  have hfront : cs.dropWhile isBlank ≠ [] := by
    rw [ne_eq, List.dropWhile_eq_nil_iff]
    simpa using h
  obtain ⟨d, tail, hd⟩ := List.exists_cons_of_ne_nil hfront
  have hblank : isBlank d = true := by
    rw [trim, trimBy, List.reverse_eq_nil_iff, List.dropWhile_eq_nil_iff] at htrim
    exact htrim d (by simp [hd])
  have := List.head?_dropWhile_not isBlank cs
  simp [hd, hblank] at this

theorem dropWhile_ne_nil_of_trim {cs : List Char} (h : trim cs ≠ []) : cs.dropWhile isBlank ≠ [] := by
  intro hd
  exact h (by simp [trim, trimBy, hd])

/-- What is appended to a text with something in it is appended to what the text trims to, as far as the
last character that is not blank. -/
theorem trim_append {a b : List Char} (ha : trim a ≠ []) (hb : ∃ c ∈ b, isBlank c = false) :
    ∃ u, trim (a ++ b) = trim a ++ u ∧ ∃ c ∈ u, isBlank c = false := by
  have hrev : b.reverse.dropWhile isBlank ≠ [] := by
    rw [ne_eq, List.dropWhile_eq_nil_iff]
    simpa using hb
  have hfront : trim (a ++ b) = a.dropWhile isBlank ++ (b.reverse.dropWhile isBlank).reverse := by
    rw [trim, trimBy, List.dropWhile_append, if_neg (by simpa using dropWhile_ne_nil_of_trim ha), List.reverse_append,
      List.dropWhile_append, if_neg (by simpa using hrev), List.reverse_append, List.reverse_reverse]
  obtain ⟨blanks, hcut⟩ := exists_dropWhile_eq a
  refine ⟨_, by rw [hfront, hcut, List.append_assoc], ?_⟩
  obtain ⟨d, tail, hd⟩ := List.exists_cons_of_ne_nil hrev
  refine ⟨d, by simp [hd], ?_⟩
  have := List.head?_dropWhile_not isBlank b.reverse
  simpa [hd] using this

/-- Printed ASCII characters are not blank. -/
theorem isBlank_of_printed {c : Char} (hlow : 0x21 ≤ c.toNat) (hhigh : c.toNat < 0x80) : isBlank c = false := by
  simp only [isBlank, isWhiteSpace, Bool.or_eq_false_iff, Bool.and_eq_false_iff, decide_eq_false_iff_not,
    beq_eq_false_iff_ne]
  omega

/-- Behind a text with no blank at either end, only the blanks at the end are trimmed. -/
theorem trim_append_of_ends {a b : List Char} (hne : a ≠ []) (hfront : ∀ c ∈ a.head?, isBlank c = false)
    (hback : ∀ c ∈ a.getLast?, isBlank c = false) : trim (a ++ b) = a ++ b.rdropWhile isBlank := by
  have hdrop : (a ++ b).dropWhile isBlank = a ++ b := by
    apply dropWhile_eq_self
    intro c hc
    obtain ⟨d, rest, rfl⟩ := List.exists_cons_of_ne_nil hne
    exact hfront c hc
  have hrev : a.reverse.dropWhile isBlank = a.reverse := dropWhile_eq_self (by simpa using hback)
  rw [trim, trimBy, hdrop, List.reverse_append, List.dropWhile_append, List.rdropWhile]
  by_cases hb : b.reverse.dropWhile isBlank = []
  · simp [hb, hrev]
  · simp [hb]

end AgentBridge.Blank
