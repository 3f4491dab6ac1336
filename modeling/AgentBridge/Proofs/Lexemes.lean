import AgentBridge.Json.Lexeme
import AgentBridge.Proofs.Outcome
import Mathlib.Data.List.Find

/-
  AgentBridge.Proofs.Lexemes — where a lexeme ends.

  A string ends at its quote, whatever follows (`scanText_append`). A word or number ends at
  the first delimiter at the latest: what stands behind a delimiter does not change it
  (`scanScalar_append_ends`). Brackets, commas and colons are lexemes by themselves. So a text
  can be cut behind any of these marks, and what is appended to it changes no lexeme up to the
  mark (`lexemesFrom_cut`).
-/

namespace AgentBridge.Json

/-! ## Strings -/

theorem scanText_unicode {start pos n : Nat} {a b c d : Char} {rest : List Char} (h : Hex.four? a b c d = some n)
    (hr : rest ≠ []) : scanText start pos ('\\' :: 'u' :: a :: b :: c :: d :: rest) =
      (scanText start (pos + 6) rest).map (prepend (CodePoint.ofUnit n) 6) := by
  obtain ⟨e, rest, rfl⟩ := List.exists_cons_of_ne_nil hr
  rw [scanText, h]

theorem scanText_escape {start pos : Nat} {c x : Char} {rest : List Char} (h : unescape? c = some x) :
    scanText start pos ('\\' :: c :: rest) = (scanText start (pos + 2) rest).map (prepend (.char x) 2) := by
  have hu : c ≠ 'u' := by rintro rfl; cases h
  rw [scanText, h]
  · exact fun _ _ _ _ _ _ hc _ => hu hc
  · exact hu

theorem scanText_plain {start pos : Nat} {c : Char} {rest : List Char} (hq : c ≠ '"') (hb : c ≠ '\\')
    (hc : ¬ c < ' ') :
    scanText start pos (c :: rest) = (scanText start (pos + 1) rest).map (prepend (.char c) 1) := by
  rw [scanText, if_neg hc]
  all_goals grind

theorem scanText_append {start pos : Nat} {cs : List Char} {t : Text} {n : Nat} (u : List Char)
    (h : scanText start pos cs = .ok (t, n)) : scanText start pos (cs ++ u) = .ok (t, n) ∧ n ≤ cs.length := by
  fun_induction scanText start pos cs generalizing t n with
  | case2 pos rest =>
    obtain ⟨rfl, rfl⟩ := Prod.mk.inj (Except.ok.inj h)
    exact ⟨by rw [List.cons_append, scanText], by simp⟩
  | case4 pos a b c d e rest k hk ih =>
    obtain ⟨⟨t, n⟩, hr, hp⟩ := map_eq_ok.mp h
    obtain ⟨rfl, rfl⟩ := Prod.mk.inj hp
    obtain ⟨hu, hn⟩ := ih hr
    refine ⟨?_, by simp only [List.length_cons] at hn ⊢; omega⟩
    simp only [List.cons_append] at hu ⊢
    rw [scanText_unicode hk (by simp), hu]
    rfl
  | case7 pos c rest _ _ x hx ih =>
    obtain ⟨⟨t, n⟩, hr, hp⟩ := map_eq_ok.mp h
    obtain ⟨rfl, rfl⟩ := Prod.mk.inj hp
    obtain ⟨hu, hn⟩ := ih hr
    refine ⟨?_, by simp only [List.length_cons] at hn ⊢; omega⟩
    simp only [List.cons_append] at hu ⊢
    rw [scanText_escape hx, hu]
    rfl
  | case10 pos c rest hq _ _ _ hb hc ih =>
    obtain ⟨⟨t, n⟩, hr, hp⟩ := map_eq_ok.mp h
    obtain ⟨rfl, rfl⟩ := Prod.mk.inj hp
    obtain ⟨hu, hn⟩ := ih hr
    refine ⟨?_, by simp only [List.length_cons] at hn ⊢; omega⟩
    rw [List.cons_append, scanText_plain hq (by rintro rfl; cases rest <;> simp_all) hc, hu]
    rfl
  | _ => cases h

/-! ## Literals and numbers -/

/-- Whether a character ends a word or number that stands in front of it. -/
def isDelimiter (c : Char) : Bool := isSpace c || (punctuation? c).isSome || c == '"'

/-- Whether nothing behind a word or number can belong to it: there is nothing, or a delimiter. -/
def Ends (r : List Char) : Prop := ∀ c ∈ r.head?, isDelimiter c = true

theorem mem_of_isDelimiter {c : Char} (h : isDelimiter c = true) :
    c ∈ [' ', '\t', '\n', '\r', '[', ']', '\x7b', '\x7d', ',', ':', '"'] := by
  unfold isDelimiter isSpace punctuation? at h
  split at h <;> simp_all
  grind

/-- A delimiter is no part of a word or number. -/
theorem not_scalar_of_isDelimiter {c : Char} (h : isDelimiter c = true) :
    Digit.isDigit c = false ∧ c ∉ ['-', '+', '.', 'e', 'E'] ∧ ∀ w ∈ words, c ∉ w.1 := by
  have hall : ([' ', '\t', '\n', '\r', '[', ']', '\x7b', '\x7d', ',', ':', '"'].all fun c => decide
      (Digit.isDigit c = false ∧ c ∉ ['-', '+', '.', 'e', 'E'] ∧ ∀ w ∈ words.map (·.1), c ∉ w)) = true := by decide
  obtain ⟨h1, h2, h3⟩ := of_decide_eq_true (List.all_eq_true.mp hall c (mem_of_isDelimiter h))
  exact ⟨h1, h2, fun w hw => h3 w.1 (List.mem_map_of_mem hw)⟩

theorem takeWhile_append_ends {p : Char → Bool} (hp : ∀ c, isDelimiter c = true → p c = false) (t : List Char)
    {r : List Char} (hr : Ends r) : (t ++ r).takeWhile p = t.takeWhile p := by
  induction t with
  | nil =>
    cases r with
    | nil => rfl
    | cons d r => simp [hp d (hr d rfl)]
  | cons c t ih => by_cases hc : p c = true <;> simp [hc, ih]

theorem digits_append_ends (t : List Char) {r : List Char} (hr : Ends r) :
    (t ++ r).takeWhile Digit.isDigit = t.takeWhile Digit.isDigit :=
  takeWhile_append_ends (fun _ h => (not_scalar_of_isDelimiter h).1) t hr

theorem isPrefixOf_append_ends {w : List Char} (hw : ∀ c, isDelimiter c = true → c ∉ w) (t : List Char)
    {r : List Char} (hr : Ends r) : w.isPrefixOf (t ++ r) = w.isPrefixOf t := by
  induction w generalizing t with
  | nil => simp
  | cons x w ih =>
    cases t with
    | nil =>
      cases r with
      | nil => rfl
      | cons d r =>
        have : x ≠ d := by rintro rfl; exact hw x (hr x rfl) (by simp)
        simp [List.isPrefixOf, this]
    | cons c t => simp only [List.cons_append, List.isPrefixOf, ih (fun c hc hm => hw c hc (by simp [hm])) t]

theorem wholeDigits_append_ends (t : List Char) {r : List Char} (hr : Ends r) :
    wholeDigits (t ++ r) = wholeDigits t := by
  cases t with
  | nil =>
    cases r with
    | nil => rfl
    | cons d r =>
      have hd := not_scalar_of_isDelimiter (hr d rfl)
      have h0 : d ≠ '0' := by rintro rfl; exact absurd hd.1 (by decide)
      simp [wholeDigits, hd.1, h0]
  | cons c t =>
    by_cases h0 : c = '0'
    · subst h0; rfl
    · have := digits_append_ends (c :: t) hr
      rw [List.cons_append] at this ⊢
      rw [wholeDigits, wholeDigits, this] <;> (intro t' ht; exact h0 (List.cons.inj ht).1)

theorem fractionDigits_append_ends (t : List Char) {r : List Char} (hr : Ends r) :
    fractionDigits (t ++ r) = fractionDigits t := by
  cases t with
  | nil =>
    cases r with
    | nil => rfl
    | cons d r =>
      have hd := (not_scalar_of_isDelimiter (hr d rfl)).2.1
      rw [List.nil_append, fractionDigits, fractionDigits]
      · simp
      · rintro cs hcs; cases hcs; simp at hd
  | cons c t =>
    by_cases hc : c = '.'
    · subst hc; exact digits_append_ends t hr
    · rw [List.cons_append, fractionDigits, fractionDigits] <;> (intro t' ht; exact hc (List.cons.inj ht).1)

theorem exponentSign_append_ends (t : List Char) {r : List Char} (hr : Ends r) :
    exponentSign (t ++ r) = exponentSign t := by
  cases t with
  | nil =>
    cases r with
    | nil => rfl
    | cons d r =>
      have hd := (not_scalar_of_isDelimiter (hr d rfl)).2.1
      have hm : d ≠ '-' := by rintro rfl; simp at hd
      have hp : d ≠ '+' := by rintro rfl; simp at hd
      simp [exponentSign, hm, hp]
  | cons c t =>
    by_cases hm : c = '-'
    · subst hm; rfl
    by_cases hp : c = '+'
    · subst hp; rfl
    rw [List.cons_append, exponentSign, exponentSign]
    all_goals intro t' ht; simp_all

theorem length_exponentSign (t : List Char) : (exponentSign t).length ≤ t.length := by
  unfold exponentSign
  split <;> simp

theorem exponentPart?_append_ends (t : List Char) {r : List Char} (hr : Ends r) :
    exponentPart? (t ++ r) = exponentPart? t := by
  cases t with
  | nil =>
    cases r with
    | nil => rfl
    | cons d r =>
      have hd := (not_scalar_of_isDelimiter (hr d rfl)).2.1
      have : ¬ (d = 'e' ∨ d = 'E') := by rintro (rfl | rfl) <;> simp at hd
      simp [exponentPart?, this]
  | cons e t =>
    simp only [List.cons_append, exponentPart?]
    rw [exponentSign_append_ends t hr, List.drop_append_of_le_length (length_exponentSign t),
      digits_append_ends _ hr]

theorem length_wholeDigits (cs : List Char) : (wholeDigits cs).length ≤ cs.length := by
  unfold wholeDigits
  split
  · simp
  · exact (List.takeWhile_sublist _).length_le

theorem length_fractionDigits {cs : List Char} (h : fractionDigits cs ≠ []) :
    (fractionDigits cs).length + 1 ≤ cs.length := by
  revert h
  unfold fractionDigits
  split
  · exact fun _ => Nat.succ_le_succ (List.takeWhile_sublist _).length_le
  · exact fun h => absurd rfl h

theorem length_exponentPart? {cs : List Char} {n : Int} {k : Nat} (h : exponentPart? cs = some (n, k)) :
    k ≤ cs.length := by
  cases cs with
  | nil => cases h
  | cons e cs =>
    simp only [exponentPart?] at h
    split at h
    · split at h
      · cases h
      · obtain ⟨-, rfl⟩ := Prod.mk.inj (Option.some.inj h)
        have h1 := length_exponentSign cs
        have h2 := (List.takeWhile_sublist Digit.isDigit (l := cs.drop (exponentSign cs).length)).length_le
        simp only [List.length_drop] at h2
        simp only [List.length_cons]
        omega
    · cases h

theorem fractionSize_le (cs : List Char) : fractionSize cs ≤ cs.length := by
  unfold fractionSize
  dsimp only
  split
  · omega
  · rename_i h; exact length_fractionDigits (by simpa using h)

theorem fractionSize_append_ends (t : List Char) {r : List Char} (hr : Ends r) :
    fractionSize (t ++ r) = fractionSize t := by
  simp only [fractionSize, fractionDigits_append_ends t hr]

theorem scanUnsigned_append_ends (negative : Bool) (t : List Char) {r : List Char} (hr : Ends r) :
    scanUnsigned negative (t ++ r) = scanUnsigned negative t := by
  simp only [scanUnsigned]
  rw [wholeDigits_append_ends t hr, List.drop_append_of_le_length (length_wholeDigits t),
    fractionSize_append_ends _ hr, fractionDigits_append_ends _ hr,
    List.drop_append_of_le_length (fractionSize_le _), exponentPart?_append_ends _ hr]

theorem scanNumber_append_ends (t : List Char) {r : List Char} (hr : Ends r) :
    scanNumber (t ++ r) = scanNumber t := by
  cases t with
  | nil =>
    cases r with
    | nil => rfl
    | cons d r =>
      have hd := (not_scalar_of_isDelimiter (hr d rfl)).2.1
      have := scanUnsigned_append_ends false [] hr
      rw [List.nil_append] at this ⊢
      rw [scanNumber, scanNumber, this]
      · intro cs h; cases h
      · rintro cs h; cases h; simp at hd
  | cons c t =>
    by_cases hc : c = '-'
    · subst hc; simp only [List.cons_append, scanNumber, scanUnsigned_append_ends true t hr]
    · have := scanUnsigned_append_ends false (c :: t) hr
      rw [List.cons_append] at this ⊢
      rw [scanNumber, scanNumber, this] <;> (intro cs h; exact hc (List.cons.inj h).1)

/-- What stands behind a delimiter does not change which word or number stands in front of it. -/
theorem scanScalar_append_ends (t : List Char) {r : List Char} (hr : Ends r) :
    scanScalar (t ++ r) = scanScalar t := by
  have hw : words.find? (fun w => w.1.isPrefixOf (t ++ r)) = words.find? fun w => w.1.isPrefixOf t :=
    List.find?_congr fun w hw => isPrefixOf_append_ends (fun c hc => (not_scalar_of_isDelimiter hc).2.2 w hw) t hr
  rw [scanScalar, scanScalar, hw, scanNumber_append_ends t hr]

/-- What a number without its sign is: its value, and a size between one and what there is. -/
theorem scanUnsigned_eq_some {negative : Bool} {cs : List Char} {v : Except Limit Json} {n : Nat}
    (h : scanUnsigned negative cs = some (v, n)) :
    1 ≤ n ∧ n ≤ cs.length ∧ ∃ fraction exponent, v = numberValue negative (wholeDigits cs) fraction exponent := by
  simp only [scanUnsigned] at h
  split at h
  · cases h
  rename_i hne
  obtain ⟨rfl, rfl⟩ := Prod.mk.inj (Option.some.inj h)
  have h0 : 0 < (wholeDigits cs).length := List.length_pos_iff.mpr (by simpa using hne)
  have h1 := length_wholeDigits cs
  have h2 := fractionSize_le (cs.drop (wholeDigits cs).length)
  generalize htail : (cs.drop (wholeDigits cs).length).drop (fractionSize (cs.drop (wholeDigits cs).length)) = tail
  have h3 : ((exponentPart? tail).map (·.2)).getD 0 ≤ tail.length := by
    cases he : exponentPart? tail with
    | none => simp
    | some e => simpa using length_exponentPart? he
  have h4 := congrArg List.length htail
  simp only [List.length_drop] at h2 h4
  exact ⟨by omega, by omega, _, _, rfl⟩

/-- What a number is: its value, and a size between one and what there is. -/
theorem scanNumber_eq_some {cs : List Char} {v : Except Limit Json} {n : Nat} (h : scanNumber cs = some (v, n)) :
    1 ≤ n ∧ n ≤ cs.length ∧
      ∃ negative body fraction exponent, v = numberValue negative (wholeDigits body) fraction exponent := by
  unfold scanNumber at h
  split at h
  · obtain ⟨⟨v, k⟩, hk, he⟩ := Option.map_eq_some_iff.mp h
    obtain ⟨rfl, rfl⟩ := Prod.mk.inj he
    obtain ⟨h1, h2, fraction, exponent, hv⟩ := scanUnsigned_eq_some hk
    exact ⟨by omega, by simp only [List.length_cons]; omega, true, _, fraction, exponent, hv⟩
  · obtain ⟨h1, h2, fraction, exponent, hv⟩ := scanUnsigned_eq_some h
    exact ⟨h1, h2, false, _, fraction, exponent, hv⟩

theorem scanScalar_size {cs : List Char} {v : Except Limit Json} {n : Nat} (h : scanScalar cs = some (v, n)) :
    1 ≤ n ∧ n ≤ cs.length := by
  unfold scanScalar at h
  split at h
  · rename_i w _ hw
    obtain ⟨-, rfl⟩ := Prod.mk.inj (Option.some.inj h)
    have hp := List.find?_some hw
    have hlen : ∀ w ∈ words, 1 ≤ w.1.length := by
      have : ∀ w ∈ words.map (·.1), 1 ≤ w.length := by decide
      exact fun w hw => this w.1 (List.mem_map_of_mem hw)
    exact ⟨hlen _ (List.mem_of_find?_eq_some hw), (List.isPrefixOf_iff_prefix.mp hp).length_le⟩
  · exact ⟨(scanNumber_eq_some h).1, (scanNumber_eq_some h).2.1⟩

/-! ## The text -/

/-- Whether a token is a bracket, a comma or a colon. -/
def Token.isMark : Token → Bool
  | .opening _ | .closing _ | .comma | .colon => true
  | _ => false

theorem isDelimiter_of_punctuation {c : Char} {t : Token} (h : punctuation? c = some t) : isDelimiter c = true := by
  simp [isDelimiter, h]

theorem ends_of_mem {a : List Char} {c : Char} (hm : c ∈ a) (hc : isDelimiter c = true) :
    ∃ t r, a = t ++ r ∧ ∀ u, Ends (r ++ u) := by
  induction a with
  | nil => cases hm
  | cons x a ih =>
    by_cases hx : isDelimiter x = true
    · exact ⟨[], x :: a, rfl, fun u => by simpa [Ends] using hx⟩
    · rcases List.mem_cons.mp hm with rfl | hm
      · exact absurd hc hx
      · obtain ⟨t, r, rfl, hu⟩ := ih hm
        exact ⟨x :: t, r, rfl, hu⟩

/-- A delimiter inside a text keeps what is appended to it from changing its first word or number. -/
theorem scanScalar_append_of_mem {a : List Char} {c : Char} (hm : c ∈ a) (hc : isDelimiter c = true)
    (u : List Char) : scanScalar (a ++ u) = scanScalar a := by
  obtain ⟨t, r, rfl, hends⟩ := ends_of_mem hm hc
  rw [List.append_assoc, scanScalar_append_ends t (hends u), scanScalar_append_ends t (by simpa using hends [])]

theorem behind_of_not_mark {x l : Lexeme} {tail before after : List Lexeme} (hx : x.token.isMark = false)
    (hl : l.token.isMark = true) (h : x :: tail = before ++ l :: after) :
    ∃ before', before = x :: before' ∧ tail = before' ++ l :: after := by
  cases before with
  | nil => obtain ⟨rfl, -⟩ := List.cons.inj h; rw [hx] at hl; cases hl
  | cons b before => obtain ⟨rfl, rfl⟩ := List.cons.inj h; exact ⟨before, rfl, rfl⟩

theorem lexemesFrom_skip {skip pos : Nat} (a b : List Char) (h : skip = a.length) :
    lexemesFrom skip pos (a ++ b) = lexemesFrom 0 (pos + skip) b := by
  subst h
  induction a generalizing pos with
  | nil => rfl
  | cons c a ih =>
    rw [List.length_cons, List.cons_append, lexemesFrom, ih]
    congr 1
    omega

/-- A string, a word or a number is one lexeme, and nothing that is appended changes it if a delimiter stands
behind it. What is none of them ends the lexemes. -/
theorem lexemesFrom_cons_cases {x : Char} (a : List Char) (pos : Nat) (hx : isSpace x = false)
    (hp : punctuation? x = none) :
    ∃ t : Token, t.isMark = false ∧ (lexemesFrom 0 pos (x :: a) = [⟨t, pos⟩] ∨
      ∃ size ≤ a.length, lexemesFrom 0 pos (x :: a) = ⟨t, pos⟩ :: lexemesFrom size (pos + 1) a ∧
        ∀ c ∈ a, isDelimiter c = true → ∀ u,
          lexemesFrom 0 pos (x :: (a ++ u)) = ⟨t, pos⟩ :: lexemesFrom size (pos + 1) (a ++ u)) := by
  simp only [lexemesFrom, hx, hp, Bool.false_eq_true, if_false]
  by_cases hq : x = '"'
  · simp only [hq, if_true]
    cases ht : scanText pos (pos + 1) a with
    | error e => exact ⟨_, rfl, Or.inl rfl⟩
    | ok r =>
      refine ⟨_, rfl, Or.inr ⟨r.2, (scanText_append [] ht).2, rfl, fun _ _ _ u => ?_⟩⟩
      rw [(scanText_append u ht).1]
  · simp only [hq, if_false]
    cases hsc : scanScalar (x :: a) with
    | none => exact ⟨_, rfl, Or.inl rfl⟩
    | some r =>
      have hsize := (scanScalar_size hsc).2
      rw [List.length_cons] at hsize
      refine ⟨_, rfl, Or.inr ⟨r.2 - 1, by omega, rfl, fun c hm hc u => ?_⟩⟩
      have hsame := scanScalar_append_of_mem (List.mem_cons_of_mem x hm) hc u
      rw [List.cons_append] at hsame
      rw [hsame, hsc]

/-- Cutting a text into lexemes behind a mark: what comes before the mark and the mark itself stay the
same whatever is appended, and the rest is cut on its own. -/
theorem lexemesFrom_cut {a : List Char} {skip pos : Nat} {before after : List Lexeme} {l : Lexeme}
    (hs : skip ≤ a.length) (h : lexemesFrom skip pos a = before ++ l :: after) (hl : l.token.isMark = true) :
    ∃ done c rest, a = done ++ c :: rest ∧ punctuation? c = some l.token ∧
      after = lexemesFrom 0 (pos + done.length + 1) rest ∧
      ∀ u, lexemesFrom skip pos (a ++ u) = before ++ l :: lexemesFrom 0 (pos + done.length + 1) (rest ++ u) := by
  induction a generalizing skip pos before with
  | nil => cases skip <;> simp [lexemesFrom] at h
  | cons x a ih =>
    -- The mark stands behind the first character.
    have behind : ∀ {skip before}, skip ≤ a.length → lexemesFrom skip (pos + 1) a = before ++ l :: after →
        ∃ done c rest, x :: a = done ++ c :: rest ∧ punctuation? c = some l.token ∧ c ∈ a ∧
          after = lexemesFrom 0 (pos + done.length + 1) rest ∧ ∀ u, lexemesFrom skip (pos + 1) (a ++ u) =
            before ++ l :: lexemesFrom 0 (pos + done.length + 1) (rest ++ u) := by
      intro skip before hs h
      obtain ⟨done, c, rest, ha, hc, hafter, hu⟩ := ih hs h
      have hp : pos + 1 + done.length = pos + (x :: done).length := by simp only [List.length_cons]; omega
      rw [hp] at hafter hu
      exact ⟨x :: done, c, rest, by rw [ha, List.cons_append], hc, by rw [ha]; simp, hafter, hu⟩
    cases skip with
    | succ skip =>
      obtain ⟨done, c, rest, ha, hc, -, hafter, hu⟩ := behind (by simpa using hs) h
      exact ⟨done, c, rest, ha, hc, hafter, hu⟩
    | zero =>
      simp only [List.cons_append]
      by_cases hx : isSpace x = true
      · simp only [lexemesFrom, hx, if_true] at h ⊢
        obtain ⟨done, c, rest, ha, hc, -, hafter, hu⟩ := behind (Nat.zero_le _) h
        exact ⟨done, c, rest, ha, hc, hafter, hu⟩
      have hx : isSpace x = false := by simpa using hx
      cases hpunct : punctuation? x with
      | some t =>
        simp only [lexemesFrom, hx, hpunct, Bool.false_eq_true, if_false] at h ⊢
        cases before with
        | nil =>
          obtain ⟨rfl, rfl⟩ := List.cons.inj h
          exact ⟨[], x, a, rfl, hpunct, rfl, fun u => rfl⟩
        | cons b before =>
          obtain ⟨rfl, h'⟩ := List.cons.inj h
          obtain ⟨done, c, rest, ha, hc, -, hafter, hu⟩ := behind (Nat.zero_le _) h'
          exact ⟨done, c, rest, ha, hc, hafter, fun u => by rw [hu u]; rfl⟩
      | none =>
        obtain ⟨t, ht, hone | ⟨size, hsize, hmore, hsame⟩⟩ := lexemesFrom_cons_cases a pos hx hpunct
        · rw [hone] at h
          obtain ⟨_, -, h'⟩ := behind_of_not_mark ht hl h
          simp at h'
        · rw [hmore] at h
          obtain ⟨before', rfl, h'⟩ := behind_of_not_mark ht hl h
          obtain ⟨done, c, rest, ha, hc, hmem, hafter, hu⟩ := behind hsize h'
          refine ⟨done, c, rest, ha, hc, hafter, fun u => ?_⟩
          rw [hsame c hmem (isDelimiter_of_punctuation hc) u, hu u, List.cons_append]

end AgentBridge.Json
