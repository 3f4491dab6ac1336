import AgentBridge.Proofs.Lexemes
import AgentBridge.Proofs.Readable

/-
  AgentBridge.Proofs.Quoting — strings are read back as they were written.

  Each code point is written as one escape, as two, or as itself. Scanning gives it back in
  units of sixteen bits (`scanText_escape_append`), and joining the units joins what could be
  joined in the text that was written (`pair_halves`). So a written text is one lexeme
  (`lexemesFrom_writeText`), and a text in which nothing could be joined comes back.
-/

namespace AgentBridge

/-! ## Units of sixteen bits -/

namespace CodePoint

theorem ofUnit_val_high (i : Fin 0x400) : ofUnit (0xD800 + i) = .high i := by
  have hi := i.isLt
  simp [ofUnit, hi]

theorem ofUnit_val_low (i : Fin 0x400) : ofUnit (0xDC00 + i) = .low i := by
  have hi := i.isLt
  have h1 : ¬ 0xDC00 + i.val < 0xD800 := by omega
  have h2 : ¬ 0xDC00 + i.val - 0xD800 < 0x400 := by omega
  simp [ofUnit, h1, h2]

theorem ofUnit_toNat (c : Char) : ofUnit c.toNat = .char c := by
  have hc := c.valid
  have hn : c.val.toNat = c.toNat := rfl
  simp only [UInt32.isValidChar, Nat.isValidChar, hn] at hc
  have h1 : c.toNat < 0xD800 ∨ (¬ c.toNat - 0xD800 < 0x400 ∧ ¬ c.toNat - 0xDC00 < 0x400) := by omega
  rcases h1 with h1 | ⟨h1, h2⟩
  · simp [ofUnit, h1]
  · simp [ofUnit, h1, h2]

/-- The code points that the units of a code point give one by one. -/
def halves (p : CodePoint) : Text := p.units.map ofUnit

theorem halves_small {c : Char} (h : c.toNat < 0x10000) : (CodePoint.char c).halves = [.char c] := by
  simp [halves, units, h, ofUnit_toNat]

theorem halves_large {c : Char} (h : ¬ c.toNat < 0x10000) :
    ∃ i j, (CodePoint.char c).halves = [.high i, .low j] ∧ join i j = c := by
  have hc : c.toNat < 0x110000 := by
    have := c.valid
    have hn : c.val.toNat = c.toNat := rfl
    simp only [UInt32.isValidChar, Nat.isValidChar, hn] at this
    omega
  refine ⟨⟨(c.toNat - 0x10000) / 0x400, by omega⟩, ⟨(c.toNat - 0x10000) % 0x400, by omega⟩, ?_, ?_⟩
  · simp [halves, units, h, ← ofUnit_val_high, ← ofUnit_val_low]
  · have hn : 0x10000 + 0x400 * ((c.toNat - 0x10000) / 0x400) + (c.toNat - 0x10000) % 0x400 = c.toNat := by omega
    simp only [join, hn, Char.ofNat_toNat]

theorem halves_high (i : Fin 0x400) : (CodePoint.high i).halves = [.high i] := by
  simp [halves, units, val, ofUnit_val_high]

theorem halves_low (i : Fin 0x400) : (CodePoint.low i).halves = [.low i] := by
  simp [halves, units, val, ofUnit_val_low]

theorem lt_of_mem_units {p : CodePoint} {n : Nat} (h : n ∈ p.units) : n < 0x10000 := by
  cases p with
  | char c =>
    have hc : c.toNat < 0x110000 := by
      have := c.valid
      have hn : c.val.toNat = c.toNat := rfl
      simp only [UInt32.isValidChar, Nat.isValidChar, hn] at this
      omega
    simp only [units] at h
    split at h
    · simp at h; omega
    · simp at h; omega
  | high i => simp [units, val] at h; omega
  | low i => simp [units, val] at h; omega

end CodePoint

namespace Text

/-- No low surrogate comes to the front of a text by taking it apart into units. -/
theorem head_halves {t : Text} {j : Fin 0x400} (h : (t.flatMap CodePoint.halves).head? = some (.low j)) :
    t.head? = some (.low j) := by
  cases t with
  | nil => cases h
  | cons p t =>
    cases p with
    | char c =>
      by_cases hc : c.toNat < 0x10000
      · simp [CodePoint.halves_small hc] at h
      · obtain ⟨i, k, hh, -⟩ := CodePoint.halves_large hc
        simp [hh] at h
    | high i => simp [CodePoint.halves_high] at h
    | low i => simpa [CodePoint.halves_low] using h

theorem pair_cons {p : CodePoint} {t : Text} (h : ∀ i j, p = .high i → t.head? ≠ some (.low j)) :
    pair (p :: t) = p :: pair t := by
  rw [pair]
  intro i j rest hp ht
  exact h i j hp (by rw [ht]; rfl)

/-- Nothing is left to join in a paired text. -/
theorem pair_eq_self {t : Text} (h : t.Paired) : pair t = t := by
  induction t with
  | nil => rfl
  | cons p t ih =>
    obtain ⟨ht, hp⟩ := paired_of_cons h
    rw [pair_cons hp, ih ht]

/-- Joining the units of a text joins what could be joined in the text. -/
theorem pair_halves (t : Text) : pair (t.flatMap CodePoint.halves) = pair t := by
  fun_induction pair t with
  | case1 i j rest ih =>
    rw [List.flatMap_cons, List.flatMap_cons, CodePoint.halves_high, CodePoint.halves_low, List.singleton_append,
      List.singleton_append, pair, ih]
  | case2 p rest hp ih =>
    rw [List.flatMap_cons]
    cases p with
    | char c =>
      by_cases hc : c.toNat < 0x10000
      · rw [CodePoint.halves_small hc, List.singleton_append, pair_cons (by simp), ih]
      · obtain ⟨i, j, hh, hj⟩ := CodePoint.halves_large hc
        rw [hh, List.cons_append, List.singleton_append, pair, ih, hj]
    | high i =>
      rw [CodePoint.halves_high, List.singleton_append, pair_cons, ih]
      intro k j _ hh
      have hlow := head_halves hh
      cases rest with
      | nil => cases hlow
      | cons q rest =>
        obtain rfl := Option.some.inj hlow
        exact hp i j rest rfl rfl
    | low i => rw [CodePoint.halves_low, List.singleton_append, pair_cons (by simp), ih]
  | case3 => rfl

end Text

/-! ## Escapes -/

namespace Json

theorem scanText_unit {start pos n : Nat} {rest : List Char} (hn : n < 0x10000) (hr : rest ≠ []) :
    scanText start pos (escapeUnit n ++ rest) =
      (scanText start (pos + 6) rest).map (prepend (CodePoint.ofUnit n) 6) := by
  obtain ⟨a, b, c, d, hp, hf⟩ := Hex.four?_padded n hn
  simp only [escapeUnit, hp, List.cons_append, List.nil_append]
  exact scanText_unicode hf hr

/-- Put code points that took `taken` characters in front of what was scanned behind them. -/
def prependAll (t : Text) (taken : Nat) (r : Text × Nat) : Text × Nat := (t ++ r.1, r.2 + taken)

theorem map_prepend {p : CodePoint} {t : Text} {n k : Nat} (e : Except Misreading (Text × Nat)) :
    (e.map (prependAll t n)).map (prepend p k) = e.map (prependAll (p :: t) (n + k)) := by
  cases e with
  | error e => rfl
  | ok r => simp [Except.map, prepend, prependAll, Nat.add_assoc]

theorem scanText_units {start pos : Nat} {us : List Nat} {rest : List Char} (hu : ∀ n ∈ us, n < 0x10000)
    (hr : rest ≠ []) : scanText start pos (us.flatMap escapeUnit ++ rest) =
      (scanText start (pos + 6 * us.length) rest).map (prependAll (us.map CodePoint.ofUnit) (6 * us.length)) := by
  induction us generalizing pos with
  | nil =>
    cases h : scanText start pos rest <;> simp [h, Except.map, prependAll]
  | cons n us ih =>
    rw [List.flatMap_cons, List.append_assoc, scanText_unit (hu n (by simp)) (by simp [hr]),
      ih fun m hm => hu m (by simp [hm])]
    rw [map_prepend, List.map_cons, List.length_cons, Nat.mul_succ]
    congr 2
    omega

/-- How a code point is written: in units, with a letter behind a backslash, or as itself. -/
theorem escape_cases (p : CodePoint) :
    escape p = p.units.flatMap escapeUnit ∨
      (∃ x c, p = .char c ∧ escape p = ['\\', x] ∧ unescape? x = some c ∧ c.toNat < 0x10000) ∨
      ∃ c, p = .char c ∧ escape p = [c] ∧ c ≠ '"' ∧ c ≠ '\\' ∧ ' ' ≤ c ∧ c ≤ '~' := by
  cases p with
  | high i => exact Or.inl (by simp [escape, CodePoint.units])
  | low i => exact Or.inl (by simp [escape, CodePoint.units])
  | char c =>
    unfold escape
    split
    · rename_i h; cases h; exact Or.inr (Or.inl ⟨'"', _, rfl, rfl, rfl, by decide⟩)
    · rename_i h; cases h; exact Or.inr (Or.inl ⟨'\\', _, rfl, rfl, rfl, by decide⟩)
    · rename_i h; cases h; exact Or.inr (Or.inl ⟨'n', _, rfl, rfl, rfl, by decide⟩)
    · rename_i h; cases h; exact Or.inr (Or.inl ⟨'r', _, rfl, rfl, rfl, by decide⟩)
    · rename_i h; cases h; exact Or.inr (Or.inl ⟨'t', _, rfl, rfl, rfl, by decide⟩)
    · rename_i h; cases h; exact Or.inr (Or.inl ⟨'b', _, rfl, rfl, rfl, by decide⟩)
    · rename_i h; cases h; exact Or.inr (Or.inl ⟨'f', _, rfl, rfl, rfl, by decide⟩)
    · rename_i c hq hb _ _ _ _ _ hc
      cases hc
      split
      · rename_i h
        exact Or.inr (Or.inr ⟨_, rfl, rfl, by rintro rfl; exact hq rfl, by rintro rfl; exact hb rfl, h⟩)
      · exact Or.inl rfl
    · rename_i hp
      exact (hp c rfl).elim

theorem length_flatMap_escapeUnit (us : List Nat) : (us.flatMap escapeUnit).length = 6 * us.length := by
  induction us with
  | nil => rfl
  | cons n us ih => rw [List.flatMap_cons, List.length_append, ih]; simp [escapeUnit]; omega

/-- An escape is scanned as the units of what was escaped. -/
theorem scanText_escape_append {start pos : Nat} (p : CodePoint) {rest : List Char} (hr : rest ≠ []) :
    scanText start pos (escape p ++ rest) =
      (scanText start (pos + (escape p).length) rest).map (prependAll p.halves (escape p).length) := by
  rcases escape_cases p with h | ⟨x, c, rfl, h, hx, hc⟩ | ⟨c, rfl, h, hq, hb, hspace, htilde⟩
  · rw [h, scanText_units (fun n hn => CodePoint.lt_of_mem_units hn) hr, length_flatMap_escapeUnit]
    rfl
  · rw [h, CodePoint.halves_small hc]
    exact scanText_escape hx
  · have hc : c.toNat < 0x10000 := by
      have : c.toNat ≤ '~'.toNat := htilde
      have : '~'.toNat = 0x7e := rfl
      omega
    rw [h, CodePoint.halves_small hc]
    exact scanText_plain hq hb (by simpa using hspace)

theorem map_prependAll {s t : Text} {n k : Nat} (e : Except Misreading (Text × Nat)) :
    (e.map (prependAll t n)).map (prependAll s k) = e.map (prependAll (s ++ t) (k + n)) := by
  cases e with
  | error e => rfl
  | ok r =>
    simp only [Except.map, prependAll, List.append_assoc]
    congr 2
    omega

theorem scanText_flatMap_escape {start pos : Nat} (t : Text) (rest : List Char) :
    scanText start pos (t.flatMap escape ++ '"' :: rest) =
      .ok (t.flatMap CodePoint.halves, (t.flatMap escape).length + 1) := by
  suffices h : scanText start pos (t.flatMap escape ++ '"' :: rest) =
      (scanText start (pos + (t.flatMap escape).length) ('"' :: rest)).map
        (prependAll (t.flatMap CodePoint.halves) (t.flatMap escape).length) by
    rw [h, scanText]
    simp [Except.map, prependAll, Nat.add_comm]
  induction t generalizing pos with
  | nil => rw [List.flatMap_nil, List.nil_append, scanText]; rfl
  | cons p t ih =>
    rw [List.flatMap_cons, List.append_assoc, scanText_escape_append p (by simp), ih, map_prependAll,
      List.flatMap_cons, List.length_append, Nat.add_assoc]

/-- A text between quotes is one lexeme. -/
theorem lexemesFrom_writeText {pos : Nat} (t : Text) (rest : List Char) :
    lexemesFrom 0 pos (writeText t ++ rest) =
      ⟨.text (.ok t.pair), pos⟩ :: lexemesFrom 0 (pos + (writeText t).length) rest := by
  have hquote : isSpace '"' = false := by decide
  have hmark : punctuation? '"' = none := rfl
  have htail : writeText t ++ rest = '"' :: (t.flatMap escape ++ '"' :: rest) := by
    simp [writeText]
  have hlength : (writeText t).length = 1 + ((t.flatMap escape).length + 1) := by
    rw [writeText, List.length_append, List.length_cons, List.length_singleton, Nat.add_comm]
  rw [htail, lexemesFrom, hquote, hmark, if_neg (by decide)]
  simp only [if_true, scanText_flatMap_escape, Text.pair_halves, hlength]
  rw [List.append_cons, lexemesFrom_skip _ _ (by simp), Nat.add_assoc]

end Json

end AgentBridge
