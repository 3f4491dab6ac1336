import AgentBridge.Proofs.Tokens
import AgentBridge.Text.Blank
import Mathlib.Data.List.Forall2

/-
  AgentBridge.Proofs.LineEnds — how lines end means nothing to the reader.

  The end of a line is white space between lexemes, or it stands in a string, which is then at
  fault. So a text and the same text with one form for the ends of its lines have the same
  tokens one by one, in other places (`sameTokens_unify`, by induction on the text). The reader
  looks at nothing but tokens (`akin_take`), so it reads both texts as the same value, finds that
  they exceed the same limit, or finds a fault in both (`akin_read_unify`).
-/

namespace AgentBridge

/-! ## Texts and the ends of their lines -/

namespace Newline

theorem unify_cons {c : Char} (h : c ≠ '\r') (cs : List Char) : unify (c :: cs) = c :: unify cs := by
  rw [unify]
  all_goals
    intros
    exact h ‹_›

/-- Without a carriage return a text stays what it is. -/
theorem unify_append {a : List Char} (h : '\r' ∉ a) (b : List Char) : unify (a ++ b) = a ++ unify b := by
  induction a with
  | nil => rfl
  | cons c a ih =>
    rw [List.mem_cons, not_or] at h
    rw [List.cons_append, unify_cons (Ne.symm h.1), ih h.2, List.cons_append]

theorem exists_unify_return (cs : List Char) : ∃ rest, unify ('\r' :: cs) = '\n' :: unify rest ∧
    (cs = rest ∨ cs = '\n' :: rest) := by
  cases cs with
  | nil => exact ⟨[], rfl, Or.inl rfl⟩
  | cons c cs =>
    by_cases hc : c = '\n'
    · subst hc
      exact ⟨cs, by rw [unify], Or.inr rfl⟩
    · refine ⟨c :: cs, ?_, Or.inl rfl⟩
      rw [unify]
      intro _ h
      exact hc (List.cons.inj h).1

/-- What stands in front of the first end of a line stood there before. -/
theorem exists_of_unify_eq_append {a b cs : List Char} (h : unify cs = a ++ b) (ha : '\n' ∉ a) :
    ∃ rest, cs = a ++ rest ∧ unify rest = b := by
  induction a generalizing cs with
  | nil => exact ⟨cs, rfl, h⟩
  | cons x a ih =>
    rw [List.mem_cons, not_or] at ha
    cases cs with
    | nil => cases h
    | cons c cs =>
      by_cases hc : c = '\r'
      · subst hc
        obtain ⟨rest, hrest, -⟩ := exists_unify_return cs
        rw [hrest] at h
        exact absurd (List.cons.inj h).1 ha.1
      · rw [unify_cons hc] at h
        obtain ⟨rfl, htail⟩ := List.cons.inj h
        obtain ⟨rest, rfl, hrest⟩ := ih htail ha.2
        exact ⟨rest, rfl, hrest⟩

end Newline

namespace Json

open Newline (unify)

/-! ## Tokens -/

/-- Two lexemes have the same token, or are strings that are both at fault. -/
def SameToken (l l' : Lexeme) : Prop :=
  l.token = l'.token ∨ ∃ e e', l.token = .text (.error e) ∧ l'.token = .text (.error e')

/-- No end of a line stands inside a string. -/
theorem Inside.not_control {t : Text} {inner : List Char} (h : Inside t inner) : ∀ c ∈ inner, ' ' ≤ c := by
  have hletter : ∀ {c x : Char}, unescape? c = some x → ' ' ≤ c := by
    intro c x hx
    have hall : ∀ c ∈ ['"', '\\', '/', 'b', 'f', 'n', 'r', 't'], ' ' ≤ c := by
      simp only [List.mem_cons, List.not_mem_nil, or_false, forall_eq_or_imp, forall_eq]
      decide
    exact hall c (mem_of_unescape hx)
  have hdigit : ∀ {c : Char} {n : Nat}, Hex.value? c = some n → ' ' ≤ c := by
    intro c n hn
    have hc := isAlphanum_iff.mp (Hex.isAlphanum_of_value? hn)
    have hspace : ' '.toNat = 0x20 := rfl
    show ' '.toNat ≤ c.toNat
    omega
  induction h with
  | nil => exact List.forall_mem_nil _
  | char hc _ _ _ ih => exact List.forall_mem_cons.mpr ⟨hc, ih⟩
  | letter hx _ ih => exact List.forall_mem_cons.mpr ⟨by decide, List.forall_mem_cons.mpr ⟨hletter hx, ih⟩⟩
  | @unit a b c d n t rest hn _ ih =>
    simp only [Hex.four?, Option.bind_eq_bind, Option.bind_eq_some_iff] at hn
    obtain ⟨na, ha, nb, hb, nc, hc, nd, hd, -⟩ := hn
    simp only [List.forall_mem_cons]
    exact ⟨by decide, by decide, hdigit ha, hdigit hb, hdigit hc, hdigit hd, ih⟩

theorem Inside.not_mem {t : Text} {inner : List Char} (h : Inside t inner) : '\r' ∉ inner ∧ '\n' ∉ inner :=
  ⟨fun hc => absurd (h.not_control _ hc) (by decide), fun hc => absurd (h.not_control _ hc) (by decide)⟩

/-- A string ends at the same place, or is at fault in both texts. -/
theorem scanText_unify (start pos start' pos' : Nat) (cs : List Char) :
    (∃ t inner rest, cs = inner ++ '"' :: rest ∧ '\r' ∉ inner ∧
      scanText start pos cs = .ok (t, inner.length + 1) ∧
      scanText start' pos' (unify cs) = .ok (t, inner.length + 1)) ∨
    ∃ e e', scanText start pos cs = .error e ∧ scanText start' pos' (unify cs) = .error e' := by
  cases h : scanText start pos cs with
  | ok r =>
    obtain ⟨inner, rest, rfl, hn, hi⟩ := inside_of_scanText h
    refine Or.inl ⟨r.1, inner, rest, rfl, hi.not_mem.1, ?_, ?_⟩
    · rw [← hn]
    · rw [Newline.unify_append hi.not_mem.1, Newline.unify_cons (by decide), hi.scanText]
  | error e =>
    cases h' : scanText start' pos' (unify cs) with
    | error e' => exact Or.inr ⟨e, e', rfl, rfl⟩
    | ok r =>
      obtain ⟨inner, rest, hunify, -, hi⟩ := inside_of_scanText h'
      have hend : '\n' ∉ inner ++ ['"'] := by simp [hi.not_mem.2]
      rw [List.append_cons] at hunify
      obtain ⟨tail, rfl, -⟩ := Newline.exists_of_unify_eq_append hunify hend
      rw [← List.append_cons, hi.scanText] at h
      cases h

/-- A text in front of its first delimiter. -/
theorem exists_front (cs : List Char) : ∃ front rest, cs = front ++ rest ∧ Ends rest ∧
    ∀ c ∈ front, isDelimiter c = false := by
  refine ⟨cs.takeWhile (!isDelimiter ·), cs.dropWhile (!isDelimiter ·), List.takeWhile_append_dropWhile.symm, ?_, ?_⟩
  · intro c hc
    have := List.head?_dropWhile_not (!isDelimiter ·) cs
    rw [hc] at this
    simpa using this
  · intro c hc
    simpa using List.mem_takeWhile_imp hc

theorem ends_unify {cs : List Char} (h : Ends cs) : Ends (unify cs) := by
  cases cs with
  | nil => exact h
  | cons c cs =>
    by_cases hc : c = '\r'
    · subst hc
      obtain ⟨rest, hrest, -⟩ := Newline.exists_unify_return cs
      rw [hrest]
      exact ends_cons (by decide) _
    · rw [Newline.unify_cons hc]
      exact ends_cons (h c rfl) _

/-- A word or number is the same in both texts, and what stands behind it corresponds. -/
theorem scanScalar_unify (cs : List Char) : scanScalar (unify cs) = scanScalar cs ∧
    ∀ v n, scanScalar cs = some (v, n) → ∃ text rest, cs = text ++ rest ∧ text.length = n ∧ '\r' ∉ text := by
  obtain ⟨front, rest, rfl, hends, hfront⟩ := exists_front cs
  have hreturn : '\r' ∉ front := fun h => absurd (hfront _ h) (by decide)
  rw [Newline.unify_append hreturn, scanScalar_append_ends front (ends_unify hends), scanScalar_append_ends front hends]
  refine ⟨rfl, fun v n h => ?_⟩
  have hsize := (scanScalar_size h).2
  refine ⟨front.take n, front.drop n ++ rest, ?_, ?_, fun h => hreturn (List.mem_of_mem_take h)⟩
  · rw [← List.append_assoc, List.take_append_drop]
  · rw [List.length_take, Nat.min_eq_left hsize]

/-- The tokens of a text do not depend on how its lines end. -/
theorem sameTokens_unify (pos pos' : Nat) (cs : List Char) :
    List.Forall₂ SameToken (lexemesFrom 0 pos cs) (lexemesFrom 0 pos' (unify cs)) := by
  induction hn : cs.length using Nat.strongRecOn generalizing pos pos' cs with
  | ind n ih =>
    subst hn
    cases cs with
    | nil => exact .nil
    | cons c cs =>
      by_cases hreturn : c = '\r'
      · subst hreturn
        obtain ⟨rest, hrest, hcs⟩ := Newline.exists_unify_return cs
        rw [hrest]
        rcases hcs with rfl | rfl
        · exact ih cs.length (by simp) _ _ cs rfl
        · exact ih rest.length (by simp only [List.length_cons]; omega) _ _ rest rfl
      rw [Newline.unify_cons hreturn]
      -- Behind a lexeme both texts go on alike.
      have behind : ∀ text rest, cs = text ++ rest → '\r' ∉ text →
          List.Forall₂ SameToken (lexemesFrom text.length (pos + 1) cs)
            (lexemesFrom text.length (pos' + 1) (unify cs)) := by
        rintro text rest rfl htext
        rw [Newline.unify_append htext, lexemesFrom_skip _ _ rfl, lexemesFrom_skip _ _ rfl]
        refine ih rest.length ?_ _ _ rest rfl
        rw [List.length_cons, List.length_append]
        omega
      have hcs := behind [] cs rfl (by simp)
      by_cases hspace : isSpace c = true
      · rw [lexemesFrom, lexemesFrom, if_pos hspace, if_pos hspace]
        exact hcs
      simp only [lexemesFrom, hspace]
      cases hp : punctuation? c with
      | some t => exact .cons (Or.inl rfl) hcs
      | none =>
        by_cases hq : c = '"'
        · simp only [hq, if_true]
          rcases scanText_unify pos (pos + 1) pos' (pos' + 1) cs with
            ⟨t, inner, rest, hinner, hreturn', ht, ht'⟩ | ⟨e, e', he, he'⟩
          · simp only [ht, ht']
            have := behind (inner ++ ['"']) rest (by rw [hinner, ← List.append_cons]) (by simp [hreturn'])
            rw [List.length_append] at this
            exact .cons (Or.inl rfl) this
          · simp only [he, he']
            exact .cons (Or.inr ⟨e, e', rfl, rfl⟩) .nil
        · simp only [hq, if_false]
          obtain ⟨hsame, hsize⟩ := scanScalar_unify (c :: cs)
          rw [Newline.unify_cons hreturn] at hsame
          rw [hsame]
          cases hs : scanScalar (c :: cs) with
          | none => exact .cons (Or.inl rfl) .nil
          | some r =>
            obtain ⟨text, rest, htext, hlength, hreturn'⟩ := hsize r.1 r.2 hs
            obtain ⟨d, tail, rfl⟩ := List.exists_cons_of_length_pos (hlength ▸ (scanScalar_size hs).1)
            rw [List.cons_append] at htext
            have := behind tail rest (List.cons.inj htext).2 fun h => hreturn' (List.mem_cons_of_mem d h)
            have htail : r.2 - 1 = tail.length := by
              rw [← hlength, List.length_cons]
              omega
            exact .cons (Or.inl rfl) (by rwa [htail])

/-! ## The reader -/

/-- Two outcomes are the same value or the same limit that is exceeded, or both are faults. -/
structure Akin {α : Type} (x y : Except Stop α) : Prop where
  ok : ∀ a, x = .ok a ↔ y = .ok a
  limit : ∀ e, x = .error (.limit e) ↔ y = .error (.limit e)

namespace Akin

theorem of_fault {α : Type} {m m' : Misreading} :
    Akin (.error (.malformed m) : Except Stop α) (.error (.malformed m')) :=
  ⟨fun _ => by simp, fun _ => by simp⟩

theorem bind {α β : Type} {x y : Except Stop α} {f g : α → Except Stop β} (h : Akin x y) (hfg : ∀ a, Akin (f a) (g a)) :
    Akin (x >>= f) (y >>= g) := by
  constructor
  · intro b
    simp only [bind_eq_ok, h.ok, (hfg _).ok]
  · intro e
    simp only [bind_eq_error, h.ok, h.limit, (hfg _).limit]

end Akin

theorem SameToken.symm {l l' : Lexeme} (h : SameToken l l') : SameToken l' l := by
  rcases h with h | ⟨e, e', hl, hl'⟩
  · exact Or.inl h.symm
  · exact Or.inr ⟨e', e, hl', hl⟩

namespace State

theorem step_of_sameToken {s s' : State} {l l' : Lexeme} (h : SameToken l l') (hs : Step s l.token s') :
    Step s l'.token s' := by
  rcases h with h | ⟨e, -, hl, -⟩
  · rwa [← h]
  · rw [hl] at hs
    cases hs

theorem oversteps_of_sameToken {l l' : Lexeme} {around : List Frame} {e : Limit} (h : SameToken l l')
    (ho : Oversteps l around e) : Oversteps l' around e := by
  rcases h with h | ⟨m, -, hl, -⟩
  · unfold Oversteps at ho ⊢
    rwa [← h]
  · rcases ho with ho | ⟨b, ho, -⟩
    · rw [hl] at ho
      cases ho
    · rw [hl] at ho
      cases ho

/-- Only the token of a lexeme decides what is done with it. -/
theorem akin_take (s : State) {l l' : Lexeme} (h : SameToken l l') : Akin (s.take l) (s.take l') := by
  have hok : ∀ {l l' : Lexeme}, SameToken l l' → ∀ s', s.take l = .ok s' → s.take l' = .ok s' :=
    fun h s' hs => take_of_step (step_of_sameToken h (take_ok hs))
  have hlimit : ∀ {l l' : Lexeme}, SameToken l l' → ∀ e, s.take l = .error (.limit e) →
      s.take l' = .error (.limit e) := by
    intro l l' h e he
    obtain ⟨around, hs, ho⟩ := take_eq_limit_iff.mp he
    exact take_eq_limit_iff.mpr ⟨around, hs, oversteps_of_sameToken h ho⟩
  exact ⟨fun s' => ⟨hok h s', hok h.symm s'⟩, fun e => ⟨hlimit h e, hlimit h.symm e⟩⟩

theorem akin_finish (size size' : Nat) (s : State) : Akin (s.finish size) (s.finish size') := by
  cases s with
  | done v => exact ⟨fun _ => Iff.rfl, fun _ => Iff.rfl⟩
  | _ => exact .of_fault

theorem akin_run {size size' : Nat} {ls ls' : List Lexeme} (h : List.Forall₂ SameToken ls ls') (s : State) :
    Akin (run size s ls) (run size' s ls') := by
  induction h generalizing s with
  | nil => exact akin_finish size size' s
  | cons hl _ ih => exact (akin_take s hl).bind ih

end State

/-- Two readings give the same value or exceed the same limit, or both texts are at fault. -/
structure ReadAlike (cs cs' : List Char) : Prop where
  ok : ∀ v, read cs = .ok v ↔ read cs' = .ok v
  limit : ∀ l, read cs = .error (.limit l) ↔ read cs' = .error (.limit l)

theorem akin_scan_unify (cs : List Char) : Akin (scan cs) (scan (unify cs)) := by
  have hmark : cs.head? = some '\uFEFF' ↔ (unify cs).head? = some '\uFEFF' := by
    cases cs with
    | nil => rfl
    | cons c cs =>
      by_cases hc : c = '\r'
      · subst hc
        obtain ⟨rest, hrest, -⟩ := Newline.exists_unify_return cs
        simp [hrest]
      · simp [Newline.unify_cons hc]
  unfold scan
  by_cases h : cs.head? = some '\uFEFF'
  · rw [if_pos h, if_pos (hmark.mp h)]
    exact .of_fault
  · rw [if_neg h, if_neg (h ∘ hmark.mpr)]
    exact State.akin_run (sameTokens_unify 0 0 cs) _

/-- How its lines end means nothing for what a text is read as. -/
theorem readAlike_unify (cs : List Char) : ReadAlike cs (unify cs) := by
  have h := akin_scan_unify cs
  constructor
  · intro v
    rw [read_eq_ok_iff_scan, read_eq_ok_iff_scan, h.ok]
  · intro l
    rw [read_eq_limit_iff_scan, read_eq_limit_iff_scan, h.limit]

end Json

end AgentBridge
