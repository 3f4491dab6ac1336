import AgentBridge.Proofs.Literals

/-
  AgentBridge.Proofs.NumberSpellings — what spells a number in the environment.

  The environment has digits of any script, and an underscore may stand between two of them
  (`GroupedDigits`); otherwise its numbers are decimal literals. Taking the underscores out
  leads to ASCII digits (`Ungrouped`) without a change to what is spelled, because no
  underscore can stand next to another character of a literal (`ungrouped_append_iff`). So the
  reader takes the literals over these digits, with blanks around them, and nothing else
  (`ofEnvironment?_eq_some_iff`).
-/

namespace AgentBridge.Binary64

open Digit

/-! ## Digits of any script -/

/-- A decimal digit of any script, with its value. -/
def IsDecimal (c : Char) (v : Nat) : Prop := v < 10 ∧ ∃ z ∈ '0'.toNat :: zeros, c.toNat = z + v

/-- Decimal digits of any script, with an underscore or nothing between one and the next. -/
inductive GroupedDigits : List Char → Nat → Nat → Prop
  | last {c v} : IsDecimal c v → GroupedDigits [c] v 1
  | next {c v cs n k} : IsDecimal c v → GroupedDigits cs n k → GroupedDigits (c :: cs) (v * 10 ^ k + n) (k + 1)
  | grouped {c v cs n k} : IsDecimal c v → GroupedDigits cs n k →
      GroupedDigits (c :: '_' :: cs) (v * 10 ^ k + n) (k + 1)

/-- The digits of two scripts do not overlap. -/
theorem zero_unique {z z' n : Nat} (hz : z ∈ '0'.toNat :: zeros) (hz' : z' ∈ '0'.toNat :: zeros)
    (h : z ≤ n ∧ n < z + 10) (h' : z' ≤ n ∧ n < z' + 10) : z = z' := by
  have hapart : ∀ a ∈ '0'.toNat :: zeros, ∀ b ∈ '0'.toNat :: zeros, a = b ∨ a + 10 ≤ b ∨ b + 10 ≤ a := by
    decide +kernel
  rcases hapart z hz z' hz' with heq | hle | hle
  · exact heq
  · omega
  · omega

theorem toAscii_of_isDecimal {c : Char} {v : Nat} (h : IsDecimal c v) : toAscii c = Char.ofNat ('0'.toNat + v) := by
  obtain ⟨hv, z, hz, hc⟩ := h
  unfold toAscii
  split
  · rename_i z' hfind
    have hmem : z' ∈ zeros := List.mem_of_find?_eq_some hfind
    have hin : z' ≤ c.toNat ∧ c.toNat < z' + 10 := by simpa using List.find?_some hfind
    obtain rfl : z = z' := zero_unique hz (List.mem_cons_of_mem _ hmem) (by omega) hin
    rw [hc, Nat.add_sub_cancel_left]
  · rename_i hfind
    rcases List.mem_cons.mp hz with rfl | hmem
    · rw [← hc, Char.ofNat_toNat]
    · have hout : z ≤ c.toNat → z + 10 ≤ c.toNat := by simpa using List.find?_eq_none.mp hfind z hmem
      omega

theorem toAscii_of_not_isDecimal {c : Char} (h : ∀ v, ¬ IsDecimal c v) : toAscii c = c := by
  unfold toAscii
  split
  · rename_i z hfind
    have hin : z ≤ c.toNat ∧ c.toNat < z + 10 := by simpa using List.find?_some hfind
    have hmem : z ∈ zeros := List.mem_of_find?_eq_some hfind
    exact absurd ⟨by omega, z, List.mem_cons_of_mem _ hmem, by omega⟩ (h (c.toNat - z))
  · rfl

theorem isDecimal_iff {c : Char} {v : Nat} : IsDecimal c v ↔ isDigit (toAscii c) = true ∧ value (toAscii c) = v := by
  have hdigit : ∀ v < 10, isDigit (Char.ofNat ('0'.toNat + v)) = true ∧ value (Char.ofNat ('0'.toNat + v)) = v := by
    decide
  constructor
  · intro h
    rw [toAscii_of_isDecimal h]
    exact hdigit v h.1
  · rintro ⟨hd, hv⟩
    by_cases hdecimal : ∃ w, IsDecimal c w
    · obtain ⟨w, hw⟩ := hdecimal
      rw [toAscii_of_isDecimal hw, (hdigit w hw.1).2] at hv
      exact hv ▸ hw
    · rw [toAscii_of_not_isDecimal (not_exists.mp hdecimal)] at hd hv
      have hin := isDigit_iff.mp hd
      refine ⟨?_, '0'.toNat, List.mem_cons_self, ?_⟩
      · rw [← hv, value]
        omega
      · rw [← hv, value]
        omega

/-- What is no digit afterwards was written as it is. -/
theorem toAscii_eq_self {c : Char} (h : isDigit (toAscii c) = false) : toAscii c = c := by
  refine toAscii_of_not_isDecimal fun v hv => ?_
  rw [(isDecimal_iff.mp hv).1] at h
  cases h

/-! ## Underscores -/

/-- A text as it is written, and its characters without the underscores and with ASCII digits;
the flag is whether a digit stands in front. -/
inductive Ungrouped : Bool → List Char → List Char → Prop
  | nil {before} : Ungrouped before [] []
  | keep {before c d cs ps} : toAscii c = d → d ≠ '_' → Ungrouped (isDigit d) cs ps →
      Ungrouped before (c :: cs) (d :: ps)
  | skip {c d cs ps} : toAscii c = d → isDigit d = true → Ungrouped true cs ps →
      Ungrouped true ('_' :: c :: cs) (d :: ps)

theorem toAscii_eq_underscore_iff {c : Char} : toAscii c = '_' ↔ c = '_' := by
  constructor
  · intro h
    have hsame : toAscii c = c := toAscii_eq_self (by rw [h]; rfl)
    exact hsame.symm.trans h
  · rintro rfl
    decide +kernel

theorem ungroup?_eq_some_iff {before : Bool} {cs ps : List Char} :
    ungroup? before (cs.map toAscii) = some ps ↔ Ungrouped before cs ps := by
  constructor
  · intro h
    generalize hsource : cs.map toAscii = ascii at h
    fun_induction ungroup? before ascii generalizing cs ps with
    | case1 =>
      obtain rfl := Option.some.inj h
      obtain rfl := List.map_eq_nil_iff.mp hsource
      exact .nil
    -- an underscore between two digits
    | case2 before d rest hd ih =>
      obtain ⟨u, _, rfl, hu, hsource⟩ := List.map_eq_cons_iff.mp hsource
      obtain ⟨c, cs, rfl, hc, hrest⟩ := List.map_eq_cons_iff.mp hsource
      obtain ⟨ps, hps, rfl⟩ := Option.map_eq_some_iff.mp h
      obtain ⟨rfl, hdigit⟩ := Bool.and_eq_true_iff.mp hd
      rw [toAscii_eq_underscore_iff.mp hu]
      exact .skip hc hdigit (ih hrest hps)
    | case3 | case4 => cases h
    | case5 before d rest hinside hend ih =>
      obtain ⟨c, cs, rfl, hc, hrest⟩ := List.map_eq_cons_iff.mp hsource
      obtain ⟨ps, hps, rfl⟩ := Option.map_eq_some_iff.mp h
      -- an underscore is left to the cases before, whatever stands behind it
      have hne : d ≠ '_' := by
        intro hd
        cases rest with
        | nil => exact hend hd rfl
        | cons next rest => exact hinside next rest hd rfl
      exact .keep hc hne (ih hrest hps)
  · intro h
    induction h with
    | nil => rfl
    | keep hc hne _ ih =>
      rw [List.map_cons, hc, ungroup?, ih, Option.map_some]
      · exact fun _ _ hd => absurd hd hne
      · exact fun hd => absurd hd hne
    | skip hc hd _ ih => simp [toAscii_eq_underscore_iff.mpr, hc, ungroup?, hd, ih]

/-- A character that is read as it is written, and that no underscore may stand next to. -/
structure Mark (c : Char) : Prop where
  ascii : toAscii c = c
  notDigit : isDigit c = false
  notUnderscore : c ≠ '_'

theorem Ungrouped.mono {before : Bool} {cs ps : List Char} (h : Ungrouped false cs ps) : Ungrouped before cs ps := by
  cases h with
  | nil => exact .nil
  | keep hc hne h => exact .keep hc hne h

theorem Ungrouped.append {before : Bool} {cs ps ds qs : List Char} (h : Ungrouped before cs ps)
    (h' : Ungrouped false ds qs) : Ungrouped before (cs ++ ds) (ps ++ qs) := by
  induction h with
  | nil => exact h'.mono
  | keep hc hne _ ih => exact .keep hc hne ih
  | skip hc hd _ ih => exact .skip hc hd ih

theorem Ungrouped.mark {before : Bool} {c : Char} {cs ps : List Char} (h : Ungrouped false cs ps) (hc : Mark c) :
    Ungrouped before (c :: cs) (c :: ps) := by
  rw [← hc.notDigit] at h
  exact .keep hc.ascii hc.notUnderscore h

theorem ungrouped_mark_cons {before : Bool} {c : Char} (hc : Mark c) {cs qs : List Char} :
    Ungrouped before cs (c :: qs) ↔ ∃ rest, cs = c :: rest ∧ Ungrouped false rest qs := by
  constructor
  · intro h
    cases h with
    | keep hd _ h =>
      have hsame := toAscii_eq_self (hd ▸ hc.notDigit)
      obtain rfl := hsame.symm.trans hd
      rw [hc.notDigit] at h
      exact ⟨_, rfl, h⟩
    | skip _ hd _ =>
      rw [hc.notDigit] at hd
      cases hd
  · rintro ⟨rest, rfl, h⟩
    exact h.mark hc

/-- In front of a mark, a text is ungrouped by itself: no underscore can be between the two. -/
theorem ungrouped_append_iff {before : Bool} {ps qs : List Char} (hq : ∀ c ∈ qs.head?, Mark c) {cs : List Char} :
    Ungrouped before cs (ps ++ qs) ↔
      ∃ as rest, cs = as ++ rest ∧ Ungrouped before as ps ∧ Ungrouped false rest qs := by
  constructor
  · intro h
    induction ps generalizing before cs with
    | nil =>
      cases qs with
      | nil =>
        cases h
        exact ⟨[], [], rfl, .nil, .nil⟩
      | cons c qs =>
        obtain ⟨rest, rfl, hrest⟩ := (ungrouped_mark_cons (hq c rfl)).mp h
        exact ⟨[], c :: rest, rfl, .nil, hrest.mark (hq c rfl)⟩
    | cons d ps ih =>
      cases h with
      | keep hc hne h =>
        obtain ⟨as, rest, rfl, has, hrest⟩ := ih h
        exact ⟨_ :: as, rest, rfl, .keep hc hne has, hrest⟩
      | skip hc hd h =>
        obtain ⟨as, rest, rfl, has, hrest⟩ := ih h
        exact ⟨_ :: _ :: as, rest, rfl, .skip hc hd has, hrest⟩
  · rintro ⟨as, rest, rfl, has, hrest⟩
    exact has.append hrest

theorem ungrouped_of_marks {cs ps : List Char} (h : ∀ c ∈ ps, Mark c) : Ungrouped false cs ps ↔ cs = ps := by
  induction ps generalizing cs with
  | nil =>
    constructor
    · intro h
      cases h
      rfl
    · rintro rfl
      exact .nil
  | cons c ps ih =>
    obtain ⟨hc, hps⟩ := List.forall_mem_cons.mp h
    simp only [ungrouped_mark_cons hc, ih hps, exists_eq_right]

theorem mark_of_ascii {c : Char} (hc : c.toNat < 0x80) (hd : isDigit c = false) (hu : c ≠ '_') : Mark c := by
  have hzeros : ∀ z ∈ zeros, 0x80 ≤ z := by decide
  refine ⟨toAscii_of_not_isDecimal ?_, hd, hu⟩
  rintro v ⟨hv, z, hz, hcz⟩
  rcases List.mem_cons.mp hz with rfl | hz
  · rw [isDigit_iff.mpr ⟨by omega, by omega⟩] at hd
    cases hd
  · have := hzeros z hz
    omega

theorem mark_point : Mark '.' := mark_of_ascii (by decide) (by decide) (by decide)

theorem mark_plus : Mark '+' := mark_of_ascii (by decide) (by decide) (by decide)

theorem mark_minus : Mark '-' := mark_of_ascii (by decide) (by decide) (by decide)

theorem mark_exponent {c : Char} (h : c ∈ ['e', 'E']) : Mark c := by
  have hall : ∀ c ∈ ['e', 'E'], c.toNat < 0x80 ∧ isDigit c = false ∧ c ≠ '_' := by simp [isDigit]
  obtain ⟨hc, hd, hu⟩ := hall c h
  exact mark_of_ascii hc hd hu

/-- The letters of a word are marks in any case. -/
theorem marks_of_word {cs w : List Char} (hw : ∀ c ∈ w, 'a' ≤ c ∧ c ≤ 'z') (h : cs.map Char.toLower = w) :
    ∀ c ∈ cs, Mark c := by
  intro c hc
  have hletter : 0x41 ≤ c.toNat ∧ c.toNat ≤ 0x5A ∨ 0x61 ≤ c.toNat ∧ c.toNat ≤ 0x7A := letters_of_word hw h c hc
  have hten : '0'.toNat + 10 = 0x3A := rfl
  refine mark_of_ascii (by omega) ?_ ?_
  · rw [← Bool.not_eq_true, isDigit_iff]
    omega
  · rintro rfl
    revert hletter
    decide

/-! ## Digits of the environment -/

theorem AsciiDigits.cons {d : Char} {ds : List Char} {n k : Nat} (hd : isDigit d = true) (h : AsciiDigits ds n k) :
    AsciiDigits (d :: ds) (value d * 10 ^ k + n) (k + 1) where
  ne_nil := List.cons_ne_nil d ds
  digits := List.forall_mem_cons.mpr ⟨hd, h.digits⟩
  value_eq := by rw [number_cons, h.value_eq, h.length_eq]
  length_eq := by rw [List.length_cons, h.length_eq]

/-- Behind a digit, an underscore may stand in front of the next one. -/
theorem Ungrouped.underscore {d : Char} {cs ds : List Char} (hd : isDigit d = true) (h : Ungrouped false cs (d :: ds)) :
    Ungrouped true ('_' :: cs) (d :: ds) := by
  cases h with
  | keep hc _ h => exact .skip hc hd (hd ▸ h)

theorem GroupedDigits.ungrouped {cs : List Char} {n k : Nat} (h : GroupedDigits cs n k) :
    ∃ ds, Ungrouped false cs ds ∧ AsciiDigits ds n k := by
  have hne : ∀ {d : Char}, isDigit d = true → d ≠ '_' := by
    rintro d hd rfl
    cases hd
  induction h with
  | last hc =>
    obtain ⟨hd, rfl⟩ := isDecimal_iff.mp hc
    refine ⟨[_], .keep rfl (hne hd) .nil, ?_⟩
    exact ⟨List.cons_ne_nil _ _, List.forall_mem_singleton.mpr hd, by simp [number], rfl⟩
  | next hc _ ih =>
    obtain ⟨hd, rfl⟩ := isDecimal_iff.mp hc
    obtain ⟨ds, hds, hdigits⟩ := ih
    exact ⟨_, .keep rfl (hne hd) hds.mono, hdigits.cons hd⟩
  | grouped hc _ ih =>
    obtain ⟨hd, rfl⟩ := isDecimal_iff.mp hc
    obtain ⟨ds, hds, hdigits⟩ := ih
    obtain ⟨e, es, rfl⟩ := List.exists_cons_of_ne_nil hdigits.ne_nil
    refine ⟨_, .keep rfl (hne hd) ?_, hdigits.cons hd⟩
    rw [hd]
    exact hds.underscore (hdigits.digits e List.mem_cons_self)

/-- A digit in front of what is grouped by itself or behind an underscore. -/
theorem groupedDigits_cons {c d : Char} {cs ps : List Char} (hc : toAscii c = d) (hd : isDigit d = true)
    (h : Ungrouped true cs ps)
    (hgrouped : ps ≠ [] → GroupedDigits cs (number ps) ps.length ∨
      ∃ rest, cs = '_' :: rest ∧ GroupedDigits rest (number ps) ps.length) :
    GroupedDigits (c :: cs) (number (d :: ps)) (d :: ps).length := by
  have hdecimal : IsDecimal c (value d) := isDecimal_iff.mpr (by rw [hc]; exact ⟨hd, rfl⟩)
  rw [number_cons]
  by_cases hps : ps = []
  · subst hps
    cases h
    simpa [number] using GroupedDigits.last hdecimal
  · rcases hgrouped hps with hcs | ⟨rest, rfl, hrest⟩
    · exact .next hdecimal hcs
    · exact .grouped hdecimal hrest

/-- Where nothing but digits is left, they were grouped. Behind a digit, an underscore may be in
front of them. -/
theorem Ungrouped.groupedDigits {before : Bool} {cs ds : List Char} (h : Ungrouped before cs ds) (hne : ds ≠ [])
    (hd : ∀ d ∈ ds, isDigit d = true) :
    GroupedDigits cs (number ds) ds.length ∨
      before = true ∧ ∃ rest, cs = '_' :: rest ∧ GroupedDigits rest (number ds) ds.length := by
  induction h with
  | nil => exact absurd rfl hne
  | keep hc _ h ih =>
    obtain ⟨hd, hrest⟩ := List.forall_mem_cons.mp hd
    rw [hd] at h
    exact Or.inl (groupedDigits_cons hc hd h fun hps => (ih hps hrest).imp_right And.right)
  | skip hc _ h ih =>
    obtain ⟨hd, hrest⟩ := List.forall_mem_cons.mp hd
    exact Or.inr ⟨rfl, _, rfl, groupedDigits_cons hc hd h fun hps => (ih hps hrest).imp_right And.right⟩

/-- The digits of the environment are ASCII digits once the underscores are out. -/
theorem groupedDigits_iff {cs : List Char} {n k : Nat} :
    GroupedDigits cs n k ↔ ∃ ds, Ungrouped false cs ds ∧ AsciiDigits ds n k := by
  constructor
  · exact GroupedDigits.ungrouped
  · rintro ⟨ds, h, hne, hd, rfl, rfl⟩
    rcases h.groupedDigits hne hd with h | ⟨hfalse, -⟩
    · exact h
    · cases hfalse

/-! ## Literals of the environment -/

theorem mantissa_groupedDigits_iff {cs : List Char} {c p : Nat} :
    Mantissa GroupedDigits cs c p ↔ ∃ ps, Ungrouped false cs ps ∧ Mantissa AsciiDigits ps c p := by
  constructor
  · intro h
    cases h with
    | whole h =>
      obtain ⟨ds, hds, hdigits⟩ := groupedDigits_iff.mp h
      exact ⟨ds, hds, .whole hdigits⟩
    | pointBehind h =>
      obtain ⟨ds, hds, hdigits⟩ := groupedDigits_iff.mp h
      exact ⟨ds ++ ['.'], hds.append (Ungrouped.nil.mark mark_point), .pointBehind hdigits⟩
    | pointBefore h =>
      obtain ⟨ds, hds, hdigits⟩ := groupedDigits_iff.mp h
      exact ⟨'.' :: ds, hds.mark mark_point, .pointBefore hdigits⟩
    | pointBetween h h' =>
      obtain ⟨ds, hds, hdigits⟩ := groupedDigits_iff.mp h
      obtain ⟨es, hes, hdigits'⟩ := groupedDigits_iff.mp h'
      exact ⟨ds ++ '.' :: es, hds.append (hes.mark mark_point), .pointBetween hdigits hdigits'⟩
  · rintro ⟨ps, hps, h⟩
    have hpoint : ∀ {qs : List Char}, ∀ c ∈ ('.' :: qs).head?, Mark c := by
      rintro qs c hc
      exact Option.some.inj hc ▸ mark_point
    cases h with
    | whole h => exact .whole (groupedDigits_iff.mpr ⟨ps, hps, h⟩)
    | pointBehind h =>
      obtain ⟨as, rest, rfl, has, hrest⟩ := (ungrouped_append_iff hpoint).mp hps
      obtain ⟨tail, rfl, htail⟩ := (ungrouped_mark_cons mark_point).mp hrest
      cases htail
      exact .pointBehind (groupedDigits_iff.mpr ⟨_, has, h⟩)
    | pointBefore h =>
      obtain ⟨tail, rfl, htail⟩ := (ungrouped_mark_cons mark_point).mp hps
      exact .pointBefore (groupedDigits_iff.mpr ⟨_, htail, h⟩)
    | pointBetween h h' =>
      obtain ⟨as, rest, rfl, has, hrest⟩ := (ungrouped_append_iff hpoint).mp hps
      obtain ⟨tail, rfl, htail⟩ := (ungrouped_mark_cons mark_point).mp hrest
      exact .pointBetween (groupedDigits_iff.mpr ⟨_, has, h⟩) (groupedDigits_iff.mpr ⟨_, htail, h'⟩)

theorem power_groupedDigits_iff {cs : List Char} {e : Int} :
    Power GroupedDigits cs e ↔ ∃ ps, Ungrouped false cs ps ∧ Power AsciiDigits ps e := by
  constructor
  · intro h
    cases h with
    | none => exact ⟨[], .nil, .none⟩
    | plain hm h =>
      obtain ⟨ds, hds, hdigits⟩ := groupedDigits_iff.mp h
      exact ⟨_ :: ds, hds.mark (mark_exponent hm), .plain hm hdigits⟩
    | plus hm h =>
      obtain ⟨ds, hds, hdigits⟩ := groupedDigits_iff.mp h
      exact ⟨_ :: '+' :: ds, (hds.mark mark_plus).mark (mark_exponent hm), .plus hm hdigits⟩
    | minus hm h =>
      obtain ⟨ds, hds, hdigits⟩ := groupedDigits_iff.mp h
      exact ⟨_ :: '-' :: ds, (hds.mark mark_minus).mark (mark_exponent hm), .minus hm hdigits⟩
  · rintro ⟨ps, hps, h⟩
    cases h with
    | none =>
      cases hps
      exact .none
    | plain hm h =>
      obtain ⟨rest, rfl, hrest⟩ := (ungrouped_mark_cons (mark_exponent hm)).mp hps
      exact .plain hm (groupedDigits_iff.mpr ⟨_, hrest, h⟩)
    | plus hm h =>
      obtain ⟨rest, rfl, hrest⟩ := (ungrouped_mark_cons (mark_exponent hm)).mp hps
      obtain ⟨tail, rfl, htail⟩ := (ungrouped_mark_cons mark_plus).mp hrest
      exact .plus hm (groupedDigits_iff.mpr ⟨_, htail, h⟩)
    | minus hm h =>
      obtain ⟨rest, rfl, hrest⟩ := (ungrouped_mark_cons (mark_exponent hm)).mp hps
      obtain ⟨tail, rfl, htail⟩ := (ungrouped_mark_cons mark_minus).mp hrest
      exact .minus hm (groupedDigits_iff.mpr ⟨_, htail, h⟩)

theorem unsigned_groupedDigits_iff {cs : List Char} {m : Magnitude} :
    Unsigned GroupedDigits cs m ↔ ∃ ps, Ungrouped false cs ps ∧ Unsigned AsciiDigits ps m := by
  constructor
  · intro h
    cases h with
    | number hc he =>
      obtain ⟨ps, hps, hc⟩ := mantissa_groupedDigits_iff.mp hc
      obtain ⟨qs, hqs, he⟩ := power_groupedDigits_iff.mp he
      exact ⟨ps ++ qs, hps.append hqs, .number hc he⟩
    | infinity hw =>
      exact ⟨cs, (ungrouped_of_marks (marks_of_word (word_letters.1 _ hw) rfl)).mpr rfl, .infinity hw⟩
    | notNumber hw => exact ⟨cs, (ungrouped_of_marks (marks_of_word word_letters.2 hw)).mpr rfl, .notNumber hw⟩
  · rintro ⟨ps, hps, h⟩
    cases h with
    | number hc he =>
      obtain ⟨as, rest, rfl, has, hrest⟩ := (ungrouped_append_iff fun c h => mark_exponent (he.head c h)).mp hps
      exact .number (mantissa_groupedDigits_iff.mpr ⟨_, has, hc⟩) (power_groupedDigits_iff.mpr ⟨_, hrest, he⟩)
    | infinity hw =>
      obtain rfl := (ungrouped_of_marks (marks_of_word (word_letters.1 _ hw) rfl)).mp hps
      exact .infinity hw
    | notNumber hw =>
      obtain rfl := (ungrouped_of_marks (marks_of_word word_letters.2 hw)).mp hps
      exact .notNumber hw

/-- What is spelled in the environment is what its characters spell once the underscores are out. -/
theorem spells_groupedDigits_iff {cs : List Char} {negative : Bool} {m : Magnitude} :
    Spells GroupedDigits cs negative m ↔ ∃ ps, Ungrouped false cs ps ∧ Spells AsciiDigits ps negative m := by
  constructor
  · intro h
    cases h with
    | plain h =>
      obtain ⟨ps, hps, h⟩ := unsigned_groupedDigits_iff.mp h
      exact ⟨ps, hps, .plain h⟩
    | plus h =>
      obtain ⟨ps, hps, h⟩ := unsigned_groupedDigits_iff.mp h
      exact ⟨'+' :: ps, hps.mark mark_plus, .plus h⟩
    | minus h =>
      obtain ⟨ps, hps, h⟩ := unsigned_groupedDigits_iff.mp h
      exact ⟨'-' :: ps, hps.mark mark_minus, .minus h⟩
  · rintro ⟨ps, hps, h⟩
    cases h with
    | plain h => exact .plain (unsigned_groupedDigits_iff.mpr ⟨ps, hps, h⟩)
    | plus h =>
      obtain ⟨rest, rfl, hrest⟩ := (ungrouped_mark_cons mark_plus).mp hps
      exact .plus (unsigned_groupedDigits_iff.mpr ⟨_, hrest, h⟩)
    | minus h =>
      obtain ⟨rest, rfl, hrest⟩ := (ungrouped_mark_cons mark_minus).mp hps
      exact .minus (unsigned_groupedDigits_iff.mpr ⟨_, hrest, h⟩)

/-- The environment's reader takes what spells a number between blanks, and gives that number
rounded. -/
theorem ofEnvironment?_eq_some_iff {cs : List Char} {x : Binary64} : ofEnvironment? cs = some x ↔
    ∃ negative m, Spells GroupedDigits (Blank.trim cs) negative m ∧ x = m.rounded negative := by
  rw [ofEnvironment?, Option.bind_eq_some_iff]
  constructor
  · rintro ⟨ps, hps, h⟩
    obtain ⟨negative, m, hm, rfl⟩ := literal?_eq_some_iff.mp h
    exact ⟨negative, m, spells_groupedDigits_iff.mpr ⟨ps, ungroup?_eq_some_iff.mp hps, hm⟩, rfl⟩
  · rintro ⟨negative, m, h, rfl⟩
    obtain ⟨ps, hps, hm⟩ := spells_groupedDigits_iff.mp h
    exact ⟨ps, ungroup?_eq_some_iff.mpr hps, literal?_eq_some_iff.mpr ⟨negative, m, hm, rfl⟩⟩

end AgentBridge.Binary64
