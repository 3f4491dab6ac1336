import AgentBridge.Text.Pattern

/-
  AgentBridge.Proofs.Patterns — what it means that a pattern fits.

  A pattern fits the front of a text and leaves a rest by rules that do not say in which order
  anything is tried (`Fits`). Trying one way after the other finds exactly the rests that these
  rules allow (`mem_rests_iff`, by induction on the pattern): a round that takes nothing leads
  nowhere, so a repetition that leaves it out misses no rest (`Rounds.exists_taking`). From this
  follows when a text fits at all (`accepts_iff`). What rounds take that all have one form is told
  by `rounds_flatMap_iff`, and what a repeated class of characters takes by
  `fits_repeated_one_iff`.
-/

namespace AgentBridge.Pattern

/-! ## Rounds -/

/-- So many rounds of a step, each on what the one before it has left. -/
inductive Rounds (R : List Char → List Char → Prop) : Nat → List Char → List Char → Prop
  | nil (cs : List Char) : Rounds R 0 cs cs
  | cons {n : Nat} {cs mid rest : List Char} : R cs mid → Rounds R n mid rest → Rounds R (n + 1) cs rest

section

variable {R S : List Char → List Char → Prop} {cs mid rest : List Char}

@[simp] theorem rounds_zero_iff : Rounds R 0 cs rest ↔ rest = cs := by
  constructor
  · intro h
    cases h
    rfl
  · intro h
    rw [h]
    exact .nil cs

theorem rounds_succ_iff {n : Nat} : Rounds R (n + 1) cs rest ↔ ∃ mid, R cs mid ∧ Rounds R n mid rest := by
  constructor
  · intro h
    cases h with
    | cons hstep hrest => exact ⟨_, hstep, hrest⟩
  · intro h
    obtain ⟨mid, hstep, hrest⟩ := h
    exact .cons hstep hrest

theorem rounds_add_iff {m n : Nat} :
    Rounds R (m + n) cs rest ↔ ∃ mid, Rounds R m cs mid ∧ Rounds R n mid rest := by
  induction m generalizing cs with
  | zero => simp
  | succ m ih =>
    rw [Nat.add_right_comm, rounds_succ_iff]
    constructor
    · intro h
      obtain ⟨next, hstep, h⟩ := h
      obtain ⟨mid, hm, hn⟩ := ih.mp h
      exact ⟨mid, .cons hstep hm, hn⟩
    · intro h
      obtain ⟨mid, hm, hn⟩ := h
      obtain ⟨next, hstep, hm⟩ := rounds_succ_iff.mp hm
      exact ⟨next, hstep, ih.mpr ⟨mid, hm, hn⟩⟩

/-- Rounds of which each takes a part of a certain form take such parts one behind the other. -/
theorem rounds_flatMap_iff {α : Type} {form : α → List Char} {P : α → Prop}
    (hstep : ∀ a b, R a b ↔ ∃ x, a = form x ++ b ∧ P x) {n : Nat} :
    Rounds R n cs rest ↔ ∃ parts : List α, cs = parts.flatMap form ++ rest ∧ parts.length = n ∧ ∀ x ∈ parts, P x := by
  induction n generalizing cs with
  | zero =>
    rw [rounds_zero_iff]
    constructor
    · intro h
      exact ⟨[], h.symm, rfl, List.forall_mem_nil _⟩
    · intro h
      obtain ⟨parts, hcs, hlength, -⟩ := h
      rw [hcs, List.length_eq_zero_iff.mp hlength]
      rfl
  | succ n ih =>
    rw [rounds_succ_iff]
    constructor
    · intro h
      obtain ⟨mid, hround, hrounds⟩ := h
      obtain ⟨x, hcs, hx⟩ := (hstep cs mid).mp hround
      obtain ⟨parts, hmid, hlength, hparts⟩ := ih.mp hrounds
      refine ⟨x :: parts, ?_, congrArg (· + 1) hlength, List.forall_mem_cons.mpr ⟨hx, hparts⟩⟩
      rw [hcs, hmid, List.flatMap_cons, List.append_assoc]
    · intro h
      obtain ⟨parts, hcs, hlength, hparts⟩ := h
      obtain ⟨x, parts, rfl⟩ := List.exists_cons_of_length_eq_add_one hlength
      obtain ⟨hx, hparts⟩ := List.forall_mem_cons.mp hparts
      refine ⟨parts.flatMap form ++ rest, (hstep _ _).mpr ⟨x, ?_, hx⟩, ih.mpr ⟨parts, rfl, Nat.succ.inj hlength, hparts⟩⟩
      rw [hcs, List.flatMap_cons, List.append_assoc]

theorem Rounds.mono {n : Nat} (h : Rounds R n cs rest) (hRS : ∀ a b, R a b → S a b) : Rounds S n cs rest := by
  induction h with
  | nil cs => exact .nil cs
  | cons hstep _ ih => exact .cons (hRS _ _ hstep) ih

theorem Rounds.suffix {n : Nat} (h : Rounds R n cs rest) (hR : ∀ a b, R a b → b <:+ a) : rest <:+ cs := by
  induction h with
  | nil cs => exact List.suffix_refl cs
  | cons hstep _ ih => exact ih.trans (hR _ _ hstep)

/-- The step, where it takes something. -/
def Taking (R : List Char → List Char → Prop) (a b : List Char) : Prop := R a b ∧ b.length < a.length

/-- Rounds that take nothing can be left out. -/
theorem Rounds.exists_taking {n : Nat} (h : Rounds R n cs rest) (hR : ∀ a b, R a b → b <:+ a) :
    ∃ k ≤ n, Rounds (Taking R) k cs rest := by
  induction h with
  | nil cs => exact ⟨0, Nat.le_refl 0, .nil cs⟩
  | @cons n cs mid rest hstep _ ih =>
    obtain ⟨k, hk, hrounds⟩ := ih
    have hsuffix := hR cs mid hstep
    by_cases hlength : mid.length < cs.length
    · exact ⟨k + 1, Nat.succ_le_succ hk, .cons ⟨hstep, hlength⟩ hrounds⟩
    · have hsame : mid = cs := hsuffix.eq_of_length_le (Nat.le_of_not_lt hlength)
      rw [hsame] at hrounds
      exact ⟨k, Nat.le_succ_of_le hk, hrounds⟩

end

section

variable {step : List Char → List (List Char)} {cs rest : List Char}

theorem mem_exactly_iff {n : Nat} : rest ∈ exactly step n cs ↔ Rounds (fun a b => b ∈ step a) n cs rest := by
  induction n generalizing cs with
  | zero => simp [exactly]
  | succ n ih =>
    rw [exactly, List.mem_flatMap, rounds_succ_iff]
    exact exists_congr fun mid => and_congr_right fun _ => ih

/-- With as many rounds allowed as there are characters, what is left is what rounds that take something leave. -/
theorem mem_upTo_iff {fuel : Nat} {most : Option Nat} (hfuel : cs.length ≤ fuel) :
    rest ∈ upTo step fuel most cs ↔
      ∃ n, (∀ m ∈ most, n ≤ m) ∧ Rounds (Taking fun a b => b ∈ step a) n cs rest := by
  induction fuel generalizing most cs with
  | zero =>
    rw [upTo, List.mem_singleton]
    constructor
    · intro h
      rw [h]
      exact ⟨0, fun m _ => Nat.zero_le m, .nil cs⟩
    · intro h
      obtain ⟨n, -, hrounds⟩ := h
      cases hrounds with
      | nil => rfl
      | cons hstep _ => exact absurd (Nat.lt_of_lt_of_le hstep.2 hfuel) (Nat.not_lt_zero _)
  | succ fuel ih =>
    have hmore : ∀ {mid : List Char}, mid.length < cs.length → mid.length ≤ fuel :=
      fun h => Nat.le_of_lt_succ (Nat.lt_of_lt_of_le h hfuel)
    rw [upTo]
    split
    · rename_i hzero
      rw [List.mem_singleton, hzero]
      simp
    · rename_i hpositive
      simp only [List.mem_append, List.mem_flatMap, List.mem_filter, decide_eq_true_eq, List.mem_singleton]
      constructor
      · intro h
        rcases h with ⟨mid, hstep, hmid⟩ | h
        · obtain ⟨n, hn, hrounds⟩ := (ih (hmore hstep.2)).mp hmid
          refine ⟨n + 1, fun m hm => ?_, .cons hstep hrounds⟩
          have hpred := hn (m - 1) (by rw [Option.mem_def.mp hm]; rfl)
          have hne : m ≠ 0 := fun hm0 => hpositive (hm0 ▸ hm)
          omega
        · rw [h]
          exact ⟨0, fun m _ => Nat.zero_le m, .nil cs⟩
      · intro h
        obtain ⟨n, hn, hrounds⟩ := h
        cases hrounds with
        | nil => exact Or.inr rfl
        | @cons n _ mid _ hstep hrounds =>
          refine Or.inl ⟨mid, hstep, (ih (hmore hstep.2)).mpr ⟨n, fun m hm => ?_, hrounds⟩⟩
          obtain ⟨m', hm', rfl⟩ := Option.map_eq_some_iff.mp hm
          have hle := hn m' hm'
          omega

end

/-! ## Patterns -/

/-- A pattern fits the front of a text and leaves a rest of it. -/
def Fits : Pattern → List Char → List Char → Prop
  | .one isIn, cs, rest => ∃ c, cs = c :: rest ∧ isIn c = true
  | .next first second, cs, rest => ∃ mid, Fits first cs mid ∧ Fits second mid rest
  | .repeated times p, cs, rest =>
    ∃ n, times.least ≤ n ∧ (∀ m ∈ times.most, n ≤ m) ∧ Rounds (fun a b => Fits p a b) n cs rest
  | .ahead p, cs, rest => rest = cs ∧ ∃ behind, Fits p cs behind
  | .notAhead p, cs, rest => rest = cs ∧ ∀ behind, ¬ Fits p cs behind
  | .finish, cs, rest => rest = cs ∧ (cs = [] ∨ cs = ['\n'])

/-- What is left stands at the end of the text. -/
theorem Fits.suffix {p : Pattern} {cs rest : List Char} (h : p.Fits cs rest) : rest <:+ cs := by
  induction p generalizing cs rest with
  | one isIn =>
    obtain ⟨c, hcs, -⟩ := h
    rw [hcs]
    exact List.suffix_cons c rest
  | next first second ihFirst ihSecond =>
    obtain ⟨mid, hfirst, hsecond⟩ := h
    exact (ihSecond hsecond).trans (ihFirst hfirst)
  | repeated times p ih =>
    obtain ⟨n, -, -, hrounds⟩ := h
    exact hrounds.suffix fun a b hab => ih hab
  | ahead p _ =>
    obtain ⟨rfl, -⟩ := h
    exact List.suffix_refl rest
  | notAhead p _ =>
    obtain ⟨rfl, -⟩ := h
    exact List.suffix_refl rest
  | finish =>
    obtain ⟨rfl, -⟩ := h
    exact List.suffix_refl rest

/-- A repetition leaves what the rounds that have to be leave, and then some that take something. -/
theorem fits_repeated_iff {times : Times} {p : Pattern} {cs rest : List Char} :
    (Pattern.repeated times p).Fits cs rest ↔ ∃ mid, Rounds (fun a b => p.Fits a b) times.least cs mid ∧
      ∃ k, (∀ m ∈ times.most.map (· - times.least), k ≤ m) ∧ Rounds (Taking fun a b => p.Fits a b) k mid rest := by
  constructor
  · intro h
    obtain ⟨n, hleast, hmost, hrounds⟩ := h
    obtain ⟨extra, rfl⟩ := Nat.exists_eq_add_of_le hleast
    obtain ⟨mid, hfirst, hrounds⟩ := rounds_add_iff.mp hrounds
    obtain ⟨k, hk, htaking⟩ := hrounds.exists_taking fun a b hab => Fits.suffix hab
    refine ⟨mid, hfirst, k, fun m hm => ?_, htaking⟩
    obtain ⟨m', hm', rfl⟩ := Option.map_eq_some_iff.mp hm
    have hle := hmost m' hm'
    omega
  · intro h
    obtain ⟨mid, hfirst, k, hk, htaking⟩ := h
    refine ⟨times.least + k, Nat.le_add_right _ _, fun m hm => ?_, ?_⟩
    · have hle := hk (m - times.least) (Option.map_eq_some_iff.mpr ⟨m, hm, rfl⟩)
      have hordered := times.ordered m hm
      omega
    · exact rounds_add_iff.mpr ⟨mid, hfirst, htaking.mono fun a b hab => hab.1⟩

/-- Trying all ways finds what fits, and nothing else. -/
theorem mem_rests_iff {p : Pattern} {cs rest : List Char} : rest ∈ p.rests cs ↔ p.Fits cs rest := by
  induction p generalizing cs rest with
  | one isIn =>
    cases cs with
    | nil => simp [rests, Fits]
    | cons c cs =>
      rw [rests, Fits]
      split
      · rename_i hc
        rw [List.mem_singleton]
        constructor
        · intro h
          exact ⟨c, by rw [h], hc⟩
        · intro h
          obtain ⟨d, hcs, -⟩ := h
          exact (List.cons.inj hcs).2.symm
      · rename_i hc
        constructor
        · intro h
          cases h
        · intro h
          obtain ⟨d, hcs, hd⟩ := h
          rw [(List.cons.inj hcs).1] at hc
          exact absurd hd hc
  | next first second ihFirst ihSecond =>
    rw [rests, List.mem_flatMap, Fits]
    exact exists_congr fun mid => and_congr ihFirst ihSecond
  | repeated times p ih =>
    have hstep : (fun a b => b ∈ p.rests a) = fun a b => p.Fits a b := by
      funext a b
      exact propext ih
    rw [rests, List.mem_flatMap, fits_repeated_iff]
    refine exists_congr fun mid => ?_
    rw [mem_exactly_iff, mem_upTo_iff (Nat.le_refl _), hstep]
  | ahead p ih =>
    have hany : (p.rests cs).isEmpty = false ↔ ∃ behind, p.Fits cs behind := by
      simp only [List.isEmpty_eq_false_iff_exists_mem, ih]
    rw [rests, Fits, ← hany]
    cases (p.rests cs).isEmpty with
    | true => simp
    | false => simp
  | notAhead p ih =>
    have hnone : (p.rests cs).isEmpty = true ↔ ∀ behind, ¬ p.Fits cs behind := by
      simp only [List.isEmpty_iff, List.eq_nil_iff_forall_not_mem, ih]
    rw [rests, Fits, ← hnone]
    cases (p.rests cs).isEmpty with
    | true => simp
    | false => simp
  | finish =>
    rw [rests, Fits]
    split
    · simp_all
    · simp_all

theorem accepts_iff {p : Pattern} {cs : List Char} : p.accepts cs = true ↔ ∃ rest, p.Fits cs rest := by
  rw [accepts, Bool.not_eq_true', List.isEmpty_eq_false_iff_exists_mem]
  exact exists_congr fun rest => mem_rests_iff

/-! ## Classes of characters -/

theorem rounds_one_iff {isIn : Char → Bool} {n : Nat} {cs rest : List Char} :
    Rounds (fun a b => (Pattern.one isIn).Fits a b) n cs rest ↔
      ∃ part, cs = part ++ rest ∧ part.length = n ∧ ∀ c ∈ part, isIn c = true := by
  have hstep : ∀ a b, (Pattern.one isIn).Fits a b ↔ ∃ c, a = [c] ++ b ∧ isIn c = true := fun _ _ => Iff.rfl
  rw [rounds_flatMap_iff hstep]
  simp only [List.flatMap_singleton']

/-- A repeated class takes a part with only its characters, of a length that is allowed. -/
theorem fits_repeated_one_iff {times : Times} {isIn : Char → Bool} {cs rest : List Char} :
    (Pattern.repeated times (.one isIn)).Fits cs rest ↔ ∃ part, cs = part ++ rest ∧
      (∀ c ∈ part, isIn c = true) ∧ times.least ≤ part.length ∧ ∀ m ∈ times.most, part.length ≤ m := by
  simp only [Fits.eq_def (.repeated times (.one isIn)), rounds_one_iff]
  constructor
  · intro h
    obtain ⟨n, hleast, hmost, part, hcs, rfl, hpart⟩ := h
    exact ⟨part, hcs, hpart, hleast, hmost⟩
  · intro h
    obtain ⟨part, hcs, hpart, hleast, hmost⟩ := h
    exact ⟨part.length, hleast, hmost, part, hcs, rfl, hpart⟩

end AgentBridge.Pattern
