import AgentBridge.Proofs.Grammar

/-
  AgentBridge.Proofs.Standard — exactly which written texts are standard.

  A text can be taken apart into its strings and what stands outside them (`outside`), and both
  the rules of the grammar and the writer put texts together from parts that end outside their
  strings (`Exposes`). Outside the strings of a standard text there is no `N` and no `I`
  (`exposes_of_derives`), and outside those of a written text stands every floating-point number
  of the value (`exposes_of_writeAt`). So a written text is standard exactly if all of them are
  finite (`standard_iff`).
-/

namespace AgentBridge.Json

open Digit (isDigit Whole)

/-! ## Outside the strings -/

/-- Where a character of a text stands: outside the strings, inside one, or behind a backslash inside one. -/
inductive Place where
  | outside
  | inside
  | escaped

/-- The place behind a character. -/
def Place.next : Place → Char → Place
  | .outside, c => if c = '"' then .inside else .outside
  | .inside, c => if c = '"' then .outside else if c = '\\' then .escaped else .inside
  | .escaped, _ => .inside

def Place.after (p : Place) (cs : List Char) : Place := cs.foldl Place.next p

/-- The characters that stand outside the strings, without the quotes. -/
def outsideFrom : Place → List Char → List Char
  | _, [] => []
  | .outside, c :: cs => if c = '"' then outsideFrom .inside cs else c :: outsideFrom .outside cs
  | p, c :: cs => outsideFrom (p.next c) cs

def outside (cs : List Char) : List Char := outsideFrom .outside cs

theorem outsideFrom_append (p : Place) (a b : List Char) :
    outsideFrom p (a ++ b) = outsideFrom p a ++ outsideFrom (p.after a) b := by
  induction a generalizing p with
  | nil => cases p <;> rfl
  | cons c a ih =>
    cases p with
    | outside =>
      by_cases hc : c = '"'
      · simp [outsideFrom, Place.after, Place.next, hc, ih]
      · simp [outsideFrom, Place.after, Place.next, hc, ih]
    | inside => simp [outsideFrom, Place.after, ih]
    | escaped => simp [outsideFrom, Place.after, ih]

theorem Place.after_append (p : Place) (a b : List Char) : p.after (a ++ b) = (p.after a).after b :=
  List.foldl_append

/-- A text ends outside its strings, and this is what stands outside them. -/
structure Exposes (t bare : List Char) : Prop where
  ends : Place.after .outside t = .outside
  shows : outside t = bare

theorem Exposes.append {a b bareA bareB : List Char} (ha : Exposes a bareA) (hb : Exposes b bareB) :
    Exposes (a ++ b) (bareA ++ bareB) where
  ends := by rw [Place.after_append, ha.ends, hb.ends]
  shows := by
    rw [outside, outsideFrom_append, ha.ends]
    exact congrArg₂ (· ++ ·) ha.shows hb.shows

/-- Without a quote there are no strings. -/
theorem exposes_self {t : List Char} (h : '"' ∉ t) : Exposes t t := by
  induction t with
  | nil => exact ⟨rfl, rfl⟩
  | cons c t ih =>
    obtain ⟨hc, ht⟩ := not_or.mp (mt List.mem_cons.mpr h)
    have hone : Exposes [c] [c] := by
      have hne : c ≠ '"' := Ne.symm hc
      exact ⟨by simp [Place.after, Place.next, hne], by simp [outside, outsideFrom, hne]⟩
    exact hone.append (ih ht)

theorem after_inside_of_hex {ds : List Char} (h : ∀ d ∈ ds, (Hex.value? d).isSome = true) :
    Place.after .inside ds = .inside ∧ outsideFrom .inside ds = [] := by
  induction ds with
  | nil => exact ⟨rfl, rfl⟩
  | cons d ds ih =>
    obtain ⟨hd, hds⟩ := List.forall_mem_cons.mp h
    obtain ⟨hafter, hbare⟩ := ih hds
    have hquote : d ≠ '"' := by
      rintro rfl
      revert hd
      decide
    have hbackslash : d ≠ '\\' := by
      rintro rfl
      revert hd
      decide
    have hnext : Place.next .inside d = .inside := by simp [Place.next, hquote, hbackslash]
    constructor
    · rw [Place.after, List.foldl_cons, hnext]
      exact hafter
    · rw [outsideFrom, hnext]
      · exact hbare
      · intro hp
        cases hp

/-- A piece of a string stays inside it. -/
theorem after_inside_of_piece {p : List Char} (h : Piece p) :
    Place.after .inside p = .inside ∧ outsideFrom .inside p = [] := by
  cases h with
  | char hspace hquote hbackslash =>
    simp [Place.after, Place.next, outsideFrom, hquote, hbackslash]
  | letter hc => simp [Place.after, Place.next, outsideFrom]
  | unit hlength hd =>
    obtain ⟨hafter, hbare⟩ := after_inside_of_hex hd
    exact ⟨hafter, hbare⟩

theorem after_inside_of_pieces {t : List Char} (h : Pieces t) :
    Place.after .inside t = .inside ∧ outsideFrom .inside t = [] := by
  induction h with
  | nil => exact ⟨rfl, rfl⟩
  | cons hp _ ih =>
    obtain ⟨hafter, hbare⟩ := after_inside_of_piece hp
    rw [Place.after_append, outsideFrom_append, hafter, hbare]
    exact ih

/-- Of a string nothing stands outside. -/
theorem exposes_quoted {t : List Char} (h : Quoted t) : Exposes t [] := by
  rcases h with ⟨hpieces⟩
  obtain ⟨hafter, hbare⟩ := after_inside_of_pieces hpieces
  constructor
  · rw [Place.after_append]
    show Place.after (Place.after .inside _) ['"'] = .outside
    rw [hafter]
    rfl
  · rw [outside, outsideFrom_append]
    show outsideFrom .inside _ ++ outsideFrom (Place.after .inside _) ['"'] = []
    rw [hbare, hafter]
    rfl

/-! ## Standard texts -/

/-- A text without strings, and without a character that begins the word of a number. -/
def Plain (t : List Char) : Prop := '"' ∉ t ∧ 'N' ∉ t ∧ 'I' ∉ t

instance (t : List Char) : Decidable (Plain t) := inferInstanceAs (Decidable (_ ∧ _ ∧ _))

/-- A text ends outside its strings, and there no character begins the word of a number. -/
def Quiet (t : List Char) : Prop := ∃ bare, Exposes t bare ∧ 'N' ∉ bare ∧ 'I' ∉ bare

theorem not_mem_append {c : Char} {a b : List Char} (ha : c ∉ a) (hb : c ∉ b) : c ∉ a ++ b :=
  fun h => (List.mem_append.mp h).elim ha hb

theorem Plain.append {a b : List Char} (ha : Plain a) (hb : Plain b) : Plain (a ++ b) :=
  ⟨not_mem_append ha.1 hb.1, not_mem_append ha.2.1 hb.2.1, not_mem_append ha.2.2 hb.2.2⟩

theorem Quiet.append {a b : List Char} (ha : Quiet a) (hb : Quiet b) : Quiet (a ++ b) := by
  obtain ⟨bareA, hbareA, hnA, hiA⟩ := ha
  obtain ⟨bareB, hbareB, hnB, hiB⟩ := hb
  exact ⟨bareA ++ bareB, hbareA.append hbareB, not_mem_append hnA hnB, not_mem_append hiA hiB⟩

theorem Plain.quiet {t : List Char} (h : Plain t) : Quiet t := ⟨t, exposes_self h.1, h.2⟩

theorem quiet_quoted {t : List Char} (h : Quoted t) : Quiet t :=
  ⟨[], exposes_quoted h, List.not_mem_nil, List.not_mem_nil⟩

theorem plain_space {w : List Char} (h : Space w) : Plain w := by
  refine ⟨fun hc => ?_, fun hc => ?_, fun hc => ?_⟩
  all_goals exact absurd (h _ hc) (by decide)

theorem plain_digits {ds : List Char} (h : ∀ d ∈ ds, isDigit d = true) : Plain ds := by
  refine ⟨fun hc => ?_, fun hc => ?_, fun hc => ?_⟩
  all_goals exact absurd (h _ hc) (by decide)

theorem plain_fraction {t : List Char} (h : Fraction t) : Plain t := by
  rcases h with _ | ⟨-, hdigits⟩
  · decide
  · have hpoint : Plain ['.'] := by decide
    exact hpoint.append (plain_digits hdigits)

theorem plain_exponent {t : List Char} (h : Exponent t) : Plain t := by
  rcases h with _ | @⟨e, sign, ds, he, hsign, -, hdigits⟩
  · decide
  · have hletter : Plain [e] := by
      simp only [List.mem_cons, List.not_mem_nil, or_false] at he
      rcases he with rfl | rfl
      · decide
      · decide
    have hsigns : ∀ sign ∈ [[], ['+'], ['-']], Plain sign := by decide
    exact (hletter.append (hsigns sign hsign)).append (plain_digits hdigits)

theorem plain_numeral {t : List Char} (h : Numeral t) : Plain t := by
  rcases h with ⟨hsign, hw, hf, he⟩
  have hsigns : ∀ sign ∈ [[], ['-']], Plain sign := by decide
  exact (((hsigns _ hsign).append (plain_digits hw.digits)).append (plain_fraction hf)).append (plain_exponent he)

/-- What stands between two marks. -/
theorem Quiet.between {t : List Char} {opening closing : Char} (ho : Plain [opening]) (hc : Plain [closing])
    (h : Quiet t) : Quiet (opening :: t ++ [closing]) :=
  (ho.quiet.append h).append hc.quiet

/-- What stands before and behind a mark. -/
theorem Quiet.around {a b : List Char} {mark : Char} (hm : Plain [mark]) (ha : Quiet a) (hb : Quiet b) :
    Quiet (a ++ mark :: b) :=
  ha.append (hm.quiet.append hb)

/-- Every text of the grammar is quiet. -/
theorem quiet_of_derives {s : Symbol} {t : List Char} (h : Derives s t) : Quiet t := by
  induction h with
  | word ht =>
    have hwords : ∀ t ∈ plainWords, Plain t := by decide
    exact (hwords _ ht).quiet
  | numeral ht => exact (plain_numeral ht).quiet
  | quoted ht => exact quiet_quoted ht
  | noElements hw | noMembers hw => exact (plain_space hw).quiet.between (by decide) (by decide)
  | array _ ih | object _ ih => exact ih.between (by decide) (by decide)
  | element hw _ hw' ih => exact ((plain_space hw).quiet.append ih).append (plain_space hw').quiet
  | member hw hk hw' _ ih =>
    have hkey := ((plain_space hw).quiet.append (quiet_quoted hk)).append (plain_space hw').quiet
    exact hkey.around (by decide) ih
  | lastElement _ ih | lastMember _ ih => exact ih
  | moreElements _ _ ih ihs | moreMembers _ _ ih ihs => exact ih.around (by decide) ihs

/-! ## Written texts -/

/-- A text ends outside its strings, and there these numbers stand as they are written, strictly or not. -/
def Shows (strict : Bool) (t : List Char) (xs : List Binary64) : Prop :=
  ∃ bare, Exposes t bare ∧ ∀ x ∈ xs, ∃ w, writeFloat strict x = .ok w ∧ w <:+: bare

section

variable {strict : Bool}

theorem Shows.append {a b : List Char} {xs ys : List Binary64} (ha : Shows strict a xs) (hb : Shows strict b ys) :
    Shows strict (a ++ b) (xs ++ ys) := by
  obtain ⟨bareA, hbareA, hxs⟩ := ha
  obtain ⟨bareB, hbareB, hys⟩ := hb
  refine ⟨bareA ++ bareB, hbareA.append hbareB, List.forall_mem_append.mpr ⟨fun x hx => ?_, fun x hx => ?_⟩⟩
  · obtain ⟨w, hw, hpart⟩ := hxs x hx
    exact ⟨w, hw, hpart.trans (List.prefix_append bareA bareB).isInfix⟩
  · obtain ⟨w, hw, hpart⟩ := hys x hx
    exact ⟨w, hw, hpart.trans (List.suffix_append bareA bareB).isInfix⟩

theorem shows_nil {t bare : List Char} (h : Exposes t bare) : Shows strict t [] := ⟨bare, h, List.forall_mem_nil _⟩

theorem shows_plain {t : List Char} (h : Plain t) : Shows strict t [] := shows_nil (exposes_self h.1)

theorem shows_float {x : Binary64} {t : List Char} (h : writeFloat strict x = .ok t) : Shows strict t [x] := by
  have hquote : '"' ∉ t := by
    rw [writeFloat_ok h]
    cases hx : x.isFinite with
    | true => exact (plain_numeral (numeral_text hx)).1
    | false =>
      cases x with
      | nan => decide
      | infinite negative => cases negative <;> decide
      | finite negative e f => cases hx
  exact ⟨t, exposes_self hquote, List.forall_mem_singleton.mpr ⟨t, h, List.infix_rfl⟩⟩

theorem shows_newline (l : Layout) (level : Nat) : Shows strict (l.newline level) [] :=
  shows_plain (plain_space (space_newline l level))

theorem shows_comma (l : Layout) (level : Nat) : Shows strict (l.comma level) [] := by
  obtain ⟨w, hcomma, hw⟩ := comma_eq l level
  have hmark : Plain [','] := by decide
  rw [hcomma]
  exact shows_plain (hmark.append (plain_space (space_of_isSpace hw)))

theorem shows_key (k : Text) : Shows strict (writeText k ++ [':', ' ']) [] :=
  (shows_nil (exposes_quoted (quoted_writeText k))).append (shows_plain (by decide))

end

section

variable {F : Type} {s : Style F}

mutual

/-- What is written of a value shows its numbers. -/
theorem shows_of_writeAt {level : Nat} {t : List Char} :
    (v : Value F) → writeAt s level v = .ok t → Shows s.strict t v.floats
  | .null | .bool true | .bool false | .array [] | .object [] => by
    intro h
    cases h
    exact shows_plain (by decide)
  | .int n => by
    intro h
    rw [writeAt] at h
    rw [writeInteger_ok h]
    exact shows_plain (plain_numeral (numeral_integerText n))
  | .float x => by
    intro h
    rw [writeAt] at h
    exact shows_float h
  | .str t => by
    intro h
    cases h
    exact shows_nil (exposes_quoted (quoted_writeText t))
  | .array (v :: rest) => by
    intro h
    obtain ⟨first, hfirst, h⟩ := bind_eq_ok.mp h
    obtain ⟨others, hothers, h⟩ := bind_eq_ok.mp h
    cases h
    have hopening : Shows s.strict ('[' :: s.layout.newline (level + 1)) [] :=
      (shows_plain (t := ['[']) (by decide)).append (shows_newline s.layout (level + 1))
    have hclosing : Shows s.strict (s.layout.newline level ++ [']']) [] :=
      (shows_newline s.layout level).append (shows_plain (by decide))
    have hitems := (shows_of_writeAt v hfirst).append (shows_of_writeItems rest hothers)
    simpa [Value.floats, Value.floatsOfItems] using (hopening.append hitems).append hclosing
  | .object ((k, v) :: rest) => by
    intro h
    obtain ⟨first, hfirst, h⟩ := bind_eq_ok.mp h
    obtain ⟨others, hothers, h⟩ := bind_eq_ok.mp h
    cases h
    have hopening : Shows s.strict ('\x7b' :: s.layout.newline (level + 1)) [] :=
      (shows_plain (t := ['\x7b']) (by decide)).append (shows_newline s.layout (level + 1))
    have hclosing : Shows s.strict (s.layout.newline level ++ ['\x7d']) [] :=
      (shows_newline s.layout level).append (shows_plain (by decide))
    have hmembers := ((shows_key k).append (shows_of_writeAt v hfirst)).append (shows_of_writeMembers rest hothers)
    simpa [Value.floats, Value.floatsOfMembers] using (hopening.append hmembers).append hclosing
  | .foreign x => by
    intro h
    cases h

theorem shows_of_writeItems {level : Nat} {t : List Char} :
    (items : List (Value F)) → writeItems s level items = .ok t → Shows s.strict t (Value.floatsOfItems items)
  | [] => by
    intro h
    cases h
    exact shows_plain (by decide)
  | v :: rest => by
    intro h
    obtain ⟨first, hfirst, h⟩ := bind_eq_ok.mp h
    obtain ⟨others, hothers, h⟩ := bind_eq_ok.mp h
    cases h
    have hitem := (shows_comma s.layout level).append (shows_of_writeAt v hfirst)
    exact hitem.append (shows_of_writeItems rest hothers)

theorem shows_of_writeMembers {level : Nat} {t : List Char} :
    (members : List (Text × Value F)) → writeMembers s level members = .ok t →
      Shows s.strict t (Value.floatsOfMembers members)
  | [] => by
    intro h
    cases h
    exact shows_plain (by decide)
  | (k, v) :: rest => by
    intro h
    obtain ⟨first, hfirst, h⟩ := bind_eq_ok.mp h
    obtain ⟨others, hothers, h⟩ := bind_eq_ok.mp h
    cases h
    have hmember := ((shows_comma s.layout level).append (shows_key k)).append (shows_of_writeAt v hfirst)
    simpa [Value.floatsOfMembers] using hmember.append (shows_of_writeMembers rest hothers)

end

/-- The words of numbers that are not finite. -/
def infinityWords : List (List Char) := ["NaN".toList, "Infinity".toList, "-Infinity".toList]

/-- A text has the word of a number that is not finite outside its strings. -/
def NamesInfinity (t : List Char) : Prop := ∃ w ∈ infinityWords, w <:+: outside t

theorem mem_infinityWords {x : Binary64} (h : x.isFinite = false) : x.text "NaN" "Infinity" ∈ infinityWords := by
  cases x with
  | nan => decide
  | infinite negative => cases negative <;> decide
  | finite negative e f => cases h

/-- A standard text has no such word. -/
theorem Standard.not_namesInfinity {t : List Char} (h : Standard t) : ¬ NamesInfinity t := by
  rintro ⟨w, hw, hpart⟩
  obtain ⟨bare, hbare, hn, hi⟩ := quiet_of_derives h
  rw [hbare.shows] at hpart
  have hletter : ∀ w ∈ infinityWords, 'N' ∈ w ∨ 'I' ∈ w := by decide
  rcases hletter w hw with hmem | hmem
  · exact hn (hpart.subset hmem)
  · exact hi (hpart.subset hmem)

/-- A written text has such a word exactly if some number in the value is not finite. -/
theorem namesInfinity_iff {level : Nat} {v : Value F} {t : List Char} (h : writeAt s level v = .ok t) :
    NamesInfinity t ↔ ¬ v.Finite := by
  constructor
  · intro hn hf
    exact (derives_of_writeAt v hf h).standard.not_namesInfinity hn
  · intro hf
    obtain ⟨bare, hbare, hshows⟩ := shows_of_writeAt v h
    simp only [Value.Finite, not_forall, Bool.not_eq_true] at hf
    obtain ⟨x, hx, hinfinite⟩ := hf
    obtain ⟨w, hw, hpart⟩ := hshows x hx
    rw [writeFloat_ok hw, ← hbare.shows] at hpart
    exact ⟨_, mem_infinityWords hinfinite, hpart⟩

/-- What is written strictly has finite numbers only. -/
theorem finite_of_writeAt (hs : s.strict = true) {level : Nat} {v : Value F} {t : List Char}
    (h : writeAt s level v = .ok t) : v.Finite := by
  obtain ⟨bare, -, hshows⟩ := shows_of_writeAt v h
  intro x hx
  obtain ⟨w, hw, -⟩ := hshows x hx
  exact isFinite_of_writeFloat hs hw

/-- A written text is standard exactly if every number in the value is finite. -/
theorem standard_iff {level : Nat} {v : Value F} {t : List Char} (h : writeAt s level v = .ok t) :
    Standard t ↔ v.Finite := by
  constructor
  · intro hs
    by_contra hf
    exact hs.not_namesInfinity ((namesInfinity_iff h).mpr hf)
  · intro hf
    exact (derives_of_writeAt v hf h).standard

end

end AgentBridge.Json
