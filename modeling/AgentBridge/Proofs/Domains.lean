import AgentBridge.CommandLine.Run
import AgentBridge.Proofs.Addresses
import AgentBridge.Proofs.Patterns
import AgentBridge.Proofs.Trimming
import AgentBridge.Proofs.Utf8

/-
  AgentBridge.Proofs.Domains — which names are domains, and what is made of them.

  A name is a domain if it is short enough, has no hyphen in front and is cut at its points into
  two or more labels (`Named`). For a name that does not end with a line feed, the form of a
  domain asks for nothing else (`isDomain_iff`); it looks for the end of the name twice, and the
  end is also in front of a last line feed. A trimmed name never ends with one, and small
  letters bring none (`getLast_normal`).

  A domain has small letters, digits, hyphens and points only, so it is its own normal form and
  has the disguise of what was typed (`disguise_of_typed`).
-/

namespace AgentBridge

/-! ## Small letters -/

namespace Lowercase

/-- The small letters of the table are characters, and none of them is in front of the small letters of ASCII. -/
theorem bounds_of_mem_runs : ∀ r ∈ runs, 0x61 ≤ r.first + r.shift ∧
    (r.last + r.shift < 0xD800 ∨ 0xDFFF < r.first + r.shift ∧ r.last + r.shift < 0x110000) := by
  decide +kernel

/-- What a character becomes in small letters is a small letter, unless it is in ASCII. -/
theorem ascii_or_le_of_mem_lowerChar {c d : Char} (h : d ∈ lowerChar c) :
    (c.toNat < 0x80 ∧ d = c.toLower) ∨ 0x61 ≤ d.toNat := by
  unfold lowerChar at h
  split at h
  · rename_i hc
    exact Or.inl ⟨hc, List.mem_singleton.mp h⟩
  · rename_i hc
    right
    split at h
    · simp only [List.mem_cons, List.not_mem_nil, or_false] at h
      rcases h with rfl | rfl
      · decide
      · decide
    · split at h
      · rename_i r hr
        obtain rfl := List.mem_singleton.mp h
        obtain ⟨hlow, hvalid⟩ := bounds_of_mem_runs r (List.mem_of_find?_eq_some hr)
        have hholds := List.find?_some hr
        simp only [Run.holds, Bool.and_eq_true, decide_eq_true_eq] at hholds
        obtain ⟨⟨hfirst, hlast⟩, -⟩ := hholds
        have hchar : Nat.isValidChar (c.toNat + r.shift).toNat := by
          unfold Nat.isValidChar
          omega
        have hnumber : (Char.ofNat (c.toNat + r.shift).toNat).toNat = (c.toNat + r.shift).toNat :=
          Utf8.toNat_ofNat_of_valid hchar
        omega
      · obtain rfl := List.mem_singleton.mp h
        omega

/-- A fact about all characters of ASCII can be checked one by one. -/
theorem of_ascii {P : Char → Prop} (h : ∀ n < 0x80, P (Char.ofNat n)) {c : Char} (hc : c.toNat < 0x80) : P c := by
  have hn := h c.toNat hc
  rwa [Char.ofNat_toNat] at hn

theorem not_isUpper_of_mem_lower {cs : List Char} {d : Char} (h : d ∈ lower cs) : d.isUpper = false := by
  obtain ⟨c, -, hd⟩ := List.mem_flatMap.mp h
  rcases ascii_or_le_of_mem_lowerChar hd with ⟨hc, rfl⟩ | hlow
  · exact of_ascii (P := fun c => c.toLower.isUpper = false) (by decide) hc
  · have hupper : ¬ d.toNat ≤ 0x5A := by omega
    exact decide_eq_false fun h => hupper h.2

theorem eq_newline_of_mem_lowerChar {c : Char} (h : '\n' ∈ lowerChar c) : c = '\n' := by
  rcases ascii_or_le_of_mem_lowerChar h with ⟨hc, hlower⟩ | hlow
  · exact of_ascii (P := fun c => '\n' = c.toLower → c = '\n') (by decide) hc hlower
  · exact absurd hlow (by decide)

theorem lowerChar_ne_nil (c : Char) : lowerChar c ≠ [] := by
  unfold lowerChar
  split
  · simp
  · split
    · simp
    · split
      · simp
      · simp

/-- A name that ends with a line feed in small letters ends with one. -/
theorem getLast_of_lower {cs : List Char} (h : '\n' ∈ (lower cs).getLast?) : '\n' ∈ cs.getLast? := by
  rcases List.eq_nil_or_concat cs with rfl | ⟨front, c, rfl⟩
  · exact h
  · have hlast : lower [c] = lowerChar c := List.flatMap_singleton _ _
    rw [List.concat_eq_append, lower_append, hlast, List.getLast?_append_of_ne_nil _ (lowerChar_ne_nil c)] at h
    rw [List.concat_eq_append, List.getLast?_concat, eq_newline_of_mem_lowerChar (List.mem_of_mem_getLast? h)]
    exact rfl

end Lowercase

namespace Domain

/-! ## Names -/

/-- A label: not empty, and nothing in it but letters and digits of ASCII and hyphens. -/
def IsLabel (cs : List Char) : Prop := cs ≠ [] ∧ ∀ c ∈ cs, c.isAlphanum = true ∨ c = '-'

theorem isLabelChar_iff {c : Char} : isLabelChar c = true ↔ c.isAlphanum = true ∨ c = '-' := by
  simp [isLabelChar]

theorem isLabel_iff {cs : List Char} : IsLabel cs ↔ cs ≠ [] ∧ cs.all isLabelChar = true := by
  simp only [IsLabel, List.all_eq_true, isLabelChar_iff]

instance (cs : List Char) : Decidable (IsLabel cs) := decidable_of_iff _ isLabel_iff.symm

/-- A name is that of a domain. -/
structure Named (cs : List Char) : Prop where
  short : cs.length ≤ 253
  front : cs.head? ≠ some '-'
  two : 2 ≤ (pieces '.' cs).length
  labels : ∀ part ∈ pieces '.' cs, IsLabel part

theorem named_iff {cs : List Char} : Named cs ↔ cs.length ≤ 253 ∧ cs.head? ≠ some '-' ∧ 2 ≤ (pieces '.' cs).length ∧
    ∀ part ∈ pieces '.' cs, IsLabel part :=
  ⟨fun h => ⟨h.short, h.front, h.two, h.labels⟩, fun h => ⟨h.1, h.2.1, h.2.2.1, h.2.2.2⟩⟩

instance (cs : List Char) : Decidable (Named cs) := decidable_of_iff _ named_iff.symm

/-! ## The form of a domain -/

open Pattern

variable {cs rest : List Char}

theorem fits_label_iff : label.Fits cs rest ↔ ∃ part, cs = part ++ rest ∧ IsLabel part := by
  rw [label, fits_repeated_one_iff]
  simp only [isLabelChar_iff, Times.onceOrMore, Nat.one_le_iff_ne_zero, ne_eq, List.length_eq_zero_iff, Option.not_mem_none,
    false_implies, implies_true, and_true]
  exact exists_congr fun part => and_congr_right fun _ => and_comm

/-- Rounds of a point and a label take labels with a point in front of each. -/
theorem rounds_label_iff {n : Nat} :
    Rounds (fun a b => (Pattern.next (.one (· == '.')) label).Fits a b) n cs rest ↔
      ∃ labels : List (List Char), cs = labels.flatMap ('.' :: ·) ++ rest ∧ labels.length = n ∧
        ∀ part ∈ labels, IsLabel part := by
  apply rounds_flatMap_iff
  intro a b
  constructor
  · intro h
    obtain ⟨mid, ⟨c, ha, hc⟩, hlabel⟩ := h
    obtain ⟨part, hmid, hpart⟩ := fits_label_iff.mp hlabel
    refine ⟨part, ?_, hpart⟩
    rw [ha, hmid, beq_iff_eq.mp hc, List.cons_append]
  · intro h
    obtain ⟨part, ha, hpart⟩ := h
    exact ⟨part ++ b, ⟨'.', ha, rfl⟩, fits_label_iff.mpr ⟨part, rfl, hpart⟩⟩

theorem IsLabel.not_mem {part : List Char} (h : IsLabel part) : '.' ∉ part := by
  intro hmem
  rcases h.2 '.' hmem with h | h
  · exact absurd h (by decide)
  · exact absurd h (by decide)

theorem joinWith_cons_eq (first : List Char) (labels : List (List Char)) :
    joinWith ['.'] (first :: labels) = first ++ labels.flatMap ('.' :: ·) := by
  induction labels generalizing first with
  | nil => exact (List.append_nil first).symm
  | cons second labels ih =>
    rw [joinWith_cons_cons, ih second, List.flatMap_cons, List.append_assoc]
    rfl

/-- Up to the end of a name that does not end with a line feed, nothing is left. -/
theorem fits_finish_iff (h : '\n' ∉ cs.getLast?) (hrest : rest <:+ cs) {behind : List Char} :
    Pattern.finish.Fits rest behind ↔ behind = [] ∧ rest = [] := by
  constructor
  · intro hfits
    obtain ⟨rfl, hend⟩ := hfits
    rcases hend with rfl | rfl
    · exact ⟨rfl, rfl⟩
    · obtain ⟨front, rfl⟩ := hrest
      exact absurd List.getLast?_concat h
  · intro hend
    rw [hend.1, hend.2]
    exact ⟨rfl, Or.inl rfl⟩

theorem fits_short_iff (h : '\n' ∉ cs.getLast?) :
    short.Fits cs rest ↔ rest = cs ∧ cs ≠ [] ∧ cs.length ≤ 253 ∧ '\n' ∉ cs := by
  have hlimit : ∀ part : List Char, (∀ m ∈ some lengthLimit, part.length ≤ m) ↔ part.length ≤ 253 := by
    intro part
    simp [lengthLimit]
  have hclass : ∀ part : List Char, (∀ c ∈ part, (c != '\n') = true) ↔ '\n' ∉ part := by
    intro part
    constructor
    · intro hall hmem
      exact bne_iff_ne.mp (hall '\n' hmem) rfl
    · intro hnone c hc
      exact bne_iff_ne.mpr fun hline => hnone (hline ▸ hc)
  refine and_congr_right fun _ => ?_
  constructor
  · intro hahead
    obtain ⟨behind, mid, hmid, hfinish⟩ := hahead
    obtain ⟨part, hcs, hpart, hleast, hmost⟩ := fits_repeated_one_iff.mp hmid
    have hsuffix : mid <:+ cs := ⟨part, hcs.symm⟩
    obtain ⟨-, rfl⟩ := (fits_finish_iff h hsuffix).mp hfinish
    obtain rfl : cs = part := hcs.trans (List.append_nil part)
    exact ⟨List.length_pos_iff.mp hleast, (hlimit cs).mp hmost, (hclass cs).mp hpart⟩
  · intro hshort
    obtain ⟨hne, hlength, hline⟩ := hshort
    refine ⟨[], [], fits_repeated_one_iff.mpr ⟨cs, (List.append_nil cs).symm, ?_, ?_, ?_⟩, ⟨rfl, Or.inl rfl⟩⟩
    · exact (hclass cs).mpr hline
    · exact List.length_pos_iff.mpr hne
    · exact (hlimit cs).mpr hlength

theorem fits_front_iff : (Pattern.notAhead (.one (· == '-'))).Fits cs rest ↔ rest = cs ∧ cs.head? ≠ some '-' := by
  refine and_congr_right fun _ => ?_
  constructor
  · intro hnone hhead
    obtain ⟨behind, rfl⟩ := List.head?_eq_some_iff.mp hhead
    exact hnone behind ⟨'-', rfl, rfl⟩
  · intro hhead behind hfits
    obtain ⟨c, rfl, hc⟩ := hfits
    rw [beq_iff_eq.mp hc] at hhead
    exact hhead rfl

theorem fits_labels_iff (h : '\n' ∉ cs.getLast?) :
    labels.Fits cs rest ↔ rest = [] ∧ ∃ first parts, cs = joinWith ['.'] (first :: parts) ∧ parts ≠ [] ∧
      ∀ part ∈ first :: parts, IsLabel part := by
  constructor
  · intro hfits
    obtain ⟨behind, hfirst, mid, ⟨n, hn, -, hrounds⟩, hfinish⟩ := hfits
    obtain ⟨first, hcs, hfirst⟩ := fits_label_iff.mp hfirst
    obtain ⟨parts, hbehind, rfl, hparts⟩ := rounds_label_iff.mp hrounds
    have hall : cs = first ++ parts.flatMap ('.' :: ·) ++ mid := by rw [hcs, hbehind, List.append_assoc]
    have hsuffix : mid <:+ cs := ⟨_, hall.symm⟩
    obtain ⟨hrest, rfl⟩ := (fits_finish_iff h hsuffix).mp hfinish
    refine ⟨hrest, first, parts, ?_, List.length_pos_iff.mp hn, List.forall_mem_cons.mpr ⟨hfirst, hparts⟩⟩
    rw [hall, List.append_nil, joinWith_cons_eq]
  · intro hnamed
    obtain ⟨rfl, first, parts, hcs, hne, hparts⟩ := hnamed
    obtain ⟨hfirst, hparts⟩ := List.forall_mem_cons.mp hparts
    refine ⟨parts.flatMap ('.' :: ·), fits_label_iff.mpr ⟨first, ?_, hfirst⟩, [], ⟨parts.length, ?_, nofun, ?_⟩, ?_⟩
    · rw [hcs, joinWith_cons_eq]
    · exact List.length_pos_iff.mpr hne
    · exact rounds_label_iff.mpr ⟨parts, (List.append_nil _).symm, rfl, hparts⟩
    · exact ⟨rfl, Or.inl rfl⟩

/-- Labels with points between them are what a name is cut into at its points. -/
theorem exists_labels_iff : (∃ first parts, cs = joinWith ['.'] (first :: parts) ∧ parts ≠ [] ∧
      ∀ part ∈ first :: parts, IsLabel part) ↔ 2 ≤ (pieces '.' cs).length ∧ ∀ part ∈ pieces '.' cs, IsLabel part := by
  constructor
  · intro h
    obtain ⟨first, parts, rfl, hne, hparts⟩ := h
    rw [pieces_joinWith (List.cons_ne_nil first parts) fun part hpart => (hparts part hpart).not_mem]
    exact ⟨Nat.succ_le_succ (List.length_pos_iff.mpr hne), hparts⟩
  · intro h
    obtain ⟨htwo, hlabels⟩ := h
    cases hcut : pieces '.' cs with
    | nil => exact absurd hcut (pieces_ne_nil '.' cs)
    | cons first parts =>
      rw [hcut] at htwo hlabels
      refine ⟨first, parts, ?_, List.length_pos_iff.mp (Nat.le_of_succ_le_succ htwo), hlabels⟩
      rw [← hcut, joinWith_pieces]

/-- The characters of a name that is cut into labels. -/
theorem mem_of_labels (h : ∀ part ∈ pieces '.' cs, IsLabel part) {c : Char} (hc : c ∈ cs) :
    c.isAlphanum = true ∨ c = '-' ∨ c = '.' := by
  rw [← joinWith_pieces '.' cs] at hc
  rcases mem_joinWith hc with hpoint | ⟨part, hpart, hmem⟩
  · exact Or.inr (Or.inr (List.mem_singleton.mp hpoint))
  · rcases (h part hpart).2 c hmem with halnum | hhyphen
    · exact Or.inl halnum
    · exact Or.inr (Or.inl hhyphen)

/-- For a name that does not end with a line feed, the form of a domain asks for what makes it the name of a domain. -/
theorem isDomain_iff (h : '\n' ∉ cs.getLast?) : isDomain cs = true ↔ Named cs := by
  rw [isDomain, accepts_iff]
  constructor
  · intro hform
    obtain ⟨rest, mid, hshort, mid', hfront, hlabels⟩ := hform
    obtain ⟨rfl, -, hlength, -⟩ := (fits_short_iff h).mp hshort
    obtain ⟨rfl, hhead⟩ := fits_front_iff.mp hfront
    obtain ⟨-, hparts⟩ := (fits_labels_iff h).mp hlabels
    obtain ⟨htwo, hlabels⟩ := exists_labels_iff.mp hparts
    exact ⟨hlength, hhead, htwo, hlabels⟩
  · intro hnamed
    have hline : '\n' ∉ cs := by
      intro hmem
      rcases mem_of_labels hnamed.labels hmem with hc | hc | hc
      · exact absurd hc (by decide)
      · exact absurd hc (by decide)
      · exact absurd hc (by decide)
    have hne : cs ≠ [] := by
      intro hnil
      have htwo := hnamed.two
      rw [hnil] at htwo
      exact absurd htwo (by decide)
    refine ⟨[], cs, (fits_short_iff h).mpr ⟨rfl, hne, hnamed.short, hline⟩, cs,
      fits_front_iff.mpr ⟨rfl, hnamed.front⟩, (fits_labels_iff h).mpr ⟨rfl, ?_⟩⟩
    exact exists_labels_iff.mpr ⟨hnamed.two, hnamed.labels⟩

/-! ## Normal forms -/

/-- What is compared does not end with a line feed. -/
theorem getLast_normal (typed : List Char) : '\n' ∉ (normal typed).getLast? := by
  intro h
  have hblank := Blank.getLast_trim (Lowercase.getLast_of_lower h)
  exact absurd hblank (by decide)

/-- A small letter or digit of ASCII, a hyphen or a point. -/
def IsSmall (c : Char) : Prop := c.isLower = true ∨ c.isDigit = true ∨ c = '-' ∨ c = '.'

theorem isSmall_of_named {typed : List Char} (h : Named (normal typed)) : ∀ c ∈ normal typed, IsSmall c := by
  intro c hc
  have hupper : c.isUpper = false := Lowercase.not_isUpper_of_mem_lower hc
  rcases mem_of_labels h.labels hc with halnum | hrest
  · rcases Bool.or_eq_true_iff.mp halnum with halpha | hdigit
    · rcases Bool.or_eq_true_iff.mp halpha with hcapital | hlower
      · rw [hupper] at hcapital
        cases hcapital
      · exact Or.inl hlower
    · exact Or.inr (Or.inl hdigit)
  · exact Or.inr (Or.inr hrest)

/-- Small characters are printed characters of ASCII. -/
theorem IsSmall.toNat_bounds {c : Char} (h : IsSmall c) : 0x21 ≤ c.toNat ∧ c.toNat < 0x80 := by
  rcases h with h | h | rfl | rfl
  · have halnum := Url.toNat_of_isAlphanum (isAlphanum_of_isAlpha (Bool.or_eq_true_iff.mpr (Or.inr h)))
    exact ⟨Nat.le_trans (by decide) halnum.1, halnum.2⟩
  · have halnum := Url.toNat_of_isAlphanum (Bool.or_eq_true_iff.mpr (Or.inr h))
    exact ⟨Nat.le_trans (by decide) halnum.1, halnum.2⟩
  · decide
  · decide

theorem IsSmall.isBlank {c : Char} (h : IsSmall c) : Blank.isBlank c = false :=
  Blank.isBlank_of_printed h.toNat_bounds.1 h.toNat_bounds.2

/-- A name of a domain that is trimmed and in small letters is left as it is. -/
theorem normal_normal {typed : List Char} (h : Named (normal typed)) : normal (normal typed) = normal typed := by
  have hsmall := isSmall_of_named h
  have htrim : Blank.trim (normal typed) = normal typed :=
    Blank.trim_eq_self (fun c hc => (hsmall c (List.mem_of_mem_head? hc)).isBlank)
      fun c hc => (hsmall c (List.mem_of_mem_getLast? hc)).isBlank
  have hlower : ∀ c ∈ normal typed, c.toLower = c :=
    fun c hc => dif_neg (of_decide_eq_false (Lowercase.not_isUpper_of_mem_lower hc))
  rw [normal, htrim, Lowercase.lower_of_ascii fun c hc => (hsmall c hc).toNat_bounds.2]
  exact (List.map_congr_left hlower).trans (List.map_id _)

theorem read?_of_named {typed : List Char} (h : Named (normal typed)) : read? typed = some (normal typed) :=
  if_pos ((isDomain_iff (getLast_normal typed)).mpr h)

theorem read?_of_not_named {typed : List Char} (h : ¬ Named (normal typed)) : read? typed = none :=
  if_neg fun hdomain => h ((isDomain_iff (getLast_normal typed)).mp hdomain)

end Domain

/-! ## Disguises -/

namespace CommandLine

open Domain

/-- What the user has typed gives a disguise exactly if it is the name of a domain when it is trimmed and in small
letters. The disguise is for that name, which has no capital letter, blank or line feed and gives the same disguise
when it is typed itself. -/
theorem disguise_of_typed (typed : List Char) :
    (Named (normal typed) →
      disguiseOfDomain typed = .ok
        [("serverName", .str (Text.ofChars (normal typed))),
          ("dest", .str (Text.ofChars (normal typed ++ ":443".toList))),
          ("fingerprint", .str "chrome")] ∧
      (∀ c ∈ normal typed, IsSmall c ∧ c.isUpper = false ∧ Blank.isBlank c = false ∧ c ≠ '\n') ∧
      disguiseOfDomain (normal typed) = disguiseOfDomain typed) ∧
    (¬ Named (normal typed) → disguiseOfDomain typed = .error (.reported .notDomain)) := by
  constructor
  · intro h
    have htyped : disguiseOfDomain typed = .ok (Disguise.ofDomain (normal typed)) := by
      rw [disguiseOfDomain, read?_of_named h]
    have hagain : Named (normal (normal typed)) := by rwa [normal_normal h]
    refine ⟨?_, ?_, ?_⟩
    · rw [htyped, Disguise.ofDomain, Text.ofChars_append]
      rfl
    · intro c hc
      have hsmall := isSmall_of_named h c hc
      refine ⟨hsmall, Lowercase.not_isUpper_of_mem_lower hc, hsmall.isBlank, ?_⟩
      rintro rfl
      exact absurd hsmall.isBlank (by decide)
    · rw [htyped, disguiseOfDomain, read?_of_named hagain, normal_normal h]
  · intro h
    rw [disguiseOfDomain, read?_of_not_named h]

/-- A letter outside ASCII may be an ASCII letter when it is small. -/
theorem disguise_of_typed_kelvin :
    Named (normal " \u212Aiwi.Example\n".toList) ∧
      disguiseOfDomain "kiwi.example".toList = disguiseOfDomain " \u212Aiwi.Example\n".toList := by
  have hnormal : normal " \u212Aiwi.Example\n".toList = "kiwi.example".toList := by decide +kernel
  have hnamed : Named (normal " \u212Aiwi.Example\n".toList) := by decide +kernel
  obtain ⟨-, -, hsame⟩ := (disguise_of_typed " \u212Aiwi.Example\n".toList).1 hnamed
  rw [hnormal] at hsame
  exact ⟨hnamed, hsame⟩

end CommandLine

end AgentBridge
