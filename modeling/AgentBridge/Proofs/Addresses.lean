import AgentBridge.Proofs.Trimming
import AgentBridge.Url
import Mathlib.Data.List.TakeWhile

/-
  AgentBridge.Proofs.Addresses — what the parts of an address say about its characters.

  An address is looked at without the characters that are dropped from it (`Url.clean`).
  Nothing is dropped exactly where no control character or blank stands in front and no tab or
  line break anywhere (`clean_eq_self_iff`), and what is left behind looks the same when it is
  looked at again (`clean_clean`, `split_clean`). An address with a scheme and an authority
  begins with that scheme, a colon and two slashes (`exists_front_of_split`). An authority has
  no host exactly where nothing, or the number of a service only, stands behind its user
  (`host_eq_nil_iff`).
-/

namespace AgentBridge

/-! ## Letters -/

/-- On ASCII characters, small letters are made one by one. -/
theorem Lowercase.lower_of_ascii {cs : List Char} (h : ∀ c ∈ cs, c.toNat < 0x80) :
    lower cs = cs.map Char.toLower := by
  induction cs with
  | nil => rfl
  | cons c cs ih =>
    have hc : lowerChar c = [c.toLower] := if_pos (h c (by simp))
    show lowerChar c ++ lower cs = _
    rw [hc, ih fun x hx => h x (List.mem_cons_of_mem _ hx)]
    rfl

theorem isAlpha_of_toLower {c : Char} (h : c.toLower.isAlpha = true) : c.isAlpha = true := by
  by_cases hupper : c.isUpper = true
  · exact Bool.or_eq_true_iff.mpr (Or.inl hupper)
  · have hsame : c.toLower = c := by
      unfold Char.toLower
      rw [dif_neg]
      intro hc
      exact hupper (decide_eq_true hc)
    rwa [hsame] at h

/-- A text that spells a word in letters of any case is made of letters. -/
theorem letters_of_map_toLower {word cs : List Char} (hw : word.all Char.isAlpha = true)
    (h : cs.map Char.toLower = word) : ∀ c ∈ cs, c.isAlpha = true := by
  intro c hc
  apply isAlpha_of_toLower
  apply List.all_eq_true.mp hw
  rw [← h]
  exact List.mem_map_of_mem hc

theorem isAlphanum_of_isAlpha {c : Char} (h : c.isAlpha = true) : c.isAlphanum = true := by
  simp [Char.isAlphanum, h]

namespace Url

/-- Letters and digits are printed ASCII characters. -/
theorem toNat_of_isAlphanum {c : Char} (h : c.isAlphanum = true) : 0x30 ≤ c.toNat ∧ c.toNat < 0x80 := by
  rw [isAlphanum_iff] at h
  omega

theorem toNat_lt_of_isSchemeChar {c : Char} (h : isSchemeChar c = true) : c.toNat < 0x80 := by
  simp only [isSchemeChar, Bool.or_eq_true, beq_iff_eq] at h
  rcases h with ((h | h) | h) | h
  · exact (toNat_of_isAlphanum h).2
  all_goals
    rw [h]
    decide

theorem toNat_lt_of_isScheme {cs : List Char} (h : isScheme cs = true) : ∀ c ∈ cs, c.toNat < 0x80 := by
  cases cs with
  | nil => cases h
  | cons d rest =>
    simp only [isScheme, Bool.and_eq_true, List.all_eq_true] at h
    intro c hc
    rcases List.mem_cons.mp hc with rfl | hc
    · exact (toNat_of_isAlphanum (isAlphanum_of_isAlpha h.1)).2
    · exact toNat_lt_of_isSchemeChar (h.2 c hc)

/-! ## What is dropped -/

/-- Only control characters are left out wherever they stand. -/
theorem isBreak_eq_false {c : Char} (h : ' ' ≤ c) : isBreak c = false := by
  by_contra hb
  simp only [isBreak, Bool.or_eq_true, beq_iff_eq, Bool.not_eq_false] at hb
  rcases hb with (rfl | rfl) | rfl <;> exact absurd h (by decide)

theorem clean_eq_self_iff {cs : List Char} :
    clean cs = cs ↔ (∀ c ∈ cs.head?, isControlOrBlank c = false) ∧ ∀ c ∈ cs, isBreak c = false := by
  constructor
  · intro h
    have hlength := congrArg List.length h
    have hdrop := (List.dropWhile_sublist isControlOrBlank (l := cs)).length_le
    have hfilter := List.length_filter_le (fun c => !isBreak c) (cs.dropWhile isControlOrBlank)
    have hfront : cs.dropWhile isControlOrBlank = cs :=
      (List.dropWhile_sublist isControlOrBlank).eq_of_length (by rw [clean] at hlength; omega)
    rw [clean, hfront] at h
    refine ⟨?_, ?_⟩
    · intro c hc
      cases cs with
      | nil => cases hc
      | cons d rest =>
        cases hc
        by_cases hd : isControlOrBlank c = true
        · rw [List.dropWhile_cons, if_pos hd] at hfront
          have := (List.dropWhile_sublist isControlOrBlank (l := rest)).length_le
          rw [hfront, List.length_cons] at this
          omega
        · simpa using hd
    · intro c hc
      simpa using List.filter_eq_self.mp h c hc
  · intro h
    rw [clean, Blank.dropWhile_eq_self h.1]
    exact List.filter_eq_self.mpr fun c hc => by simp [h.2 c hc]

theorem head_clean {cs : List Char} {c : Char} (h : c ∈ (clean cs).head?) : isControlOrBlank c = false := by
  have hfront := List.head?_dropWhile_not isControlOrBlank cs
  cases hd : cs.dropWhile isControlOrBlank with
  | nil =>
    rw [clean, hd] at h
    cases h
  | cons d rest =>
    rw [hd] at hfront
    have hnot : isControlOrBlank d = false := by simpa using hfront
    have hbreak : isBreak d = false :=
      isBreak_eq_false ((Char.le_total d ' ').resolve_left (of_decide_eq_false hnot))
    rw [clean, hd, List.filter_cons_of_pos (by simp [hbreak])] at h
    cases h
    exact hnot

/-- Behind the beginning of an address, only breaks are dropped. -/
theorem clean_append {a : List Char} (hne : a ≠ []) (ha : clean a = a) (b : List Char) :
    clean (a ++ b) = a ++ b.filter (!isBreak ·) := by
  obtain ⟨hhead, hbreak⟩ := clean_eq_self_iff.mp ha
  have hfront : (a ++ b).dropWhile isControlOrBlank = a ++ b := by
    apply Blank.dropWhile_eq_self
    intro c hc
    obtain ⟨d, rest, rfl⟩ := List.exists_cons_of_ne_nil hne
    exact hhead c hc
  rw [clean, hfront, List.filter_append, List.filter_eq_self.mpr fun c hc => by simp [hbreak c hc]]

/-- What was cleaned is clean. -/
theorem clean_clean (cs : List Char) : clean (clean cs) = clean cs := by
  rw [clean_eq_self_iff]
  refine ⟨fun c hc => head_clean hc, ?_⟩
  intro c hc
  simpa using (List.mem_filter.mp hc).2

/-- The parts of an address are those of what is left of it. -/
theorem split_clean (cs : List Char) : split (clean cs) = split cs := by
  rw [split, split, clean_clean]

/-! ## Scheme and authority -/

theorem parts_of_split {cs : List Char} {u : Url} (h : split cs = .ok u) :
    u.scheme = (cutScheme (clean cs)).1 ∧ u.authority = (cutAuthority (cutScheme (clean cs)).2).1 ∧
      Authority.check u.authority = .ok () := by
  unfold split at h
  dsimp only at h
  split at h
  · cases h
    exact ⟨rfl, rfl, ‹_›⟩
  · cases h

theorem cutScheme_eq {cs : List Char} (h : (cutScheme cs).1 ≠ []) :
    ∃ scheme, cs = scheme ++ ':' :: (cutScheme cs).2 ∧ (cutScheme cs).1 = scheme.map Char.toLower := by
  unfold cutScheme at h ⊢
  split at h
  · rename_i scheme rest hcut
    split at h
    · rename_i hs
      rw [if_pos hs]
      exact ⟨scheme, (cutAt?_eq_some_iff.mp hcut).1, Lowercase.lower_of_ascii (toNat_lt_of_isScheme hs)⟩
    · exact absurd rfl h
  · exact absurd rfl h

theorem cutAuthority_eq {cs : List Char} (h : (cutAuthority cs).1 ≠ []) : ∃ rest, cs = '/' :: '/' :: rest := by
  unfold cutAuthority at h
  split at h
  · exact ⟨_, rfl⟩
  · exact absurd rfl h

/-- An address with a scheme and an authority begins with the scheme, in letters of any case, a colon and two
slashes. -/
theorem exists_front_of_split {cs : List Char} {u : Url} (h : split cs = .ok u) (hs : u.scheme ≠ [])
    (ha : u.authority ≠ []) :
    ∃ scheme rest, clean cs = scheme ++ "://".toList ++ rest ∧ u.scheme = scheme.map Char.toLower := by
  obtain ⟨hscheme, hauthority, -⟩ := parts_of_split h
  rw [hscheme] at hs
  rw [hauthority] at ha
  obtain ⟨scheme, hclean, hlower⟩ := cutScheme_eq hs
  obtain ⟨rest, hrest⟩ := cutAuthority_eq ha
  refine ⟨scheme, rest, ?_, hscheme.trans hlower⟩
  rw [hclean, hrest, List.append_assoc]
  rfl

end Url

/-! ## Hosts -/

namespace Authority

/-- What is in brackets stands alone and is the address of a host. -/
theorem bracketed_of_check {authority : List Char} (h : check authority = .ok ()) (ho : '[' ∈ authority) :
    standsAlone authority = true ∧ isBracketed (host authority) = true := by
  have hopened : authority.contains '[' = true := by simpa using ho
  unfold check at h
  simp only [hopened, Bool.true_and] at h
  repeat' split at h
  all_goals first | cases h; done | skip
  rename_i halone hbracketed _
  exact ⟨by simpa using halone, by simpa using hbracketed⟩

/-- An authority without a host has a user at most and then nothing, or the number of a service. -/
theorem host_eq_nil_iff {authority : List Char} (h : check authority = .ok ()) :
    host authority = [] ↔ ∀ c ∈ (hostAndService authority).head?, c = ':' := by
  cases hcut : cutAt? '[' (hostAndService authority) with
  | none =>
    have hhost : host authority = (cutAt ':' (hostAndService authority)).1 := by rw [host, hcut]
    rw [hhost, cutAt_eq_nil_iff]
  | some cut =>
    obtain ⟨before, inside⟩ := cut
    obtain ⟨hservice, -⟩ := cutAt?_eq_some_iff.mp hcut
    have hmem : '[' ∈ hostAndService authority := by simp [hservice]
    obtain ⟨halone, hbracketed⟩ := bracketed_of_check h (mem_of_mem_afterLast hmem)
    have hbefore : before = [] := by
      simp only [standsAlone, hcut, Bool.and_eq_true, List.isEmpty_iff] at halone
      exact halone.1
    rw [hbefore, List.nil_append] at hservice
    constructor
    · intro hnil
      rw [hnil] at hbracketed
      exact absurd hbracketed (by decide)
    · intro hcolon
      rw [hservice] at hcolon
      exact absurd (hcolon '[' rfl) (by decide)

end Authority

/-! ## Letters as parts of an address -/

section

variable {cs : List Char} (h : ∀ c ∈ cs, c.isAlpha = true)

include h

theorem not_mem_of_letters {c : Char} (hc : c.isAlpha = false) : c ∉ cs := by
  intro hmem
  rw [h c hmem] at hc
  cases hc

theorem toNat_lt_of_letters : ∀ c ∈ cs, c.toNat < 0x80 := by
  intro c hc
  exact (Url.toNat_of_isAlphanum (isAlphanum_of_isAlpha (h c hc))).2

/-- Letters are an authority without brackets, and hide no delimiter. -/
theorem Authority.check_of_letters : Authority.check cs = .ok () := by
  have hopened : cs.contains '[' = false := by simpa using not_mem_of_letters h (by decide)
  have hclosed : cs.contains ']' = false := by simpa using not_mem_of_letters h (by decide)
  have hhidden : cs.any Authority.hidesDelimiter = false := by
    rw [List.any_eq_false]
    intro c hc hhides
    have hhigh : ∀ n ∈ Authority.hidingDelimiters, 0x80 ≤ n := by decide
    have hlow := toNat_lt_of_letters h c hc
    have := hhigh c.toNat (by simpa [Authority.hidesDelimiter] using hhides)
    omega
  simp only [Authority.check, hopened, hclosed, hhidden, bne_self_eq_false, Bool.false_and, Bool.false_eq_true,
    if_false]

/-- Letters are a host by themselves. -/
theorem Authority.host_of_letters : Authority.host cs = cs := by
  have hservice : Authority.hostAndService cs = cs := by
    have hall : ∀ c ∈ cs.reverse, (c != '@') = true := by
      intro c hc
      have hat := not_mem_of_letters h (c := '@') (by decide)
      rw [bne_iff_ne]
      rintro rfl
      exact hat (List.mem_reverse.mp hc)
    rw [Authority.hostAndService, afterLast, List.takeWhile_eq_self_iff.mpr hall, List.reverse_reverse]
  have hopened : cutAt? '[' cs = none := cutAt?_eq_none_iff.mpr (not_mem_of_letters h (by decide))
  have hcolon : cutAt ':' cs = (cs, []) := cutAt_of_not_mem (not_mem_of_letters h (by decide))
  rw [Authority.host, hservice, hopened]
  simp only [hcolon]

theorem Url.isScheme_of_letters (hne : cs ≠ []) : Url.isScheme cs = true := by
  cases cs with
  | nil => exact absurd rfl hne
  | cons c rest =>
    have hrest : rest.all Url.isSchemeChar = true := by
      rw [List.all_eq_true]
      intro d hd
      have := isAlphanum_of_isAlpha (h d (List.mem_cons_of_mem _ hd))
      simp [Url.isSchemeChar, this]
    rw [Url.isScheme, h c List.mem_cons_self, hrest]
    rfl

end

end AgentBridge
