import AgentBridge.Link
import AgentBridge.Proofs.Addresses
import Mathlib.Data.List.DropRight

/-
  AgentBridge.Proofs.LinkForms — the forms of an import link.

  In front of its parameters a link has a scheme, a colon, some slashes and an action. Behind two
  slashes the action stands in the place of the host, behind any other number of them in the
  path (`Placed`). Either way the action is found, and the characters behind the question mark
  make up the same query (`queryOf_frontOf_append`): what is trimmed and dropped from a link is
  behind its front, and no delimiter in the query is looked at before the front has been cut off.
  So a link has the same answer in every form, in letters of any case (`read_frontOf_append`).
-/

namespace AgentBridge.Link

/-! ## Fronts -/

/-- What a link has in front of its parameters: a scheme, a colon, slashes, an action and a question mark. -/
def frontOf (scheme : List Char) (slashes : Nat) (action : List Char) : List Char :=
  scheme ++ ':' :: (List.replicate slashes '/' ++ (action ++ ['?']))

/-- An import link up to its parameters. -/
def front : List Char := "xraycp://import?".toList

theorem front_eq : front = frontOf scheme 2 action := by decide

/-- An action stands in the place of the host, or in the path behind some slashes. -/
inductive Placed (action : List Char) : (authority path : List Char) → Prop
  | host : Placed action action []
  | path (slashes : Nat) : Placed action [] (List.replicate slashes '/' ++ action)

section

variable {action : List Char} (ha : ∀ c ∈ action, c.isAlpha = true)

include ha

/-- An action behind any number of slashes has its place there. -/
theorem exists_placed (hne : action ≠ []) (slashes : Nat) (rest : List Char) : ∃ authority path,
    Placed action authority path ∧
      Url.cutAuthority (List.replicate slashes '/' ++ (action ++ '?' :: rest)) = (authority, path ++ '?' :: rest) := by
  obtain ⟨c, letters, rfl⟩ := List.exists_cons_of_ne_nil hne
  have hc : c ≠ '/' := by
    rintro rfl
    exact absurd (ha '/' List.mem_cons_self) (by decide)
  match slashes with
  | 0 =>
    refine ⟨[], _, .path 0, ?_⟩
    rw [Url.cutAuthority]
    · rfl
    · intro more hmore
      exact hc (List.cons.inj hmore).1
  | 1 =>
    refine ⟨[], _, .path 1, ?_⟩
    rw [Url.cutAuthority]
    · rfl
    · intro more hmore
      exact hc (List.cons.inj (List.cons.inj hmore).2).1
  | 2 =>
    refine ⟨_, _, .host, ?_⟩
    have hends : ∀ d ∈ c :: letters, (!Url.endsAuthority d) = true := by
      intro d hd
      have hslash := not_mem_of_letters ha (c := '/') (by decide)
      have hquery := not_mem_of_letters ha (c := '?') (by decide)
      have hhash := not_mem_of_letters ha (c := '#') (by decide)
      simp only [Url.endsAuthority, Bool.not_eq_true', Bool.or_eq_false_iff, beq_eq_false_iff_ne]
      refine ⟨⟨?_, ?_⟩, ?_⟩
      · rintro rfl
        exact hslash hd
      · rintro rfl
        exact hquery hd
      · rintro rfl
        exact hhash hd
    show Url.cutAuthority ('/' :: '/' :: (c :: letters ++ '?' :: rest)) = _
    rw [Url.cutAuthority, List.takeWhile_append_of_pos hends, List.dropWhile_append_of_pos hends]
    simp [Url.endsAuthority]
  | slashes + 3 =>
    -- The authority ends at the third slash, before anything has come.
    refine ⟨[], _, .path (slashes + 1), ?_⟩
    show Url.cutAuthority ('/' :: '/' :: '/' :: (List.replicate slashes '/' ++ (c :: letters ++ '?' :: rest))) = _
    simp [Url.cutAuthority, Url.endsAuthority, List.replicate_succ]

/-- The action is found in its place. -/
theorem actionOf_placed (hne : action ≠ []) {authority path : List Char} (h : Placed action authority path)
    (scheme query fragment : List Char) :
    actionOf ⟨scheme, authority, path, query, fragment⟩ = action.map Char.toLower := by
  have hlower : Lowercase.lower action = action.map Char.toLower :=
    Lowercase.lower_of_ascii (toNat_lt_of_letters ha)
  cases h with
  | host =>
    have hhost : Authority.host action = action := Authority.host_of_letters ha
    simp only [actionOf, Url.host, hhost, List.isEmpty_iff, hne, if_false, hlower]
  | path slashes =>
    have hdrop : (List.replicate slashes '/' ++ action).dropWhile (· == '/') = action := by
      rw [Blank.dropWhile_append_of_all (by simp)]
      apply Blank.dropWhile_eq_self
      intro c hc
      rw [beq_eq_false_iff_ne]
      rintro rfl
      exact not_mem_of_letters ha (c := '/') (by decide) (List.mem_of_mem_head? hc)
    have hhost : (Authority.host []).isEmpty = true := rfl
    simp only [actionOf, Url.host, hhost, if_true, hdrop, hlower]

theorem check_placed {authority path : List Char} (h : Placed action authority path) :
    Authority.check authority = .ok () := by
  cases h with
  | host => exact Authority.check_of_letters ha
  | path slashes => rfl

end

theorem not_mem_placed {action authority path : List Char} (ha : ∀ c ∈ action, c.isAlpha = true)
    (h : Placed action authority path) {c : Char} (hc : c.isAlpha = false) (hslash : c ≠ '/') : c ∉ path := by
  intro hmem
  cases h with
  | host => cases hmem
  | path slashes =>
    rcases List.mem_append.mp hmem with hmem | hmem
    · exact hslash (List.eq_of_mem_replicate hmem)
    · exact not_mem_of_letters ha hc hmem

/-- The query and the fragment in the text behind a front. -/
def queryAndFragment (cs : List Char) : List Char × List Char := cutAt '#' (cs.filter (!Url.isBreak ·))

section

variable {typed spelled : List Char} (ht : typed.map Char.toLower = scheme) (hs : spelled.map Char.toLower = action)

include ht hs

theorem printed_frontOf (slashes : Nat) : ∀ c ∈ frontOf typed slashes spelled, 0x21 ≤ c.toNat ∧ c.toNat < 0x80 := by
  have hletter : ∀ c : Char, c.isAlpha = true → 0x21 ≤ c.toNat ∧ c.toNat < 0x80 := by
    intro c hc
    have := Url.toNat_of_isAlphanum (isAlphanum_of_isAlpha hc)
    omega
  intro c hc
  simp only [frontOf, List.mem_append, List.mem_cons, List.mem_replicate, List.not_mem_nil, or_false] at hc
  rcases hc with hc | rfl | ⟨-, rfl⟩ | hc | rfl
  · exact hletter c (letters_of_map_toLower (by decide) ht c hc)
  · decide
  · decide
  · exact hletter c (letters_of_map_toLower (by decide) hs c hc)
  · decide

theorem trim_frontOf_append (slashes : Nat) (cs : List Char) : Blank.trim (frontOf typed slashes spelled ++ cs) =
    frontOf typed slashes spelled ++ cs.rdropWhile Blank.isBlank := by
  have hprinted := printed_frontOf ht hs slashes
  apply Blank.trim_append_of_ends
  · simp [frontOf]
  · intro c hc
    obtain ⟨hlow, hhigh⟩ := hprinted c (List.mem_of_mem_head? hc)
    exact Blank.isBlank_of_printed hlow hhigh
  · intro c hc
    obtain ⟨hlow, hhigh⟩ := hprinted c (List.mem_of_getLast? hc)
    exact Blank.isBlank_of_printed hlow hhigh

theorem clean_frontOf_append (slashes : Nat) (cs : List Char) : Url.clean (frontOf typed slashes spelled ++ cs) =
    frontOf typed slashes spelled ++ cs.filter (!Url.isBreak ·) := by
  have hprinted := printed_frontOf ht hs slashes
  apply Url.clean_append
  · simp [frontOf]
  · rw [Url.clean_eq_self_iff]
    constructor
    · intro c hc
      have hlow := (hprinted c (List.mem_of_mem_head? hc)).1
      apply decide_eq_false
      intro hle
      have : c.toNat ≤ 0x20 := hle
      omega
    · intro c hc
      apply Url.isBreak_eq_false
      show (0x20 : Nat) ≤ c.toNat
      have := (hprinted c hc).1
      omega

omit hs in
/-- The scheme is cut off in front of the first colon. -/
theorem cutScheme_frontOf_append (slashes : Nat) (cs : List Char) :
    Url.cutScheme (frontOf typed slashes spelled ++ cs) =
      (scheme, List.replicate slashes '/' ++ (spelled ++ '?' :: cs)) := by
  have hletters := letters_of_map_toLower (by decide) ht
  have hne : typed ≠ [] := by
    rintro rfl
    cases ht
  have hfront : frontOf typed slashes spelled ++ cs =
      typed ++ ':' :: (List.replicate slashes '/' ++ (spelled ++ '?' :: cs)) := by simp [frontOf]
  have hcut := cutAt?_append_cons (not_mem_of_letters hletters (c := ':') (by decide))
    (List.replicate slashes '/' ++ (spelled ++ '?' :: cs))
  have hlower : Lowercase.lower typed = scheme :=
    (Lowercase.lower_of_ascii (toNat_lt_of_letters hletters)).trans ht
  rw [Url.cutScheme, hfront, hcut]
  simp only [Url.isScheme_of_letters hletters hne, hlower, if_true]

/-- A link is cut into the scheme, the action in its place, and what its text holds behind the front. -/
theorem split_frontOf_append (slashes : Nat) (cs : List Char) : ∃ authority path, Placed spelled authority path ∧
    Url.split (frontOf typed slashes spelled ++ cs) =
      .ok ⟨scheme, authority, path, (queryAndFragment cs).1, (queryAndFragment cs).2⟩ := by
  have hletters := letters_of_map_toLower (by decide) hs
  have hne : spelled ≠ [] := by
    rintro rfl
    cases hs
  obtain ⟨authority, path, hplaced, hauthority⟩ :=
    exists_placed hletters hne slashes (cs.filter (!Url.isBreak ·))
  have hhash : '#' ∉ path ++ ['?'] := by
    intro hmem
    rcases List.mem_append.mp hmem with hmem | hmem
    · exact not_mem_placed hletters hplaced (by decide) (by decide) hmem
    · exact absurd hmem (by decide)
  have hfragment : cutAt '#' (path ++ '?' :: cs.filter (!Url.isBreak ·)) =
      (path ++ '?' :: (queryAndFragment cs).1, (queryAndFragment cs).2) := by
    rw [List.append_cons, cutAt_append_of_not_mem hhash, ← queryAndFragment, ← List.append_cons]
  have hquery : cutAt '?' (path ++ '?' :: (queryAndFragment cs).1) = (path, (queryAndFragment cs).1) :=
    cutAt_append_cons (not_mem_placed hletters hplaced (by decide) (by decide)) _
  refine ⟨authority, path, hplaced, ?_⟩
  rw [Url.split, clean_frontOf_append ht hs, cutScheme_frontOf_append ht]
  simp only [hauthority, hfragment, hquery, check_placed hletters hplaced]

/-- Behind any front, the same query is found. -/
theorem queryOf_frontOf_append (slashes : Nat) (cs : List Char) : queryOf (frontOf typed slashes spelled ++ cs) =
    .ok (Query.ofChars (queryAndFragment (cs.rdropWhile Blank.isBlank)).1) := by
  have hletters := letters_of_map_toLower (by decide) hs
  have hne : spelled ≠ [] := by
    rintro rfl
    cases hs
  obtain ⟨authority, path, hplaced, hsplit⟩ := split_frontOf_append ht hs slashes (cs.rdropWhile Blank.isBlank)
  rw [queryOf, trim_frontOf_append ht hs, hsplit]
  simp only [actionOf_placed hletters hne hplaced, hs]
  rfl

end

/-- A link gives the same answer in all its forms: with any number of slashes in front of its action, and with its
scheme and its action in letters of any case. What stands behind the question mark does not matter. -/
theorem read_frontOf_append {typed spelled : List Char} (ht : typed.map Char.toLower = scheme)
    (hs : spelled.map Char.toLower = action) (slashes : Nat) (cs : List Char) :
    read (frontOf typed slashes spelled ++ cs) = read (front ++ cs) := by
  rw [read, read, front_eq, queryOf_frontOf_append ht hs, queryOf_frontOf_append (by decide) (by decide)]

/-- Four slashes and capital letters in front of parameters that hold delimiters, breaks and a fragment. -/
theorem read_frontOf_append_slashes :
    read "XrayCP:////IMPORT?baseUrl=http://[::1]/?\t&token=0123456789\nabcdef#/?&token=x \n".toList =
      .ok ⟨"http://[::1]/?".toList, "0123456789abcdef".toList⟩ := by
  have hscheme : "XrayCP".toList.map Char.toLower = scheme := by decide
  have haction : "IMPORT".toList.map Char.toLower = action := by decide
  have hanswer := read_frontOf_append hscheme haction 4
    "baseUrl=http://[::1]/?\t&token=0123456789\nabcdef#/?&token=x \n".toList
  refine hanswer.trans ?_
  decide

end AgentBridge.Link
