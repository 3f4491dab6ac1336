import AgentBridge.Proofs.LinkForms
import AgentBridge.Proofs.Outcome
import AgentBridge.Proofs.Parameters

/-
  AgentBridge.Proofs.Links — which import links are accepted, and what they give.

  A link with written parameters is read exactly (`read_of_writes`): the first value of each of
  the two parameters counts, without blanks around it, and the first check that fails gives the
  reason; other parameters, their order and later values of the same key do not matter. So
  whatever link is accepted, a canonical one with its base address and its token gives the same
  answer (`canonical_of_read`), and the base addresses that links give are all those that pass
  their check (`exists_read_iff`).

  The check looks at an address without the characters that are dropped from it, and the link
  has them still: an accepted base address begins as one of the web does once they are dropped,
  and itself where it holds no control characters (`baseUrl_of_read`). The check wants an
  authority and does not look for the host in it, which may be missing (`host_of_read`).
-/

namespace AgentBridge

/-- The characters of written parameters are printed, and none of them begins a fragment. -/
theorem Query.IsQueryChar.printed {c : Char} (h : IsQueryChar c) :
    ' ' ≤ c ∧ Blank.isBlank c = false ∧ c ≠ '#' := by
  rcases h with rfl | rfl | rfl | h
  · decide
  · decide
  · decide
  · simp only [Percent.isUnreserved, Bool.or_eq_true, beq_iff_eq] at h
    rcases h with (((h | rfl) | rfl) | rfl) | rfl
    · obtain ⟨hlow, hhigh⟩ := Url.toNat_of_isAlphanum h
      refine ⟨?_, ?_, ?_⟩
      · show (0x20 : Nat) ≤ c.toNat
        omega
      · exact Blank.isBlank_of_printed (by omega) hhigh
      · intro he
        rw [he] at h
        exact absurd h (by decide)
    all_goals decide

namespace Link

/-! ## Tokens -/

/-- A trimmed text is a token if it is long enough and holds characters of tokens only. -/
theorem isToken_trim {cs : List Char} :
    isToken (Blank.trim cs) = true ↔ 16 ≤ (Blank.trim cs).length ∧ ∀ c ∈ Blank.trim cs, isTokenChar c = true := by
  -- A line feed at the end would not count, but there is none.
  have hfeed : withoutLineFeed (Blank.trim cs) = Blank.trim cs := by
    refine if_neg ?_
    intro hlast
    exact absurd (Blank.getLast_trim hlast) (by decide)
  simp only [isToken, hfeed, tokenLength, Bool.and_eq_true, decide_eq_true_eq, List.all_eq_true]

/-! ## Written links -/

/-- What parameters give under a key: the first value that is not empty, without blanks around it. -/
def given (q : Query) (key : String) : List Char :=
  Blank.trim (((q.find? fun kv => kv.1 = key.toList ∧ kv.2 ≠ []).map (·.2)).getD [])

theorem given_cons_self {key : String} {value : List Char} (h : value ≠ []) (q : Query) :
    given ((key.toList, value) :: q) key = Blank.trim value := by
  rw [given, List.find?_cons_of_pos (by simp [h])]
  rfl

/-- Other parameters do not matter. -/
theorem given_cons_of_ne {key : String} {other : List Char} (h : other ≠ key.toList) (value : List Char) (q : Query) :
    given ((other, value) :: q) key = given q key := by
  rw [given, List.find?_cons_of_neg (by simp [h])]
  rfl

theorem parameter_filter (q : Query) (key : String) :
    parameter (q.filter fun kv => kv.2 ≠ []) key = given q key := by
  have hfind : (q.filter fun kv => kv.2 ≠ []).find? (·.1 = key.toList) =
      q.find? fun kv => kv.1 = key.toList ∧ kv.2 ≠ [] := by
    rw [List.find?_filter]
    congr 1
    funext kv
    simp [and_comm]
  rw [parameter, given, Query.first, hfind]

/-- Nothing is dropped from written parameters. -/
theorem queryOf_front {cs : List Char} (h : ∀ c ∈ cs, Query.IsQueryChar c) :
    queryOf (front ++ cs) = .ok (Query.ofChars cs) := by
  have hend : cs.rdropWhile Blank.isBlank = cs := by
    rw [List.rdropWhile_eq_self_iff]
    intro hne
    simp [(h _ (List.getLast_mem hne)).printed.2.1]
  have hbreaks : cs.filter (!Url.isBreak ·) = cs := by
    apply List.filter_eq_self.mpr
    intro c hc
    simp [Url.isBreak_eq_false (h c hc).printed.1]
  have hfragment : cutAt '#' cs = (cs, []) := by
    apply cutAt_of_not_mem
    intro hc
    exact (h '#' hc).printed.2.2 rfl
  rw [front_eq, queryOf_frontOf_append (by decide) (by decide), hend, queryAndFragment, hbreaks, hfragment]

/-- A link with written parameters is read as those of them that have a value. -/
theorem read_front {q : Query} {cs : List Char} (h : q.Writes cs) :
    read (front ++ cs) = ofQuery (q.filter fun kv => kv.2 ≠ []) := by
  rw [read, queryOf_front fun c hc => Query.isQueryChar_of_writes h hc, Query.ofChars_of_writes h]
  rfl

/-- What is read from a link that gives a base address and a token. Reasons are told by their message, except
for the fault of a base address. -/
structure Answered (baseUrl token : List Char) (answer : Except LinkError Link) : Prop where
  noBaseUrl : baseUrl = [] → answer.mapError LinkError.message = .error "Missing baseUrl parameter"
  noToken : baseUrl ≠ [] → token = [] → answer.mapError LinkError.message = .error "Missing token parameter"
  badBaseUrl : baseUrl ≠ [] → token ≠ [] → ∀ e, checkBaseUrl baseUrl = .error e → answer = .error e
  badToken : baseUrl ≠ [] → token ≠ [] → checkBaseUrl baseUrl = .ok () →
    ¬ (16 ≤ token.length ∧ ∀ c ∈ token, isTokenChar c = true) →
      answer.mapError LinkError.message = .error "Invalid token format"
  valid : baseUrl ≠ [] → checkBaseUrl baseUrl = .ok () →
    (16 ≤ token.length ∧ ∀ c ∈ token, isTokenChar c = true) → answer = .ok ⟨baseUrl, token⟩

theorem answered_ofQuery (q : Query) : Answered (parameter q "baseUrl") (parameter q "token") (ofQuery q) := by
  have htoken : isToken (parameter q "token") = true ↔
      16 ≤ (parameter q "token").length ∧ ∀ c ∈ parameter q "token", isTokenChar c = true := isToken_trim
  unfold ofQuery
  simp only [List.isEmpty_iff]
  constructor
  · intro hb
    rw [if_pos hb]
    rfl
  · intro hb ht
    rw [if_neg hb, if_pos ht]
    rfl
  · intro hb ht e he
    rw [if_neg hb, if_neg ht, he]
  · intro hb ht hc hform
    rw [if_neg hb, if_neg ht, hc]
    show Except.mapError _ (if _ then _ else _) = _
    rw [if_neg fun h => hform (htoken.mp h)]
    rfl
  · intro hb hc hform
    have ht : parameter q "token" ≠ [] := by
      intro hnil
      rw [hnil] at hform
      exact absurd hform.1 (by decide)
    rw [if_neg hb, if_neg ht, hc]
    exact if_pos (htoken.mpr hform)

/-- Only the two parameters count. -/
theorem ofQuery_congr {q q' : Query} (hb : parameter q' "baseUrl" = parameter q "baseUrl")
    (ht : parameter q' "token" = parameter q "token") : ofQuery q' = ofQuery q := by
  unfold ofQuery
  rw [hb, ht]

theorem answered_of_writes {q : Query} {cs : List Char} (h : q.Writes cs) :
    Answered (given q "baseUrl") (given q "token") (read (front ++ cs)) := by
  rw [read_front h, ← parameter_filter, ← parameter_filter]
  exact answered_ofQuery _

/-- A link with written parameters is read exactly. The first value of each of its two parameters counts, and the
checks are made in order; nothing else in the link changes the answer. -/
theorem read_of_writes {q : Query} {cs : List Char} (h : q.Writes cs) :
    Answered (given q "baseUrl") (given q "token") (read (front ++ cs)) ∧
    ∀ q' cs', Query.Writes q' cs' → given q' "baseUrl" = given q "baseUrl" → given q' "token" = given q "token" →
      read (front ++ cs') = read (front ++ cs) := by
  refine ⟨answered_of_writes h, ?_⟩
  intro q' cs' h' hbase htoken
  rw [read_front h, read_front h']
  apply ofQuery_congr
  · rw [parameter_filter, parameter_filter, hbase]
  · rw [parameter_filter, parameter_filter, htoken]

/-- A parameter that is not known, an empty base address, blanks around the next one and a second token. -/
theorem read_of_writes_doubled :
    read (front ++ Query.encode [("π&=".toList, "%".toList), ("baseUrl".toList, []),
      ("baseUrl".toList, " https://é.example/#x\n".toList), ("token".toList, "0123456789abcde_".toList),
      ("token".toList, "x".toList)]) = .ok ⟨"https://é.example/#x".toList, "0123456789abcde_".toList⟩ := by
  let q : Query := [("π&=".toList, "%".toList), ("baseUrl".toList, []),
    ("baseUrl".toList, " https://é.example/#x\n".toList), ("token".toList, "0123456789abcde_".toList),
    ("token".toList, "x".toList)]
  have hbase : given q "baseUrl" = "https://é.example/#x".toList := by decide
  have htoken : given q "token" = "0123456789abcde_".toList := by decide
  have hanswer := (read_of_writes (Query.writes_encode q)).1
  rw [hbase, htoken] at hanswer
  refine hanswer.valid ?_ ?_ ⟨?_, ?_⟩
  · decide
  · decide
  · decide
  · exact List.all_eq_true.mp (by decide)

/-! ## Base addresses -/

/-- A base address has a scheme of the web and an authority. -/
theorem checkBaseUrl_eq_ok_iff {b : List Char} : checkBaseUrl b = .ok () ↔
    ∃ u, Url.split b = .ok u ∧ u.scheme ∈ baseSchemes ∧ u.authority ≠ [] := by
  unfold checkBaseUrl
  cases Url.split b with
  | error f => simp
  | ok u =>
    have hempty : [] ∉ baseSchemes := by decide
    by_cases hs : u.scheme = []
    · simp [hs, hempty]
    by_cases hw : u.scheme ∈ baseSchemes
    · by_cases ha : u.authority = []
      · simp [hs, hw, ha]
      · simp [hs, hw, ha]
    · simp [hs, hw]

/-- What is looked at is the address without what is dropped from it. -/
theorem checkBaseUrl_clean (b : List Char) : checkBaseUrl (Url.clean b) = checkBaseUrl b := by
  rw [checkBaseUrl, checkBaseUrl, Url.split_clean]

theorem baseUrl_ne_nil {b : List Char} (h : checkBaseUrl b = .ok ()) : b ≠ [] := by
  rintro rfl
  cases h

theorem ofQuery_eq_ok {q : Query} {l : Link} (h : ofQuery q = .ok l) :
    l = ⟨parameter q "baseUrl", parameter q "token"⟩ ∧ checkBaseUrl l.baseUrl = .ok () ∧ isToken l.token = true := by
  unfold ofQuery at h
  dsimp only at h
  split at h
  · cases h
  split at h
  · cases h
  split at h
  · cases h
  · rename_i hc
    split at h
    · rename_i ht
      cases h
      exact ⟨rfl, hc, ht⟩
    · cases h

/-- Both parts of a link are trimmed and have passed their check. -/
theorem checked_of_read {cs : List Char} {l : Link} (h : read cs = .ok l) :
    Blank.trim l.baseUrl = l.baseUrl ∧ checkBaseUrl l.baseUrl = .ok () ∧
      Blank.trim l.token = l.token ∧ isToken l.token = true := by
  obtain ⟨q, -, hq⟩ := bind_eq_ok.mp h
  obtain ⟨hl, hbase, htoken⟩ := ofQuery_eq_ok hq
  refine ⟨?_, hbase, ?_, htoken⟩
  · rw [hl]
    exact Blank.trim_trim _
  · rw [hl]
    exact Blank.trim_trim _

/-! ## Canonical links -/

/-- The link with both parameters in their order, from a text that writes the base address and from the token. -/
def canonical (address token : List Char) : List Char :=
  "xraycp://import?baseUrl=".toList ++ address ++ "&token=".toList ++ token

/-- The parameters of a canonical link are written: nothing in their keys or in a token needs to be encoded. -/
theorem canonical_eq {l : Link} {address : List Char} (ha : Percent.Writes (Utf8.encode l.baseUrl) address)
    (h : ∀ c ∈ l.token, isTokenChar c = true) : ∃ query,
      Query.Writes [("baseUrl".toList, l.baseUrl), ("token".toList, l.token)] query ∧
        canonical address l.token = front ++ query := by
  have htoken : Percent.Writes (Utf8.encode l.token) l.token := by
    apply Percent.writes_self
    intro c hc
    have hform := h c hc
    simp only [isTokenChar, Bool.or_eq_true] at hform
    rcases hform with (hform | hform) | hform
    · simp [Percent.isUnreserved, hform]
    · simp [Percent.isUnreserved, hform]
    · simp [Percent.isUnreserved, hform]
  have hbase : Percent.Writes (Utf8.encode "baseUrl".toList) "baseUrl".toList :=
    Percent.writes_self (List.all_eq_true.mp (by decide))
  have hname : Percent.Writes (Utf8.encode "token".toList) "token".toList :=
    Percent.writes_self (List.all_eq_true.mp (by decide))
  have hfront : "xraycp://import?baseUrl=".toList = front ++ ("baseUrl".toList ++ ['=']) := by decide
  have hmiddle : "&token=".toList = '&' :: ("token".toList ++ ['=']) := by decide
  refine ⟨_, ⟨_, .cons ⟨_, _, hbase, ha, rfl⟩ (.cons ⟨_, _, hname, htoken, rfl⟩ .nil), rfl⟩, ?_⟩
  calc canonical address l.token
      _ = front ++ ("baseUrl".toList ++ ['=']) ++ address ++ '&' :: ("token".toList ++ ['=']) ++ l.token :=
          congrArg₂ (fun before between => before ++ address ++ between ++ l.token) hfront hmiddle
      _ = front ++ joinWith ['&'] ["baseUrl".toList ++ '=' :: address, "token".toList ++ '=' :: l.token] := by
          generalize "baseUrl".toList = base
          generalize "token".toList = name
          simp [joinWith]

/-- What has passed its checks is read from its canonical link. -/
theorem read_canonical {l : Link} (hb : Blank.trim l.baseUrl = l.baseUrl) (hc : checkBaseUrl l.baseUrl = .ok ())
    (ht : Blank.trim l.token = l.token) (htoken : isToken l.token = true) {address : List Char}
    (ha : Percent.Writes (Utf8.encode l.baseUrl) address) : read (canonical address l.token) = .ok l := by
  have hform := htoken
  rw [← ht, isToken_trim, ht] at hform
  have hbne : l.baseUrl ≠ [] := baseUrl_ne_nil hc
  have htne : l.token ≠ [] := by
    intro hnil
    rw [hnil] at htoken
    cases htoken
  have hgiven : given [("baseUrl".toList, l.baseUrl), ("token".toList, l.token)] "baseUrl" = l.baseUrl := by
    rw [given_cons_self hbne, hb]
  have hgivenToken : given [("baseUrl".toList, l.baseUrl), ("token".toList, l.token)] "token" = l.token := by
    rw [given_cons_of_ne (by decide), given_cons_self htne, ht]
  obtain ⟨query, hwrites, hcanonical⟩ := canonical_eq ha hform.2
  have hanswer := answered_of_writes hwrites
  rw [hgiven, hgivenToken, ← hcanonical] at hanswer
  exact hanswer.valid hbne hc hform

theorem exists_read {b token : List Char} (hb : Blank.trim b = b) (hc : checkBaseUrl b = .ok ())
    (ht : Blank.trim token = token) (htoken : isToken token = true) : ∃ cs, read cs = .ok ⟨b, token⟩ :=
  ⟨_, @read_canonical ⟨b, token⟩ hb hc ht htoken _ (Percent.writes_encode b)⟩

/-- Whatever link is accepted, its base address is trimmed and not empty, its token has the form of one, and the
canonical link with both is accepted, too, with the same answer, however its base address is percent-encoded. -/
theorem canonical_of_read {cs : List Char} {l : Link} (h : read cs = .ok l) :
    l.baseUrl ≠ [] ∧ Blank.trim l.baseUrl = l.baseUrl ∧
      16 ≤ l.token.length ∧ (∀ c ∈ l.token, isTokenChar c = true) ∧
      ∀ address, Percent.Writes (Utf8.encode l.baseUrl) address → read (canonical address l.token) = .ok l := by
  obtain ⟨hbase, hcheck, htrim, htoken⟩ := checked_of_read h
  have hform := htoken
  rw [← htrim, isToken_trim, htrim] at hform
  refine ⟨baseUrl_ne_nil hcheck, hbase, hform.1, hform.2, ?_⟩
  intro address ha
  exact read_canonical hbase hcheck htrim htoken ha

/-- A user beside the action, a blank written as a plus sign, a byte that is no text, a percent sign by itself, a line
feed behind the token and a fragment. -/
theorem canonical_of_read_stray :
    read "\x01xraycp://me@Import?token=0123456789abcde_%0A&baseUrl=+http://\u00e9/%ff%zz#top".toList =
        .ok ⟨"http://\u00e9/\uFFFD%zz".toList, "0123456789abcde_".toList⟩ ∧
      read "xraycp://import?baseUrl=http%3a%2f%2f%c3%a9%2f%ef%bf%bd%25zz&token=0123456789abcde_".toList =
        .ok ⟨"http://\u00e9/\uFFFD%zz".toList, "0123456789abcde_".toList⟩ := by
  have hread : read "\x01xraycp://me@Import?token=0123456789abcde_%0A&baseUrl=+http://\u00e9/%ff%zz#top".toList =
      .ok ⟨"http://\u00e9/\uFFFD%zz".toList, "0123456789abcde_".toList⟩ := by decide +kernel
  obtain ⟨-, -, -, -, hcanonical⟩ := canonical_of_read hread
  have hencoded := hcanonical _ (Percent.writes_encode "http://\u00e9/\uFFFD%zz".toList)
  exact ⟨hread, hencoded⟩

/-- The base addresses that links give are all those that pass their check. -/
theorem exists_read_iff {b : List Char} : (∃ cs token, read cs = .ok ⟨b, token⟩) ↔
    Blank.trim b = b ∧ checkBaseUrl b = .ok () := by
  constructor
  · intro h
    obtain ⟨cs, token, h⟩ := h
    obtain ⟨hb, hc, -⟩ := checked_of_read h
    exact ⟨hb, hc⟩
  · intro h
    have htoken : isToken (List.replicate 16 '0') = true := by decide
    obtain ⟨cs, hcs⟩ := exists_read h.1 h.2 (by decide) htoken
    exact ⟨cs, _, hcs⟩

/-- An address begins as one of the web does: with the scheme, in letters of any case, a colon and two slashes. -/
def BeginsWeb (cs : List Char) : Prop :=
  ∃ scheme rest, cs = scheme ++ "://".toList ++ rest ∧ scheme.map Char.toLower ∈ baseSchemes

theorem beginsWeb_clean {b : List Char} (h : checkBaseUrl b = .ok ()) : BeginsWeb (Url.clean b) := by
  obtain ⟨u, hu, hs, ha⟩ := checkBaseUrl_eq_ok_iff.mp h
  have hne : u.scheme ≠ [] := by
    intro hnil
    rw [hnil] at hs
    exact absurd hs (by decide)
  obtain ⟨scheme, rest, hclean, hlower⟩ := Url.exists_front_of_split hu hne ha
  rw [hlower] at hs
  exact ⟨scheme, rest, hclean, hs⟩

/-- A trimmed text without control characters is looked at as it is. -/
theorem clean_of_printed {b : List Char} (hb : Blank.trim b = b) (h : ∀ c ∈ b, ' ' ≤ c) : Url.clean b = b := by
  rw [Url.clean_eq_self_iff]
  refine ⟨?_, ?_⟩
  · intro c hc
    have hblank : c ≠ ' ' := by
      intro he
      rw [he, ← hb] at hc
      exact absurd (Blank.head_trim hc) (by decide)
    have hlow : ' ' ≤ c := h c (List.mem_of_mem_head? hc)
    exact decide_eq_false fun hle => hblank (Char.le_antisymm hle hlow)
  · intro c hc
    exact Url.isBreak_eq_false (h c hc)

/-- An accepted base address begins as one of the web does as far as it was looked at, and itself where it has no
control characters; any other text that looks the same is handed on with the same token. -/
theorem baseUrl_of_read {cs : List Char} {l : Link} (h : read cs = .ok l) :
    BeginsWeb (Url.clean l.baseUrl) ∧
    ((BeginsWeb l.baseUrl ∧ ∀ c ∈ l.baseUrl, ' ' ≤ c) ↔ ∀ c ∈ l.baseUrl, ' ' ≤ c) ∧
    ∀ b, Blank.trim b = b → Url.clean b = Url.clean l.baseUrl → ∃ cs', read cs' = .ok ⟨b, l.token⟩ := by
  obtain ⟨htrim, hcheck, htrimToken, htoken⟩ := checked_of_read h
  have hweb := beginsWeb_clean hcheck
  refine ⟨hweb, ⟨And.right, ?_⟩, ?_⟩
  · intro hprinted
    rw [clean_of_printed htrim hprinted] at hweb
    exact ⟨hweb, hprinted⟩
  · intro b hb hclean
    rw [← checkBaseUrl_clean, ← hclean, checkBaseUrl_clean] at hcheck
    exact exists_read hb hcheck htrimToken htoken

/-- A line feed inside the scheme is not looked at and comes with the address. -/
theorem baseUrl_of_read_lineFeed :
    read "xraycp://import?baseUrl=ht%0Atp%3A%2F%2Fexample.com&token=0123456789abcdef".toList =
        .ok ⟨"ht\ntp://example.com".toList, "0123456789abcdef".toList⟩ ∧
      BeginsWeb "http://example.com".toList ∧
      ¬ (BeginsWeb "ht\ntp://example.com".toList ∧ ∀ c ∈ "ht\ntp://example.com".toList, ' ' ≤ c) := by
  have hread : read "xraycp://import?baseUrl=ht%0Atp%3A%2F%2Fexample.com&token=0123456789abcdef".toList =
      .ok ⟨"ht\ntp://example.com".toList, "0123456789abcdef".toList⟩ := by decide
  obtain ⟨hweb, hplain, -⟩ := baseUrl_of_read hread
  refine ⟨hread, hweb, ?_⟩
  rw [hplain]
  intro hprinted
  exact absurd (hprinted '\n' (by decide)) (by decide)

/-! ## Hosts -/

/-- An accepted base address has an authority, and no host exactly where nothing, or a service only, stands
behind the user in it. Whether there is a host does not matter to what is accepted. -/
theorem host_of_read {cs : List Char} {l : Link} (h : read cs = .ok l) :
    (∃ u, Url.split l.baseUrl = .ok u ∧ u.authority ≠ [] ∧
      (u.host = [] ↔ ∀ c ∈ (Authority.hostAndService u.authority).head?, c = ':')) ∧
    ∀ b u, Blank.trim b = b → Url.split b = .ok u →
      ((∃ cs', read cs' = .ok ⟨b, l.token⟩) ↔ u.scheme ∈ baseSchemes ∧ u.authority ≠ []) := by
  obtain ⟨-, hcheck, htrimToken, htoken⟩ := checked_of_read h
  refine ⟨?_, ?_⟩
  · obtain ⟨u, hu, -, ha⟩ := checkBaseUrl_eq_ok_iff.mp hcheck
    obtain ⟨-, -, hauthority⟩ := Url.parts_of_split hu
    exact ⟨u, hu, ha, Authority.host_eq_nil_iff hauthority⟩
  · intro b u hb hu
    constructor
    · intro hread
      obtain ⟨cs', hread⟩ := hread
      obtain ⟨u', hu', hparts⟩ := checkBaseUrl_eq_ok_iff.mp (checked_of_read hread).2.1
      rw [hu] at hu'
      cases hu'
      exact hparts
    · intro hparts
      exact exists_read hb (checkBaseUrl_eq_ok_iff.mpr ⟨u, hu, hparts⟩) htrimToken htoken

/-- A user and a service without a host are accepted. -/
theorem host_of_read_service :
    read "xraycp://import?baseUrl=http%3A%2F%2Fuser%40%3A80&token=0123456789abcdef".toList =
        .ok ⟨"http://user@:80".toList, "0123456789abcdef".toList⟩ ∧
      ∃ u, Url.split "http://user@:80".toList = .ok u ∧ u.authority ≠ [] ∧ u.host = [] := by
  have hread : read "xraycp://import?baseUrl=http%3A%2F%2Fuser%40%3A80&token=0123456789abcdef".toList =
      .ok ⟨"http://user@:80".toList, "0123456789abcdef".toList⟩ := by decide
  obtain ⟨⟨u, hu, ha, hhost⟩, -⟩ := host_of_read hread
  refine ⟨hread, u, hu, ha, hhost.mpr ?_⟩
  have hservice : Url.split "http://user@:80".toList = .ok ⟨"http".toList, "user@:80".toList, [], [], []⟩ := by rfl
  rw [hservice] at hu
  cases hu
  intro c hc
  cases hc
  rfl

end Link

end AgentBridge
