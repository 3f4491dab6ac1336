import AgentBridge.Proofs.Failures
import AgentBridge.Proofs.FloatText

/-
  AgentBridge.Proofs.Truncation — replies that are cut short or go on too long.

  The text of an object ends with a closing bracket, and behind it only white space can stand
  (`no_extension`). So of all the texts that begin alike at most one is an envelope, blanks
  apart: a reply that is cut, or that has something behind its envelope, is never taken for
  another reply (`result_of_cut`). How a cut reply fails is one of four errors, unless it is
  cut inside a number whose digits so far would be too many for a whole number.
-/

namespace AgentBridge

namespace Json

/-! ## Texts of objects -/

theorem afterValue_eq_done {v w : Json} {around : List Frame} (h : State.afterValue v around = .done w) :
    around = [] ∧ v = w := by
  cases around with
  | nil => exact ⟨rfl, by injection h⟩
  | cons f outer => cases f <;> cases h

/-- An object is complete with a closing bracket only. -/
theorem closing_of_step {s : State} {t : Token} {m : List (Text × Json)} (ht : t.Sound)
    (h : State.Step s t (.done (.object m))) : t = .closing .object := by
  generalize hd : State.done (.object m) = d at h
  cases h with
  | scalar v he =>
    obtain ⟨-, rfl⟩ := afterValue_eq_done hd.symm
    exact absurd ht.1 (by simp [IsScalar])
  | text t he => obtain ⟨-, h⟩ := afterValue_eq_done hd.symm; cases h
  | close hc =>
    obtain ⟨-, rfl⟩ := afterValue_eq_done hd.symm
    cases hc <;> rfl
  | _ => cases hd

theorem ends_closing_of_read {cs : List Char} {m : List (Text × Json)} (h : read cs = .ok (.object m)) :
    ∃ before l s, lexemes cs = before ++ [l] ∧ l.token = .closing .object ∧
      (State.value []).feed before = .ok s ∧ s.take l = .ok (.done (.object m)) := by
  have hf := (read_eq_ok_iff.mp h).2
  rcases List.eq_nil_or_concat (lexemes cs) with hl | ⟨before, l, hl⟩
  · rw [hl] at hf; cases hf
  · rw [List.concat_eq_append] at hl
    rw [hl, State.feed_append, bind_eq_ok] at hf
    obtain ⟨s, hs, hf⟩ := hf
    have ht : s.take l = .ok (.done (.object m)) := by
      obtain ⟨s', hs', hf⟩ := bind_eq_ok.mp hf
      cases hf; exact hs'
    have hsound : l.token.Sound := lexemes_sound (by rw [hl]; simp)
    exact ⟨before, l, s, hl, closing_of_step hsound (State.take_ok ht), hs, ht⟩

theorem isSpace_of_lexemesFrom_eq_nil {pos : Nat} {cs : List Char} (h : lexemesFrom 0 pos cs = []) :
    ∀ c ∈ cs, isSpace c = true := by
  induction cs generalizing pos with
  | nil => simp
  | cons c rest ih =>
    simp only [lexemesFrom] at h
    by_cases hc : isSpace c = true
    · rw [if_pos hc] at h
      intro x hx
      rcases List.mem_cons.mp hx with rfl | hx
      · exact hc
      · exact ih h x hx
    · rw [if_neg hc] at h
      repeat' split at h
      all_goals cases h

/-- Behind the text of an object only white space can stand, and it does not change the object. -/
theorem no_extension {cs u : List Char} {m : List (Text × Json)} {v : Json} (h : read cs = .ok (.object m))
    (hu : read (cs ++ u) = .ok v) : (∀ c ∈ u, isSpace c = true) ∧ v = .object m := by
  obtain ⟨before, l, s, hl, hclose, hs, ht⟩ := ends_closing_of_read h
  obtain ⟨done, c, rest, -, -, hrest, hcut⟩ :=
    lexemesFrom_cut (Nat.zero_le _) hl (by rw [hclose]; rfl)
  have hf := (read_eq_ok_iff.mp hu).2
  rw [lexemes, hcut u, State.feed_append, hs] at hf
  obtain ⟨s', hs', hf⟩ := bind_eq_ok.mp (show s.take l >>= (State.feed · _) = _ from hf)
  rw [ht] at hs'
  cases hs'
  obtain ⟨hnil, hv⟩ := State.feed_done hf
  refine ⟨fun x hx => isSpace_of_lexemesFrom_eq_nil hnil x (List.mem_append_right _ hx), ?_⟩
  injection hv

/-- A text that is part of a readable one at its front has no bracket too many. -/
theorem not_exceeds_nesting_of_read {cs u : List Char} {v : Json} {b : Bracket} (hu : read (cs ++ u) = .ok v) :
    ¬ Exceeds cs (.nesting b) := by
  rintro ⟨before, l, after, s, around, hl, hs, he, ho⟩
  have hopen : ∃ b', l.token = .opening b' := by
    rcases ho with ho | ⟨b', ho, -⟩
    · have hsound : l.token.Sound := lexemes_sound (by rw [hl]; simp)
      rw [ho] at hsound
      obtain ⟨n, hn, -⟩ := hsound
      cases hn
    · exact ⟨b', ho⟩
  obtain ⟨b', hb⟩ := hopen
  obtain ⟨done, c, rest, -, -, -, hcut⟩ := lexemesFrom_cut (Nat.zero_le _) hl (by rw [hb]; rfl)
  have hx : Exceeds (cs ++ u) (.nesting b) := ⟨before, l, _, s, around, hcut u, hs, he, ho⟩
  rw [read_eq_limit_iff.mpr hx] at hu
  cases hu

end Json

/-! ## Replies -/

theorem Envelope.object_of_read {cs : List Char} {e : Envelope} (h : Envelope.read cs = .ok e) :
    ∃ m, Json.read cs = .ok (.object m) := by
  unfold Envelope.read at h
  cases hr : Json.read cs with
  | error err => rw [hr] at h; cases err <;> cases h
  | ok v =>
    rw [hr] at h
    cases v with
    | object m => exact ⟨m, rfl⟩
    | _ => cases h

/-- Reading the front of an object, where the rest of it is not only white space, fails: the front is no
JSON, or not an envelope, or it exceeds the limit of digits. -/
theorem Envelope.read_front {a u : List Char} {m : List (Text × Json)} (hu : ∃ c ∈ u, Blank.isBlank c = false)
    (hm : Json.read (a ++ u) = .ok (.object m)) :
    (∃ e, Envelope.read a = .error (.reported e) ∧ e.kind = .envelopeParse) ∨
      ∃ n, Envelope.read a = .error (.limit (.digits n)) := by
  cases hr : Json.read a with
  | ok v =>
    cases v with
    | object m' =>
      obtain ⟨c, hc, hb⟩ := hu
      have := Blank.isBlank_of_isSpace ((Json.no_extension hr hm).1 c hc)
      rw [hb] at this
      cases this
    | _ =>
      exact Or.inl ⟨.notEnvelope ⟨[], .notRecord "BridgeResponse"⟩,
        by simp [Envelope.read, hr, Envelope.ofJson, Shape.record], rfl⟩
  | error err =>
    cases err with
    | malformed f place => exact Or.inl ⟨.notJson f place, by simp [Envelope.read, hr], rfl⟩
    | limit l =>
      cases l with
      | digits n => exact Or.inr ⟨n, by simp [Envelope.read, hr]⟩
      | nesting b => exact absurd (Json.read_eq_limit_iff.mp hr) (Json.not_exceeds_nesting_of_read hm)

/-- A literal with `n` digits before its point. -/
def Json.Literal.ones {n : Nat} (hn : n ≠ 0) : Json.Literal where
  whole := List.replicate n '1'
  fraction := ['5']
  power := none
  isWhole := Digit.whole_ones hn
  isFraction := List.forall_mem_singleton.mpr rfl
  notInteger := Or.inl (by simp)

/-- An envelope with such a literal. -/
def Envelope.longText (n : Nat) : List Char :=
  dataFront ++ ' ' :: ((List.replicate n '1' ++ ['.', '5']) ++ ['\x7d'])

theorem Envelope.longText_eq (n : Nat) :
    longText n = dataFront ++ ' ' :: List.replicate n '1' ++ ['.', '5', '\x7d'] := by
  simp [longText]

theorem Envelope.trim_longText (n : Nat) : Blank.trim (longText n) = longText n := by
  rw [longText, ← List.cons_append, ← List.append_assoc]
  exact Blank.trim_enclosed (by decide) (by decide) _

theorem Envelope.read_longText {n : Nat} (hn : n ≠ 0) : ∃ e, Envelope.read (longText n) = .ok e := by
  have hscan : Json.scanScalar (List.replicate n '1' ++ ['.', '5']) =
      some (.ok (.float ((Json.Literal.ones hn).float false)), _) := (Json.Literal.ones hn).scanScalar_text false
  have hleads : Json.Leads (longText n) (.value [])
      (.done (.object [("ok", .bool true), ("data", .float ((Json.Literal.ones hn).float false))])) :=
    .append leads_dataFront (.blank (.append (.scalar hscan (.scalar _ (.value _)))
      (.mark rfl (.close (.members _ [])) (.nil _)) (Json.ends_cons (by decide) _))) (Json.ends_cons (by decide) _)
  exact ⟨_, Envelope.read_of_object hleads.read rfl⟩

namespace Reply

/-- An envelope is recognised in a reply: it gives a value, or the refusal of a backend. -/
def Recognised (r : Reply) : Prop :=
  (∃ v, r.result = .ok v) ∨ ∃ message status, r.result = .error (.reported (.refused message status))

theorem recognised_iff {r : Reply} :
    r.Recognised ↔ ∃ out e, Utf8.decode? r.stdout = .ok out ∧ Envelope.read (Blank.trim out) = .ok e := by
  constructor
  · intro h
    cases hd : Utf8.decode? r.stdout with
    | error f => simp [Recognised, result, hd] at h
    | ok out =>
      cases he : Envelope.read (Blank.trim out) with
      | ok e => exact ⟨out, e, rfl, he⟩
      | error err =>
        exfalso
        have hnot : ∀ message status, err ≠ .reported (.refused message status) := by
          intro message status h
          subst h
          cases Envelope.kind_of_read he
        simp only [Recognised, result, hd, he] at h
        split at h
        · split at h <;> simp at h
        · rcases h with ⟨v, h⟩ | ⟨message, status, h⟩
          · cases h
          · exact hnot message status (Except.error.inj h)
  · rintro ⟨out, e, hd, he⟩
    rw [Recognised, result_of_read hd he, verdict]
    split
    · exact Or.inl ⟨_, rfl⟩
    · exact Or.inr ⟨_, _, rfl⟩

/-- The bytes of blanks only. -/
def BlankBytes (s : List UInt8) : Prop := ∃ w, (∀ c ∈ w, Blank.isBlank c = true) ∧ s = Utf8.encode w

theorem blankBytes_encode {cs : List Char} : BlankBytes (Utf8.encode cs) ↔ ∀ c ∈ cs, Blank.isBlank c = true := by
  constructor
  · rintro ⟨w, hw, h⟩
    rwa [Utf8.encode_injective h]
  · exact fun h => ⟨cs, h, rfl⟩

/-- How a truncated reply fails. -/
def cutKinds : List ErrorKind := [.outputDecode, .emptyResponse, .diagnostic, .envelopeParse]

variable {b s stderr : List UInt8} {status : Option Int}

/-- Two replies that begin alike differ by blanks only. -/
theorem recognised_append (hb : (Reply.mk b stderr status).Recognised)
    (h : (Reply.mk (b ++ s) stderr status).Recognised) :
    BlankBytes s ∧ (Reply.mk b stderr status).result = (Reply.mk (b ++ s) stderr status).result := by
  obtain ⟨out, e, hd, he⟩ := recognised_iff.mp hb
  obtain ⟨all, e', hd', he'⟩ := recognised_iff.mp h
  obtain ⟨more, rfl, rfl⟩ := Utf8.decode?_append hd hd'
  have hblank : ∀ c ∈ more, Blank.isBlank c = true := by
    by_contra hn
    obtain ⟨m, hm⟩ := Envelope.object_of_read he
    obtain ⟨m', hm'⟩ := Envelope.object_of_read he'
    have hne : Blank.trim out ≠ [] := by intro hnil; rw [hnil] at he; cases he
    obtain ⟨u, hu, c, hc, hcb⟩ := Blank.trim_append hne (show ∃ c ∈ more, _ by simpa using hn)
    rw [hu] at hm'
    have := Blank.isBlank_of_isSpace ((Json.no_extension hm hm').1 c hc)
    rw [hcb] at this
    cases this
  have htrim : Blank.trim (out ++ more) = Blank.trim out := Blank.trim_append_blanks hblank out
  have heq : e = e' := by
    rw [htrim, he] at he'
    exact Except.ok.inj he'
  refine ⟨⟨more, hblank, rfl⟩, ?_⟩
  rw [result_of_read hd he, result_of_read hd' he', heq]
  rfl

/-- A reply that is cut before the end of its envelope fails in one of four ways, or on too many digits. -/
theorem result_of_front (hs : ¬ BlankBytes s) (h : (Reply.mk (b ++ s) stderr status).Recognised) :
    (∃ e, (Reply.mk b stderr status).result = .error (.reported e) ∧ e.kind ∈ cutKinds) ∨
      ∃ n, (Reply.mk b stderr status).result = .error (.limit (.digits n)) := by
  obtain ⟨all, e', hd', he'⟩ := recognised_iff.mp h
  obtain ⟨m', hm'⟩ := Envelope.object_of_read he'
  cases hd : Utf8.decode? b with
  | error f => exact Or.inl ⟨.undecodable f, by simp [result, hd], by simp [cutKinds, CallError.kind]⟩
  | ok out =>
    obtain ⟨more, rfl, rfl⟩ := Utf8.decode?_append hd hd'
    by_cases hne : Blank.trim out = []
    · by_cases hc : (Reply.mk b stderr status).complaint.isEmpty = true
      · exact Or.inl ⟨.silent, by simp [result, hd, hne, hc], by simp [cutKinds, CallError.kind]⟩
      · exact Or.inl ⟨.diagnostic _, by simp [result, hd, hne, hc]; rfl, by simp [cutKinds, CallError.kind]⟩
    · obtain ⟨u, hu, hub⟩ := Blank.trim_append hne (show ∃ c ∈ more, _ by
        by_contra hn
        exact hs ⟨more, by simpa using hn, rfl⟩)
      rw [hu] at hm'
      rw [result_of_trim hd hne]
      rcases Envelope.read_front hub hm' with ⟨e, he, hk⟩ | ⟨n, he⟩
      · exact Or.inl ⟨e, by rw [he]; rfl, by simp [cutKinds, hk]⟩
      · exact Or.inr ⟨n, by rw [he]; rfl⟩

/-- A reply with a long number can be cut so that its front exceeds the limit of digits. -/
theorem exists_front_exceeds {n : Nat} (hn : Json.digitLimit < n) :
    ∃ b s, (Reply.mk (b ++ s) [] none).Recognised ∧ ¬ BlankBytes s ∧ (Reply.mk b [] none).Exceeds (.digits n) := by
  obtain ⟨n, rfl⟩ := Nat.exists_eq_succ_of_ne_zero (Nat.ne_zero_of_lt hn)
  obtain ⟨e, he⟩ := Envelope.read_longText (Nat.succ_ne_zero n)
  refine ⟨Utf8.encode (Envelope.dataFront ++ ' ' :: List.replicate (n + 1) '1'), Utf8.encode ['.', '5', '\x7d'],
    ?_, ?_, exceeds_of_trim (Envelope.trim_dataFront n) (Envelope.exceeds_digits hn)⟩
  · rw [← Utf8.encode_append, ← Envelope.longText_eq]
    refine recognised_iff.mpr ⟨_, e, Utf8.decode?_eq_ok_iff.mpr rfl, ?_⟩
    rwa [Envelope.trim_longText]
  · rw [blankBytes_encode]
    exact fun h => absurd (h '.' (by simp)) (by decide)

/-- A reply is never taken for another one that begins alike. If an envelope is recognised in the whole of
it and in its front, then the rest is blank and both mean the same; if the rest is not blank, then the front
fails in one of four ways, except that it is cut short where it exceeds the limit of digits. -/
theorem result_of_cut (h : (Reply.mk (b ++ s) stderr status).Recognised) :
    ((Reply.mk b stderr status).Recognised →
      BlankBytes s ∧ (Reply.mk b stderr status).result = (Reply.mk (b ++ s) stderr status).result) ∧
    (¬ BlankBytes s →
      ((∃ e, (Reply.mk b stderr status).result = .error (.reported e) ∧ e.kind ∈ cutKinds) ↔
        ∀ n, ¬ (Reply.mk b stderr status).Exceeds (.digits n)) ∧
      ∀ n, (Reply.mk b stderr status).result = .error (.limit (.digits n)) ↔
        (Reply.mk b stderr status).Exceeds (.digits n)) := by
  refine ⟨fun hb => recognised_append hb h, fun hs => ⟨⟨?_, ?_⟩, fun n => result_eq_limit_iff⟩⟩
  · rintro ⟨e, he, -⟩ n hx
    rw [result_eq_limit_iff.mpr hx] at he
    cases he
  · intro hx
    rcases result_of_front hs h with hr | ⟨n, hr⟩
    · exact hr
    · exact absurd (result_eq_limit_iff.mp hr) (hx n)

/-- Without its closing bracket, the envelope of an empty answer is not recognised. -/
theorem result_of_cut_bracket :
    (Reply.mk (Utf8.encode "\x7b\"ok\": true".toList ++ Utf8.encode ['\x7d']) [] none).Recognised ∧
      ¬ (Reply.mk (Utf8.encode "\x7b\"ok\": true".toList) [] none).Recognised := by
  have h : (Reply.mk (Utf8.encode "\x7b\"ok\": true".toList ++ Utf8.encode ['\x7d']) [] none).Recognised :=
    Or.inl ⟨.null, by rfl⟩
  refine ⟨h, fun hb => ?_⟩
  have hblank := blankBytes_encode.mp ((result_of_cut h).1 hb).1
  exact absurd (hblank '\x7d' (by simp)) (by decide)

end Reply

end AgentBridge
